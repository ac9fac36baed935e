/-!
# Inflating

Compressed data is read bit by bit, the lowest bit of a byte first. It comes in
blocks: stored bytes, or symbols of two prefix codes that stand for bytes and for
repetitions of what is already there.
-/
namespace PluginGuard.Inflate

structure Bits where
  rest : List UInt8
  /-- How many bits of the first byte are used up. -/
  used : Nat

abbrev Reading := StateT Bits Option

def refuse {α : Type} : Reading α := fun _ => none

def bit : Reading Bool := fun s =>
  match s.rest with
  | [] => none
  | b :: rest =>
    let value := (b >>> UInt8.ofNat s.used) &&& 1 == 1
    some (value, if s.used = 7 then ⟨rest, 0⟩ else ⟨b :: rest, s.used + 1⟩)

def number : Nat → Reading Nat
  | 0 => return 0
  | n + 1 => do
    let low ← bit
    let high ← number n
    return (if low then 1 else 0) + 2 * high

def alignToByte : Reading Unit := fun s =>
  some ((), if s.used = 0 then s else ⟨s.rest.tail, 0⟩)

/-! ### Prefix codes -/

inductive Code
  | empty
  | symbol (value : Nat)
  | branch (zero one : Code)

namespace Code

/-- Puts a symbol at the end of a path; the path must be free. -/
def insert (value : Nat) : List Bool → Code → Option Code
  | [], .empty => some (.symbol value)
  | b :: path, .empty =>
    (insert value path .empty).map fun c => if b then .branch .empty c else .branch c .empty
  | b :: path, .branch zero one =>
    if b then (insert value path one).map fun c => .branch zero c
    else (insert value path zero).map fun c => .branch c one
  | _, _ => none

def read : Code → Reading Nat
  | .empty => refuse
  | .symbol value => return value
  | .branch zero one => do
    if ← bit then one.read else zero.read

def path (length n : Nat) : List Bool := ((List.range length).map n.testBit).reverse

def longest : Nat := 15

def ordered (lengths : List Nat) : List (Nat × Nat) :=
  (List.range' 1 longest).flatMap fun l =>
    lengths.zipIdx.filterMap fun (l', value) => if l' = l then some (value, l) else none

def taken (codes : List (Nat × Nat)) : Nat :=
  codes.foldl (fun n e => n + 1 <<< (longest - e.2)) 0

/-- A code leaves no path without a symbol, save that a lone symbol has a path of one. -/
def isWhole (codes : List (Nat × Nat)) : Bool :=
  taken codes = 1 <<< longest ||
    match codes with
    | [] => true
    | [(_, length)] => length = 1
    | _ => false

/-- Codes of one length count up; from one length to the next they double. -/
def build (lengths : List Nat) : Option Code :=
  let codes := ordered lengths
  let step := fun (st : Code × Nat × Nat) (e : Nat × Nat) => do
    let (code, next, length) := st
    let n := next <<< (e.2 - length)
    let code ← code.insert e.1 (path e.2 n)
    if n < 1 <<< e.2 then some (code, n + 1, e.2) else none
  if !isWhole codes then none
  else (codes.foldlM step (.empty, 0, 0)).map (·.1)

end Code

/-! ### Symbols -/

/-- The least value of each range of lengths and how many bits say where in it. -/
def lengthRanges : Array (Nat × Nat) := #[
  (3, 0), (4, 0), (5, 0), (6, 0), (7, 0), (8, 0), (9, 0), (10, 0), (11, 1), (13, 1), (15, 1),
  (17, 1), (19, 2), (23, 2), (27, 2), (31, 2), (35, 3), (43, 3), (51, 3), (59, 3), (67, 4),
  (83, 4), (99, 4), (115, 4), (131, 5), (163, 5), (195, 5), (227, 5), (258, 0)]

def distanceRanges : Array (Nat × Nat) := #[
  (1, 0), (2, 0), (3, 0), (4, 0), (5, 1), (7, 1), (9, 2), (13, 2), (17, 3), (25, 3), (33, 4),
  (49, 4), (65, 5), (97, 5), (129, 6), (193, 6), (257, 7), (385, 7), (513, 8), (769, 8),
  (1025, 9), (1537, 9), (2049, 10), (3073, 10), (4097, 11), (6145, 11), (8193, 12), (12289, 12),
  (16385, 13), (24577, 13)]

def inRange (ranges : Array (Nat × Nat)) (index : Nat) : Reading Nat :=
  match ranges[index]? with
  | some (least, extra) => do return least + (← number extra)
  | none => refuse

/-- What stands some bytes back; before the start there are zeros. -/
def back (distance : Nat) (out : Array UInt8) : UInt8 :=
  if distance ≤ out.size then out.getD (out.size - distance) 0 else 0

def repeated (distance : Nat) : Nat → Array UInt8 → Array UInt8
  | 0, out => out
  | n + 1, out => repeated distance n (out.push (back distance out))

structure Codes where
  literal : Code
  distance : Code

def endOfBlock : Nat := 256

def symbols (codes : Codes) (limit : Nat) : Nat → Array UInt8 → Reading (Array UInt8)
  | 0, _ => refuse
  | fuel + 1, out => do
    if limit < out.size then return out
    let s ← codes.literal.read
    if s < endOfBlock then symbols codes limit fuel (out.push (UInt8.ofNat s))
    else if s = endOfBlock then return out
    else
      let length ← inRange lengthRanges (s - 257)
      let distance ← inRange distanceRanges (← codes.distance.read)
      symbols codes limit fuel (repeated distance length out)

/-! ### Blocks -/

def fixedCodes : Option Codes := do
  let literal ← Code.build (List.replicate 144 8 ++ List.replicate 112 9 ++ List.replicate 24 7 ++
    List.replicate 8 8)
  let distance ← Code.build (List.replicate 32 5)
  return ⟨literal, distance⟩

def lengthOrder : List Nat := [16, 17, 18, 0, 8, 7, 9, 6, 10, 5, 11, 4, 12, 3, 13, 2, 14, 1, 15]

/-- Code lengths, newest first; three of the symbols repeat a length. -/
def codeLengths (code : Code) (total : Nat) : Nat → List Nat → Reading (List Nat)
  | 0, _ => refuse
  | fuel + 1, acc => do
    if total < acc.length then refuse
    else if acc.length = total then return acc
    else
      let s ← code.read
      if s < 16 then codeLengths code total fuel (s :: acc)
      else if s = 16 then
        match acc with
        | [] => refuse
        | last :: _ =>
          let n ← number 2
          codeLengths code total fuel (List.replicate (3 + n) last ++ acc)
      else if s = 17 then
        let n ← number 3
        codeLengths code total fuel (List.replicate (3 + n) 0 ++ acc)
      else
        let n ← number 7
        codeLengths code total fuel (List.replicate (11 + n) 0 ++ acc)

def orRefuse {α : Type} (o : Option α) : Reading α :=
  match o with
  | some a => return a
  | none => refuse

def mostLiterals : Nat := 286
def mostDistances : Nat := 30

def givenCodes : Reading Codes := do
  let literals := (← number 5) + 257
  let distances := (← number 5) + 1
  let count := (← number 4) + 4
  if mostLiterals < literals || mostDistances < distances then refuse
  let given ← (lengthOrder.take count).mapM fun place => do return (place, ← number 3)
  let lengths := (List.range 19).map fun i => ((given.find? (·.1 == i)).map (·.2)).getD 0
  let code ← orRefuse (Code.build lengths)
  let total := literals + distances
  let all := (← codeLengths code total (total + 1) []).reverse
  let literal ← orRefuse (Code.build (all.take literals))
  let distance ← orRefuse (Code.build (all.drop literals))
  return ⟨literal, distance⟩

def storedBlock (out : Array UInt8) : Reading (Array UInt8) := do
  alignToByte
  let length ← number 16
  let check ← number 16
  if length + check ≠ 65535 then refuse
  else fun s =>
    let bytes := s.rest.take length
    if bytes.length = length then some (out ++ bytes.toArray, ⟨s.rest.drop length, 0⟩) else none

def block (limit : Nat) (out : Array UInt8) : Reading (Array UInt8) := do
  match ← number 2 with
  | 0 => storedBlock out
  | 1 => do symbolBlock (← orRefuse fixedCodes)
  | 2 => do symbolBlock (← givenCodes)
  | _ => refuse
where
  symbolBlock (codes : Codes) : Reading (Array UInt8) := fun s =>
    symbols codes limit (8 * s.rest.length + 1) out s

def blocks (limit : Nat) : Nat → Array UInt8 → Reading (Array UInt8)
  | 0, _ => refuse
  | fuel + 1, out => do
    let last ← bit
    let out ← block limit out
    if last || limit < out.size then return out else blocks limit fuel out

def inflate (limit : Nat) (bytes : List UInt8) : Option (List UInt8) :=
  ((blocks limit (bytes.length + 1) #[]).run ⟨bytes, 0⟩).map fun (out, _) => out.toList

end PluginGuard.Inflate
