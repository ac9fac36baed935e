import PluginGuard.Archive.Zip.Entry
import PluginGuard.Digest

/-!
# Extra fields

A header in the directory may carry further fields, each with its kind and its
length: numbers too large for the header, times, a name and a comment in Unicode,
and how data is sealed. Fields that break off early are overlooked, with what
they have said so far; fields that say what is not allowed spoil the directory.
-/
namespace PluginGuard.Zip.Extra

inductive Halt
  | brokenOff
  | refused
  deriving DecidableEq, Repr

structure Fields where
  entry : Entry
  rest : List UInt8

abbrev Reading := EStateM Halt Fields

def require (condition : Bool) : Reading Unit := if condition then return else throw .refused

def bytes (n : Nat) : Reading (List UInt8) := do
  let s ← get
  if s.rest.length < n then throw .brokenOff
  else
    set { s with rest := s.rest.drop n }
    return s.rest.take n

def skip (n : Nat) : Reading Unit := do let _ ← bytes n

def number (width : Nat) : Reading Nat := return numberOf (← bytes width)

def change (f : Entry → Entry) : Reading Unit :=
  modify fun s => { s with entry := f s.entry }

/-! ### Large numbers -/

/-- A field of this length holds every number, whether the header has room for it or not. -/
def allNumbers : Nat := 24

/-- Reads a number if it is here; gives how many bytes that took. -/
def large (length : Nat) (known : Entry → Nat) (put : Nat → Entry → Entry) : Reading Nat := do
  if allNumbers ≤ length || known (← get).entry == fullWord then
    change (put (← number 8))
    return 8
  else return 0

def largeNumbers (length : Nat) : Reading Unit := do
  let a ← large length (·.plainSize) fun n e => { e with plainSize := n }
  let b ← large length (·.size) fun n e => { e with size := n }
  let c ← large length (·.place) fun n e => { e with place := n }
  require (a + b + c ≤ length)
  skip (length - (a + b + c))

/-! ### Times -/

def fileTimes (length : Nat) : Reading Unit := do
  require (length == 32)
  skip 4
  require ((← number 2) == 1)
  require ((← number 2) == 24)
  skip 24

def bitCount (n : Nat) : Nat := (List.range 8).countP n.testBit

/-- The flags say which times follow; a field with room for one has that one. -/
def flaggedTimes (length : Nat) : Reading Unit := do
  let flags ← number 1
  require (length == 5 || length == 1 + 4 * bitCount flags)
  if flags.testBit 0 || length == 5 then skip 4
  if flags.testBit 1 && 5 < length then skip 4
  if flags.testBit 2 && 5 < length then skip 4

/-! ### Text -/

def unicode (length : Nat) (header : Entry → List UInt8)
    (put : List UInt8 → String → Entry → Entry) : Reading Unit := do
  skip 1
  let crc ← number 4
  require (5 ≤ length)
  let content ← bytes (length - 5)
  require ((Digest.Crc32.checksum (header (← get).entry)).toNat == crc)
  match Text.Utf8.decode? content with
  | some cs => change (put content (String.ofList cs))
  | none => throw .refused

def unicodeName (length : Nat) : Reading Unit :=
  unicode length (·.rawName) fun raw name e => { e with rawName := raw, name := name }

def unicodeComment (length : Nat) : Reading Unit :=
  unicode length (fun e => Text.Utf8.encode e.comment) fun _ text e => { e with comment := text }

/-! ### Sealed data -/

def sealing (length : Nat) : Reading Unit := do
  require (length == 7)
  let version ← number 2
  let vendor ← number 2
  let strength ← number 1
  let method ← number 2
  require (vendor == 0x4541)
  require (version == 1 || version == 2)
  require (1 ≤ strength && strength ≤ 3)
  change fun e => { e with method := .ofNumber method, sealed := true }

/-! ### All fields -/

def field : Reading Unit := do
  let kind ← number 2
  let length ← number 2
  match kind with
  | 0x0001 => largeNumbers length
  | 0x000a => fileTimes length
  | 0x5455 => flaggedTimes length
  | 0x6375 => unicodeComment length
  | 0x7075 => unicodeName length
  | 0x9901 => sealing length
  | _ => skip length

def fields : Nat → Reading Unit
  | 0 => return
  | n + 1 => do
    if (← get).rest.isEmpty then return
    else
      field
      fields n

def applied? (extra : List UInt8) (e : Entry) : Option Entry :=
  match (fields extra.length).run ⟨e, extra⟩ with
  | .ok _ s => some s.entry
  | .error .brokenOff s => some s.entry
  | .error .refused _ => none

end PluginGuard.Zip.Extra
