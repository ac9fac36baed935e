import PluginGuard.ClassFile.Code

/-!
# Reading method bodies

## Instruction boundaries

The correspondence between byte offsets and instruction indices of one body. The
offset behind the last instruction is a boundary where a range may end, but no
instruction starts there.
-/
namespace PluginGuard.ClassFile

structure Boundaries where
  indexAt : Array (Option Nat)
  count : Nat

namespace Boundaries

def ofStarts (starts : List Nat) (length : Nat) : Boundaries :=
  let empty : Array (Option Nat) := Array.replicate (length + 1) none
  let filled := starts.zipIdx.foldl (fun a (pc, i) => a.setIfInBounds pc (some i)) empty
  ⟨filled.setIfInBounds length (some starts.length), starts.length⟩

def startAt (b : Boundaries) (pc : Nat) : Except Fault Nat :=
  match (b.indexAt[pc]?).join with
  | some i => if i < b.count then .ok i else .error (.malformed (.offsetInside pc))
  | none => .error (.malformed (.offsetInside pc))

def endAt (b : Boundaries) (pc : Nat) : Except Fault Nat :=
  match (b.indexAt[pc]?).join with
  | some i => .ok i
  | none => .error (.malformed (.endInside pc))

end Boundaries

end PluginGuard.ClassFile

/-!
## Instructions

Instructions are read first with byte offsets as their targets. Once all
boundaries are known the offsets in instructions, handlers, line numbers,
variable ranges and frames become instruction indices.
-/
namespace PluginGuard.ClassFile

/-- Zeros between a switch opcode at this offset and its aligned operands. -/
def switchPadding (pc : Nat) : Nat := (4 - (pc + 1) % 4) % 4

namespace Instruction

open Reader

def offsetFrom (length pc : Nat) (delta : Int) : Except Fault Nat :=
  let t := (pc : Int) + delta
  if t < 0 ∨ (length : Int) ≤ t then .error (.malformed (.branchOutside pc t))
  else .ok t.toNat

def shortTarget (length pc : Nat) : Reader Nat := do
  lift (offsetFrom length pc (← signedHalf).toInt)

def longTarget (length pc : Nat) : Reader Nat := do
  lift (offsetFrom length pc (← signedWord).toInt)

def readTable (length pc : Nat) : Reader Operand := do
  skip (switchPadding pc)
  let otherwise ← longTarget length pc
  let low ← signedWord
  let high ← signedWord
  if high.toInt < low.toInt then fail (.malformed (.switchBounds pc))
  else
    let count := (high.toInt - low.toInt + 1).toNat
    let c ← get
    if c.has (count * 4) then
      return .table otherwise low (← repeated count (longTarget length pc))
    else fail (.truncated c.position (count * 4))

def readPair (length pc : Nat) : Reader (Int32 × Nat) := do
  let key ← signedWord
  return (key, ← longTarget length pc)

def readLookup (length pc : Nat) : Reader Operand := do
  skip (switchPadding pc)
  let otherwise ← longTarget length pc
  let count := (← signedWord).toInt
  let c ← get
  if count < 0 ∨ c.has (count.toNat * 8) = false then fail (.malformed (.pairCount pc count))
  else return .lookup otherwise (← repeated count.toNat (readPair length pc))

def readOperand (length pc : Nat) : Layout → Reader Operand
  | .none => return .none
  | .byte => return .byte (← signedByte)
  | .short => return .short (← signedHalf)
  | .constant8 => return .constant (← byte).toUInt16
  | .constant16 => return .constant (← half)
  | .slot => return .slot (← byte).toUInt16 false
  | .iinc => do
    let index ← byte
    return .iinc index.toUInt16 (← signedByte).toInt16 false
  | .branch16 => return .branch (← shortTarget length pc)
  | .branch32 => return .branch (← longTarget length pc)
  | .tableSwitch => readTable length pc
  | .lookupSwitch => readLookup length pc
  | .invokeInterface => do
    let index ← half
    let count ← byte
    skip 1
    return .invokeInterface index count
  | .invokeDynamic => do
    let index ← half
    skip 2
    return .invokeDynamic index
  | .newArray => return .newArray (← byte)
  | .multiNewArray => do
    let index ← half
    return .multiNewArray index (← byte)

def readWide (pc : Nat) : Reader Instruction := do
  let opcode ← byte
  if opcode == Opcode.iinc then
    let index ← half
    return ⟨opcode, .iinc index (← signedHalf) true⟩
  else if Opcode.isWidenableSlot opcode then
    return ⟨opcode, .slot (← half) true⟩
  else fail (.malformed (.wideOpcode opcode pc))

def read (length : Nat) : Reader Instruction := do
  let pc := (← get).position
  let opcode ← byte
  if opcode == Opcode.wide then readWide pc
  else match Opcode.layout opcode with
    | some layout => return ⟨opcode, ← readOperand length pc layout⟩
    | none => fail (.unknownOpcode opcode pc)

/-- Each instruction takes at least one byte, so the length of the body bounds
their number. -/
def readAllInto (length : Nat) :
    Nat → List (Nat × Instruction) → Cursor → Except Fault (List (Nat × Instruction))
  | fuel, acc, c =>
    if c.atEnd then .ok acc.reverse
    else match fuel with
      | 0 => .ok acc.reverse
      | n + 1 =>
        match read length c with
        | .ok (i, c') => readAllInto length n ((c.position, i) :: acc) c'
        | .error e => .error e

def readAll (bytes : List UInt8) : Except Fault (List (Nat × Instruction)) :=
  let length := bytes.length
  readAllInto length length [] (Cursor.start bytes)

end Instruction

/-- Every target is moved; of several that cannot be, the last is reported. -/
def Instruction.relocate (move : Nat → Except Fault Nat) (i : Instruction) :
    Except Fault Instruction :=
  let failures := i.targets.filterMap fun t =>
    match move t with
    | .ok _ => none
    | .error e => some e
  match failures.getLast? with
  | some e => .error e
  | none => .ok (i.mapTargets fun t => (move t).toOption.getD t)

open Reader

def Boundaries.readStart (b : Boundaries) : Reader Nat := do
  lift (b.startAt (← half).toNat)

def Handler.read (b : Boundaries) : Reader Handler := do
  let start ← b.readStart
  let stop ← lift (b.endAt (← half).toNat)
  let entry ← b.readStart
  return ⟨start, stop, entry, ← half⟩

def LineEntry.read (b : Boundaries) : Reader LineEntry := do
  let at_ ← b.readStart
  return ⟨at_, ← half⟩

def LocalVariable.read (b : Boundaries) : Reader LocalVariable := do
  let pc ← half
  let length ← half
  let start ← lift (b.endAt pc.toNat)
  let stop ← lift (b.endAt (pc.toNat + length.toNat))
  let name ← half
  let descriptor ← half
  return ⟨start, stop, name, descriptor, ← half⟩

def Verification.read (b : Boundaries) : Reader Verification := do
  match (← byte) with
  | 0 => return .top
  | 1 => return .int
  | 2 => return .float
  | 3 => return .double
  | 4 => return .long
  | 5 => return .null
  | 6 => return .uninitializedThis
  | 7 => return .object (← half)
  | 8 => return .uninitialized (← b.readStart)
  | tag => fail (.malformed (.verificationTag tag))

def FrameKind.read (b : Boundaries) : Reader (Nat × FrameKind) := do
  let type ← byte
  let n := type.toNat
  if n ≤ 63 then return (n, .same)
  else if n ≤ 127 then return (n - 64, .sameWithStack (← Verification.read b))
  else if n < 247 then fail (.malformed (.reservedFrame type))
  else
    let delta := (← half).toNat
    if n = 247 then return (delta, .sameWithStack (← Verification.read b))
    else if n ≤ 250 then return (delta, .chop (251 - type))
    else if n = 251 then return (delta, .same)
    else if n ≤ 254 then return (delta, .append (← repeated (n - 251) (Verification.read b)))
    else
      let locals ← counted (Verification.read b)
      return (delta, .full locals (← counted (Verification.read b)))

/-- Frames follow one another at distances of at least one byte. -/
def Frame.readInto (b : Boundaries) : Nat → Option Nat → List Frame → Reader (List Frame)
  | 0, _, acc, c => .ok (acc.reverse, c)
  | n + 1, previous, acc, c =>
    match FrameKind.read b c with
    | .error e => .error e
    | .ok ((delta, kind), c') =>
      let pc := match previous with
        | none => delta
        | some p => p + delta + 1
      match b.startAt pc with
      | .error e => .error e
      | .ok target => Frame.readInto b n (some pc) (⟨target, kind⟩ :: acc) c'

def Frame.readAll (b : Boundaries) : Reader (List Frame) := do
  let n ← half
  Frame.readInto b n.toNat none []

/-- Bytes behind the last entry of a known attribute are ignored. -/
def runOn {α : Type} (r : Reader α) (bytes : List UInt8) : Except Fault α :=
  (r (Cursor.start bytes)).map (·.1)

/-- A name that does not resolve names no known attribute. -/
def CodeAttribute.ofInfo (pool : Pool) (b : Boundaries) (name : UInt16) (info : List UInt8) :
    Except Fault CodeAttribute :=
  match ((pool.utf8 name).toOption.getD "") with
  | "LineNumberTable" => return .lines name (← runOn (counted (LineEntry.read b)) info)
  | "LocalVariableTable" | "LocalVariableTypeTable" =>
    return .locals name (← runOn (counted (LocalVariable.read b)) info)
  | "StackMapTable" => return .stackMap name (← runOn (Frame.readAll b) info)
  | _ => return .raw name info

def CodeAttribute.read (pool : Pool) (b : Boundaries) : Reader CodeAttribute := do
  let name ← half
  let length ← word
  let info ← bytes length.toNat
  lift (ofInfo pool b name info)

namespace Code

def maxLength : Nat := 65535

def read (pool : Pool) : Reader Code := do
  let maxStack ← half
  let maxLocals ← half
  let length := (← word).toNat
  if length = 0 ∨ maxLength < length then fail (.malformed (.codeLength length))
  else
    let placed ← lift (Instruction.readAll (← bytes length))
    let b := Boundaries.ofStarts (placed.map (·.1)) length
    let instructions ← lift (placed.mapM fun (_, i) => i.relocate b.startAt)
    let handlers ← counted (Handler.read b)
    let attributes ← counted (CodeAttribute.read pool b)
    if (← get).atEnd then return ⟨maxStack, maxLocals, instructions, handlers, attributes⟩
    else fail (.malformed .trailingCode)

def decode (info : List UInt8) (pool : Pool) : Except Fault Code := runOn (read pool) info

end Code

end PluginGuard.ClassFile
