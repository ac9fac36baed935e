import PluginGuard.ClassFile.Constant

/-!
# The constant pool

Slots are numbered from zero; slot zero and the slot behind an eight-byte
constant are empty. Interning returns the first slot that holds an equal
constant and appends one otherwise, so what a slot holds never changes.
-/
namespace PluginGuard.ClassFile

structure MemberRef where
  owner : String
  name : String
  descriptor : String
  deriving DecidableEq, Repr

def MemberRef.display (m : MemberRef) : String := s!"{m.owner}.{m.name}{m.descriptor}"

structure Pool where
  slots : Array (Option Constant)
  deriving DecidableEq

namespace Pool

def empty : Pool := ⟨#[none]⟩

def size (p : Pool) : Nat := p.slots.size

/-- Only slot zero exists. -/
def isEmpty (p : Pool) : Bool := p.size ≤ 1

def get? (p : Pool) (index : UInt16) : Option Constant := (p.slots[index.toNat]?).join

def entries (p : Pool) : List (Nat × Constant) :=
  p.slots.toList.zipIdx.filterMap fun (k, i) => k.map fun k => (i, k)

def readInto : Nat → Array (Option Constant) → Reader Pool
  | 0, slots, c => .ok (⟨slots⟩, c)
  | n + 1, slots, c =>
    match Constant.read slots.size c with
    | .error e => .error e
    | .ok (k, c') =>
      if k.isWide then
        match n with
        | 0 => .error (.malformed .wideConstantAtEnd)
        | m + 1 => readInto m ((slots.push (some k)).push none) c'
      else readInto n (slots.push (some k)) c'

def read : Reader Pool := do
  let count ← Reader.half
  if count.toNat = 0 then Reader.fail (.malformed .poolCountZero)
  else readInto (count.toNat - 1) #[none]

def write (p : Pool) : Except Fault (List UInt8) := do
  if p.size < 65536 then
    let bodies ← (p.slots.toList.filterMap id).mapM Constant.write
    return Put.lowHalf p.size ++ bodies.flatten
  else throw .poolFull

/-! ### Names by index -/

def utf8 (p : Pool) (index : UInt16) : Except Fault String :=
  match p.get? index with
  | some (.utf8 _ text) => .ok text
  | _ => .error (.badConstant index .utf8)

def className (p : Pool) (index : UInt16) : Except Fault String :=
  match p.get? index with
  | some (.classRef name) => p.utf8 name
  | _ => .error (.badConstant index .classRef)

def string (p : Pool) (index : UInt16) : Except Fault String :=
  match p.get? index with
  | some (.string text) => p.utf8 text
  | _ => .error (.badConstant index .string)

def nameAndType (p : Pool) (index : UInt16) : Except Fault (String × String) :=
  match p.get? index with
  | some (.nameAndType name descriptor) => do
    let n ← p.utf8 name
    return (n, ← p.utf8 descriptor)
  | _ => .error (.badConstant index .nameAndType)

def member (p : Pool) (index : UInt16) : Except Fault MemberRef :=
  match p.get? index with
  | some (.member _ owner nameAndType) => do
    let (name, descriptor) ← p.nameAndType nameAndType
    return ⟨← p.className owner, name, descriptor⟩
  | _ => .error (.badConstant index .member)

def strings (p : Pool) : List String :=
  p.entries.filterMap fun
    | (_, .string text) => (p.utf8 text).toOption
    | _ => none

/-! ### Interning -/

def find? (p : Pool) (k : Constant) : Option UInt16 :=
  (p.slots.findIdx? (· == some k)).map UInt16.ofNat

def push (p : Pool) (k : Constant) : Pool :=
  let slots := p.slots.push (some k)
  ⟨if k.isWide then slots.push none else slots⟩

/-- Changes made before a step fails stay in the pool. -/
abbrev Interning (α : Type) := ExceptT Fault (StateM Pool) α

def intern (k : Constant) : Interning UInt16 := fun p =>
  match p.find? k with
  | some index => (.ok index, p)
  | none =>
    if p.size + k.slots > 65535 then (.error .poolFull, p)
    else (.ok (UInt16.ofNat p.size), p.push k)

def internUtf8 (text : String) : Interning UInt16 := intern (.ofText text)

def internClass (name : String) : Interning UInt16 := do
  intern (.classRef (← internUtf8 name))

def internString (text : String) : Interning UInt16 := do
  intern (.string (← internUtf8 text))

def internNameAndType (name descriptor : String) : Interning UInt16 := do
  let n ← internUtf8 name
  let d ← internUtf8 descriptor
  intern (.nameAndType n d)

def internMember (kind : MemberKind) (m : MemberRef) : Interning UInt16 := do
  let owner ← internClass m.owner
  let nameAndType ← internNameAndType m.name m.descriptor
  intern (.member kind owner nameAndType)

end Pool

end PluginGuard.ClassFile
