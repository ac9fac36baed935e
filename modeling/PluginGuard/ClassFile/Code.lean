import PluginGuard.ClassFile.Opcode
import PluginGuard.ClassFile.Pool

/-!
# Method bodies

A body is a list of instructions with an exception table and attributes. Every
reference into the body, in a branch, a handler, a line number, a variable range
or a stack frame, is the index of an instruction and not a byte offset.
-/
namespace PluginGuard.ClassFile

inductive Operand
  | none
  | byte (value : Int8)
  | short (value : Int16)
  | constant (index : UInt16)
  | slot (index : UInt16) (wide : Bool)
  | iinc (index : UInt16) (delta : Int16) (wide : Bool)
  | branch (target : Nat)
  | table (otherwise : Nat) (low : Int32) (targets : List Nat)
  | lookup (otherwise : Nat) (pairs : List (Int32 × Nat))
  | invokeInterface (index : UInt16) (count : UInt8)
  | invokeDynamic (index : UInt16)
  | newArray (kind : UInt8)
  | multiNewArray (index : UInt16) (dimensions : UInt8)
  deriving DecidableEq, Repr

structure Instruction where
  opcode : UInt8
  operand : Operand
  deriving DecidableEq, Repr

structure Handler where
  start : Nat
  /-- One past the last protected instruction. -/
  stop : Nat
  entry : Nat
  catchType : UInt16
  deriving DecidableEq, Repr

structure LineEntry where
  at_ : Nat
  line : UInt16
  deriving DecidableEq, Repr

structure LocalVariable where
  start : Nat
  /-- One past the last instruction of the range. -/
  stop : Nat
  name : UInt16
  descriptor : UInt16
  slot : UInt16
  deriving DecidableEq, Repr

inductive Verification
  | top
  | int
  | float
  | double
  | long
  | null
  | uninitializedThis
  | object (index : UInt16)
  /-- A value made by the instruction at this index and not yet initialised. -/
  | uninitialized (origin : Nat)
  deriving DecidableEq, Repr

inductive FrameKind
  | same
  | sameWithStack (item : Verification)
  | chop (count : UInt8)
  | append (locals : List Verification)
  | full (locals stack : List Verification)
  deriving DecidableEq, Repr

structure Frame where
  target : Nat
  kind : FrameKind
  deriving DecidableEq, Repr

inductive CodeAttribute
  | lines (name : UInt16) (entries : List LineEntry)
  | locals (name : UInt16) (entries : List LocalVariable)
  | stackMap (name : UInt16) (frames : List Frame)
  | raw (name : UInt16) (info : List UInt8)
  deriving DecidableEq, Repr

structure Code where
  maxStack : UInt16
  maxLocals : UInt16
  instructions : List Instruction
  handlers : List Handler
  attributes : List CodeAttribute
  deriving DecidableEq, Repr

namespace Operand

/-- The instructions that control can go to, the default of a switch first. -/
def targets : Operand → List Nat
  | .branch t => [t]
  | .table d _ ts => d :: ts
  | .lookup d ps => d :: ps.map (·.2)
  | _ => []

def mapTargets (f : Nat → Nat) : Operand → Operand
  | .branch t => .branch (f t)
  | .table d low ts => .table (f d) low (ts.map f)
  | .lookup d ps => .lookup (f d) (ps.map fun (k, t) => (k, f t))
  | o => o

def constant? : Operand → Option UInt16
  | .constant i | .invokeInterface i _ | .invokeDynamic i | .multiNewArray i _ => some i
  | _ => Option.none

end Operand

namespace Instruction

def simple (opcode : UInt8) : Instruction := ⟨opcode, .none⟩

def withConstant (opcode : UInt8) (index : UInt16) : Instruction := ⟨opcode, .constant index⟩

def invokeStatic (method : UInt16) : Instruction := withConstant Opcode.invokeStatic method

def loadConstant (index : UInt16) : Instruction :=
  withConstant (if index.toNat ≤ 255 then Opcode.ldc else Opcode.ldcWide) index

def targets (i : Instruction) : List Nat := i.operand.targets

def mapTargets (f : Nat → Nat) (i : Instruction) : Instruction :=
  { i with operand := i.operand.mapTargets f }

def constant? (i : Instruction) : Option UInt16 := i.operand.constant?

def member? (pool : Pool) (i : Instruction) : Option MemberRef :=
  if Opcode.isMemberAccess i.opcode then i.constant?.bind fun k => (pool.member k).toOption
  else none

end Instruction

def FrameKind.types : FrameKind → List Verification
  | .same | .chop _ => []
  | .sameWithStack t => [t]
  | .append ls => ls
  | .full ls ss => ls ++ ss

namespace Code

def ofInstructions (maxStack maxLocals : UInt16) (instructions : List Instruction) : Code :=
  ⟨maxStack, maxLocals, instructions, [], []⟩

def size (c : Code) : Nat := c.instructions.length

def isEmpty (c : Code) : Bool := c.instructions.isEmpty

end Code

end PluginGuard.ClassFile
