import PluginGuard.ClassFile.Code.Decode

/-!
# Laying out a body

Sizes and offsets of instructions. A jump whose offset does not fit two bytes
gets the long form, which moves what lies behind it, so the passes are repeated
until none asks for another long form.
-/
namespace PluginGuard.ClassFile

namespace Instruction

def fitsByte (i : UInt16) : Bool := i.toNat ≤ 255

def fitsSignedByte (d : Int16) : Bool := -128 ≤ d.toInt && d.toInt ≤ 127

def fitsSignedHalf (d : Int) : Bool := -32768 ≤ d && d ≤ 32767

def isLong (i : Instruction) (widened : Bool) : Bool := widened || Opcode.isLongBranch i.opcode

/-- Bytes taken at the offset `pc`, on which the padding of a switch depends. -/
def size (i : Instruction) (pc : Nat) (widened : Bool) : Nat :=
  match i.operand with
  | .none => 1
  | .byte _ | .newArray _ => 2
  | .short _ => 3
  | .constant index => if i.opcode == Opcode.ldc && fitsByte index then 2 else 3
  | .slot index wide => if wide || !fitsByte index then 4 else 2
  | .iinc index delta wide => if wide || !fitsByte index || !fitsSignedByte delta then 6 else 3
  | .branch _ => if i.isLong widened then 5 else 3
  | .table _ _ targets => 1 + switchPadding pc + 12 + 4 * targets.length
  | .lookup _ pairs => 1 + switchPadding pc + 8 + 8 * pairs.length
  | .invokeInterface .. | .invokeDynamic _ => 5
  | .multiNewArray .. => 4

end Instruction

abbrev Widening := List (Instruction × Bool)

def offsetsOf (w : Widening) : Array Nat :=
  let (starts, pc) := w.foldl
    (fun (st : Array Nat × Nat) (x : Instruction × Bool) =>
      (st.1.push st.2, st.2 + x.1.size st.2 x.2)) (#[], 0)
  starts.push pc

structure BodyLayout where
  widened : List Bool
  offsets : Array Nat

def BodyLayout.offset (l : BodyLayout) (index : Nat) : Nat := l.offsets.getD index 0

def needsLong (count : Nat) (offsets : Array Nat) (x : (Instruction × Bool) × Nat) :
    Except Fault Bool :=
  let ((insn, widened), i) := x
  if insn.targets.any (count ≤ ·) then .error (.malformed (.branchPastEnd i))
  else match insn.operand with
    | .branch t =>
      if insn.isLong widened then .ok widened
      else
        let delta := (offsets.getD t 0 : Int) - (offsets.getD i 0 : Int)
        if Instruction.fitsSignedHalf delta then .ok false
        else if Opcode.isConditionalBranch insn.opcode then .error (.branchOverflow i)
        else .ok true
    | _ => .ok widened

/-- Every pass but the last widens a further instruction, so one more pass than
there are instructions is enough. -/
def settle (instructions : List Instruction) : Nat → List Bool → Except Fault BodyLayout
  | passes, widened =>
    let w := instructions.zip widened
    let offsets := offsetsOf w
    let length := offsets.getD instructions.length 0
    if Code.maxLength < length then .error (.codeTooLarge length)
    else match w.zipIdx.mapM (needsLong instructions.length offsets) with
      | .error e => .error e
      | .ok widened' =>
        if widened' = widened then .ok ⟨widened, offsets⟩
        else match passes with
          | 0 => .ok ⟨widened, offsets⟩
          | n + 1 => settle instructions n widened'

def Code.layout (c : Code) : Except Fault BodyLayout :=
  if c.instructions.isEmpty then .error (.malformed .emptyBody)
  else settle c.instructions c.size (c.instructions.map fun _ => false)

end PluginGuard.ClassFile
