import PluginGuard.ClassFile.Code.Encode

/-!
# Well-formed bodies

What a body has to keep to for its bytes to stand for it: operands of the kind
their opcodes ask for, references that name instructions, ranges and frames in
order, and attributes under their own names. Beside it stands the body that
comes back when an encoded one is decoded, which differs by long forms only.
-/
namespace PluginGuard.ClassFile

/-! ### Instructions -/

def Operand.Fits : Layout → Operand → Prop
  | .none, .none => True
  | .byte, .byte _ => True
  | .short, .short _ => True
  | .constant8, .constant _ | .constant16, .constant _ => True
  | .slot, .slot .. => True
  | .iinc, .iinc .. => True
  | .branch16, .branch _ | .branch32, .branch _ => True
  | .tableSwitch, .table _ low targets =>
    0 < targets.length ∧ low.toInt + targets.length - 1 ≤ 2147483647
  | .lookupSwitch, .lookup .. => True
  | .invokeInterface, .invokeInterface .. => True
  | .invokeDynamic, .invokeDynamic _ => True
  | .newArray, .newArray _ => True
  | .multiNewArray, .multiNewArray .. => True
  | _, _ => False

def Instruction.Conforms (i : Instruction) : Prop :=
  ∃ layout, Opcode.layout i.opcode = some layout ∧ i.operand.Fits layout

/-! ### References -/

def Handler.Within (count : Nat) (h : Handler) : Prop :=
  h.start < count ∧ h.stop ≤ count ∧ h.entry < count

def LocalVariable.Within (count : Nat) (v : LocalVariable) : Prop :=
  v.start ≤ v.stop ∧ v.stop ≤ count

def Verification.Within (count : Nat) : Verification → Prop
  | .uninitialized origin => origin < count
  | _ => True

def FrameKind.Sized : FrameKind → Prop
  | .chop count => 1 ≤ count.toNat ∧ count.toNat ≤ 3
  | .append locals => 1 ≤ locals.length ∧ locals.length ≤ 3
  | _ => True

structure Frame.Within (count : Nat) (f : Frame) : Prop where
  target : f.target < count
  sized : f.kind.Sized
  types : ∀ t ∈ f.kind.types, t.Within count

def Frame.Ordered (fs : List Frame) : Prop := fs.Pairwise fun f g => f.target < g.target

def CodeAttribute.Within (count : Nat) : CodeAttribute → Prop
  | .lines _ entries => ∀ e ∈ entries, e.at_ < count
  | .locals _ entries => ∀ v ∈ entries, v.Within count
  | .stackMap _ frames => (∀ f ∈ frames, f.Within count) ∧ Frame.Ordered frames
  | .raw .. => True

def CodeAttribute.knownNames : List String :=
  ["LineNumberTable", "LocalVariableTable", "LocalVariableTypeTable", "StackMapTable"]

def CodeAttribute.Named (pool : Pool) : CodeAttribute → Prop
  | .lines name _ => pool.utf8 name = .ok "LineNumberTable"
  | .locals name _ =>
    pool.utf8 name = .ok "LocalVariableTable" ∨ pool.utf8 name = .ok "LocalVariableTypeTable"
  | .stackMap name _ => pool.utf8 name = .ok "StackMapTable"
  | .raw name _ => ∀ known ∈ knownNames, pool.utf8 name ≠ .ok known

/-! ### Bodies -/

structure Code.WellFormed (pool : Pool) (c : Code) : Prop where
  nonempty : 0 < c.size
  conforms : ∀ i ∈ c.instructions, i.Conforms
  targets : ∀ i ∈ c.instructions, ∀ t ∈ i.targets, t < c.size
  handlers : ∀ h ∈ c.handlers, h.Within c.size
  attributes : ∀ a ∈ c.attributes, a.Within c.size
  named : ∀ a ∈ c.attributes, a.Named pool

def Code.ContentsFit (c : Code) (l : BodyLayout) : Prop :=
  ∀ a ∈ c.attributes, ∀ info, a.info l = .ok info → info.length < 4294967296

/-! ### Long forms -/

/-- The instruction as it stands in the bytes: a constant, a variable or a jump
that its short form does not reach has the long one. -/
def Instruction.written (i : Instruction) (widened : Bool) : Instruction :=
  match i.operand with
  | .constant k =>
    if i.opcode == Opcode.ldc && !fitsByte k then ⟨Opcode.ldcWide, .constant k⟩ else i
  | .slot k wide => ⟨i.opcode, .slot k (wide || !fitsByte k)⟩
  | .iinc k d wide => ⟨i.opcode, .iinc k d (wide || !fitsByte k || !fitsSignedByte d)⟩
  | .branch t => ⟨if widened then longOpcode i.opcode else i.opcode, .branch t⟩
  | _ => i

/-- The body with the long forms that the layout chose, and otherwise as it is. -/
def Code.written (c : Code) (l : BodyLayout) : Code :=
  { c with
    instructions := (c.instructions.zip l.widened).map fun (i, widened) => i.written widened }

end PluginGuard.ClassFile
