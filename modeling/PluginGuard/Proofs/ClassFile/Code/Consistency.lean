import PluginGuard.Proofs.ClassFile.Code.Distances

/-!
# Consistent layouts

The passes over a body end, at the latest with the one after as many as it has instructions. The
layout that comes out belongs together: its offsets are those of its own long forms, only jumps
have one, and every instruction can be written under it.
-/
namespace PluginGuard.ClassFile

/-! ### Opcodes and operands -/

def Operand.layouts : Operand → List Layout
  | .none => [.none]
  | .byte _ => [.byte]
  | .short _ => [.short]
  | .constant _ => [.constant8, .constant16]
  | .slot .. => [.slot]
  | .iinc .. => [.iinc]
  | .branch _ => [.branch16, .branch32]
  | .table .. => [.tableSwitch]
  | .lookup .. => [.lookupSwitch]
  | .invokeInterface .. => [.invokeInterface]
  | .invokeDynamic _ => [.invokeDynamic]
  | .newArray _ => [.newArray]
  | .multiNewArray .. => [.multiNewArray]

/-- The operand is of a kind that the opcode takes, whatever its numbers. -/
def Instruction.Suited (i : Instruction) : Prop :=
  ∃ layout ∈ i.operand.layouts, Opcode.layout i.opcode = some layout

theorem Operand.Fits.mem_layouts {layout : Layout} {o : Operand} (h : o.Fits layout) :
    layout ∈ o.layouts := by
  revert h
  fun_cases Operand.Fits layout o with
  | case16 => exact False.elim
  | _ => simp [layouts]

theorem Instruction.Conforms.suited {i : Instruction} (h : i.Conforms) : i.Suited := by
  obtain ⟨layout, hlayout, hfits⟩ := h
  exact ⟨layout, hfits.mem_layouts, hlayout⟩

theorem Opcode.eq_goto_or_jsr {op : UInt8}
    (hlayout : layout op = some .branch16 ∨ layout op = some .branch32)
    (hplain : isConditionalBranch op = false) (hshort : isLongBranch op = false) :
    op = goto ∨ op = jsr := by
  have hall : ∀ op, layout op = some .branch16 ∨ layout op = some .branch32 →
      isConditionalBranch op = false → isLongBranch op = false → op = goto ∨ op = jsr := by
    refine forall_byte ?_
    decide +kernel
  exact hall op hlayout hplain hshort

theorem Instruction.Widenable.eq_goto_or_jsr {i : Instruction} (h : i.Widenable)
    (suited : i.Suited) : i.opcode = Opcode.goto ∨ i.opcode = Opcode.jsr := by
  obtain ⟨⟨t, ht⟩, hplain, hshort⟩ := h
  obtain ⟨layout, hmem, hlayout⟩ := suited
  simp only [ht, Operand.layouts, List.mem_cons, List.not_mem_nil, or_false] at hmem
  obtain rfl | rfl := hmem
  · exact Opcode.eq_goto_or_jsr (.inl hlayout) hplain hshort
  · exact Opcode.eq_goto_or_jsr (.inr hlayout) hplain hshort

/-! ### What a layout is to its instructions -/

/-- The offsets are the sums of the sizes that the instructions have in the forms chosen, and in
these forms every instruction can be written. -/
structure BodyLayout.Consistent (l : BodyLayout) (is : List Instruction) : Prop where
  length_widened : l.widened.length = is.length
  size_offsets : l.offsets.size = is.length + 1
  start : l.offset 0 = 0
  next : ∀ (k : Nat) (i : Instruction) (b : Bool), is[k]? = some i → l.widened[k]? = some b →
    l.offset (k + 1) = l.offset k + i.size (l.offset k) b
  small : l.offset is.length ≤ 65535
  jumps : ∀ (k : Nat) (i : Instruction), is[k]? = some i → l.widened[k]? = some true →
    i.opcode = Opcode.goto ∨ i.opcode = Opcode.jsr
  targets : ∀ i ∈ is, ∀ t ∈ i.targets, t < is.length
  near : ∀ (k : Nat) (i : Instruction) (b : Bool), is[k]? = some i → l.widened[k]? = some b →
    i.Near l k b
  emits : ∀ (k : Nat) (i : Instruction) (b : Bool), is[k]? = some i → l.widened[k]? = some b →
    ∃ bytes, i.emit k l b = .ok bytes

theorem length_placesFrom (pc : Nat) (w : Widening) : (placesFrom pc w).length = w.length + 1 := by
  induction w generalizing pc with
  | nil => rfl
  | cons x w ih => rw [placesFrom, List.length_cons, ih, List.length_cons]

namespace Code

open Instruction

variable {c : Code} {l : BodyLayout}

theorem consistent_of_layout (suited : ∀ i ∈ c.instructions, i.Suited) (h : c.layout = .ok l) :
    l.Consistent c.instructions where
  length_widened := (settled_of_layout h).widens.length_eq
  size_offsets := by
    have settled := settled_of_layout h
    rw [settled.offsets_eq, ← Array.length_toList, toList_offsetsOf, length_placesFrom,
      List.length_zip, settled.widens.length_eq, Nat.min_self]
  start := (settled_of_layout h).runs.1
  next := by
    intro k i b hi hb
    have hzip : (c.instructions.zip l.widened)[k]? = some (i, b) :=
      List.getElem?_zip_eq_some.mpr ⟨hi, hb⟩
    have hstep := (settled_of_layout h).runs.2.step hzip
    rwa [Nat.zero_add] at hstep
  small := (settled_of_layout h).small
  jumps := by
    intro k i hi hb
    have hwidenable := (settled_of_layout h).widens.widenable k i hi hb
    exact hwidenable.eq_goto_or_jsr (suited i (List.mem_of_getElem? hi))
  targets := targets_of_layout h
  near := fun _ _ _ hi hb => near_of_layout h hi hb
  emits := fun _ _ _ hi hb => exists_emit (near_of_layout h hi hb)

/-- The passes over a body end after one more than it has instructions at the latest, and what they
come to is its layout. If that is no fault, it is consistent. -/
theorem settles_layout (nonempty : 0 < c.size) (suited : ∀ i ∈ c.instructions, i.Suited) :
    (∃ passes ≤ c.size + 1, ∀ k result,
      Settles c.instructions (c.instructions.map fun _ => false) k result ↔
        k = passes ∧ result = c.layout) ∧
      ∀ l, c.layout = .ok l → l.Consistent c.instructions := by
  refine ⟨?_, fun l h => consistent_of_layout suited h⟩
  obtain ⟨passes, hle, hsettles⟩ := exists_settles_layout nonempty
  refine ⟨passes, hle, fun k result => ⟨hsettles.unique, ?_⟩⟩
  rintro ⟨rfl, rfl⟩
  exact hsettles

theorem pass_overSwitch_spare (long : Bool) :
    passOver (overSwitch 8186).instructions (jumpForm long) = .ok (jumpForm true) := by
  have wf : (overSwitch 8186).WellFormed .empty := wellFormed_overSwitch (by decide) (by decide)
  refine (pass_eq_ok rfl).mpr ⟨rfl, fun k i b b' hi hb hb' => ?_⟩
  refine ⟨wf.targets i (List.mem_of_getElem? hi), ?_⟩
  cases k with
  | zero =>
    cases hi
    cases hb
    cases hb'
    cases long with
    | true => exact .inl ⟨near_widened _ _ _, rfl⟩
    | false =>
      refine .inr ⟨fun hnear => ?_, ⟨⟨5, rfl⟩, rfl, rfl⟩, rfl⟩
      have hreach := hnear 5 rfl rfl
      simp [BodyLayout.offset, offsets_overSwitch, fitsSignedHalf] at hreach
  | succ k =>
    refine .inl ⟨fun t ht _ => ?_, Option.some.inj (hb'.symm.trans hb)⟩
    obtain ⟨rfl, ⟨hk, -⟩ | ⟨hk, -⟩⟩ := branch_overSwitch hi ht
    · cases hk
    · cases hk
      cases long <;> simp [BodyLayout.offset, offsets_overSwitch, fitsSignedHalf]

theorem settles_layout_overSwitch :
    0 < (overSwitch 8186).size ∧ (∀ i ∈ (overSwitch 8186).instructions, i.Suited) ∧
      (∀ k result, Settles (overSwitch 8186).instructions (jumpForm false) k result ↔
        k = 2 ∧ result = (overSwitch 8186).layout) ∧
      ∃ l, (overSwitch 8186).layout = .ok l ∧ l.widened = jumpForm true ∧
        l.Consistent (overSwitch 8186).instructions := by
  have wf : (overSwitch 8186).WellFormed .empty := wellFormed_overSwitch (by decide) (by decide)
  have suited : ∀ i ∈ (overSwitch 8186).instructions, i.Suited :=
    fun i hi => (wf.conforms i hi).suited
  obtain ⟨⟨passes, -, hsettles⟩, hconsistent⟩ := settles_layout wf.nonempty suited
  have htwice : Settles (overSwitch 8186).instructions (jumpForm false) 2
      (.ok (.under (overSwitch 8186).instructions (jumpForm true))) :=
    .again (small_overSwitch (by decide) false) (pass_overSwitch_spare false) (by decide)
      (.settled (small_overSwitch (by decide) true) (pass_overSwitch_spare true))
  obtain ⟨rfl, hlayout⟩ := (hsettles _ _).mp htwice
  exact ⟨wf.nonempty, suited, hsettles, _, hlayout.symm, rfl, hconsistent _ hlayout.symm⟩

end Code

end PluginGuard.ClassFile
