import PluginGuard.Proofs.ClassFile.Code.Body
import PluginGuard.ClassFile.Code.Layout

/-!
# Settled layouts

Whatever passes a layout took, its offsets are the running sums under the forms
it ended with, and only jumps that have a long form were given one.
-/
namespace PluginGuard.ClassFile

def Instruction.Widenable (i : Instruction) : Prop :=
  (∃ t, i.operand = .branch t) ∧ Opcode.isConditionalBranch i.opcode = false ∧
    Opcode.isLongBranch i.opcode = false

structure Instruction.Widens (is : List Instruction) (w : List Bool) : Prop where
  length_eq : w.length = is.length
  widenable : ∀ (k : Nat) (i : Instruction), is[k]? = some i → w[k]? = some true → i.Widenable

namespace Instruction

theorem widens_none (is : List Instruction) : Widens is (is.map fun _ => false) := by
  refine ⟨List.length_map _, ?_⟩
  intro k i hi hw
  rw [List.getElem?_map, hi] at hw
  simp at hw

theorem getElem?_zip_zipIdx {is : List Instruction} {w : List Bool} {k : Nat} {i : Instruction}
    {b : Bool} (hi : is[k]? = some i) (hb : w[k]? = some b) :
    (is.zip w).zipIdx[k]? = some ((i, b), k) := by
  have hzip : (is.zip w)[k]? = some (i, b) := List.getElem?_zip_eq_some.mpr ⟨hi, hb⟩
  simp [List.getElem?_zipIdx, hzip]

theorem Widens.pass {is : List Instruction} {w w' : List Bool} {offsets : Array Nat}
    (h : Widens is w) (hw' : (is.zip w).zipIdx.mapM (needsLong is.length offsets) = .ok w') :
    Widens is w' := by
  obtain ⟨hlength, hstep⟩ := Fallible.mapM_eq_ok.mp hw'
  have hlength' : w'.length = is.length := by simpa [h.length_eq] using hlength
  refine ⟨hlength', ?_⟩
  intro k i hi hb'
  have hk : k < w.length := by
    have := (List.getElem?_eq_some_iff.mp hi).1
    rwa [h.length_eq]
  have hb : w[k]? = some w[k] := List.getElem?_eq_getElem hk
  have hneeds := hstep k _ _ (getElem?_zip_zipIdx hi hb) hb'
  simp only [needsLong] at hneeds
  split at hneeds
  · cases hneeds
  · split at hneeds
    · next t ht =>
      split at hneeds
      · next hlong =>
        rw [Except.ok.inj hneeds] at hb
        exact h.widenable k i hi hb
      · next hshort =>
        split at hneeds
        · cases hneeds
        · split at hneeds
          · cases hneeds
          · next hplain =>
            simp only [isLong, Bool.or_eq_true, not_or, Bool.not_eq_true] at hshort hplain
            exact ⟨⟨t, ht⟩, hplain, hshort.2⟩
    · rw [Except.ok.inj hneeds] at hb
      exact h.widenable k i hi hb

end Instruction

structure BodyLayout.Settled (l : BodyLayout) (is : List Instruction) : Prop where
  widens : Instruction.Widens is l.widened
  offsets_eq : l.offsets = offsetsOf (is.zip l.widened)
  small : l.offset is.length ≤ Code.maxLength

theorem settled_of_settle {is : List Instruction} {passes : Nat} {w : List Bool} {l : BodyLayout}
    (hw : Instruction.Widens is w) (h : settle is passes w = .ok l) : l.Settled is := by
  -- The choice differs from pass to pass. That it asks only for forms that exist is kept.
  induction passes generalizing w with
  | zero =>
    unfold settle at h
    simp only at h
    split at h
    · cases h
    · next hsmall =>
      split at h
      · cases h
      · rw [ite_self, Except.ok.injEq] at h
        subst h
        exact ⟨hw, rfl, Nat.le_of_not_lt hsmall⟩
  | succ passes ih =>
    unfold settle at h
    simp only at h
    split at h
    · cases h
    · next hsmall =>
      split at h
      · cases h
      · next w' hpass =>
        split at h
        · cases h
          exact ⟨hw, rfl, Nat.le_of_not_lt hsmall⟩
        · exact ih (hw.pass hpass) h

theorem Code.settled_of_layout {c : Code} {l : BodyLayout} (h : c.layout = .ok l) :
    l.Settled c.instructions := by
  rw [layout] at h
  split at h
  · cases h
  · exact settled_of_settle (Instruction.widens_none _) h

theorem targets_of_settle {is : List Instruction} {passes : Nat} {w : List Bool} {l : BodyLayout}
    (hlength : w.length = is.length) (h : settle is passes w = .ok l) :
    ∀ i ∈ is, ∀ t ∈ i.targets, t < is.length := by
  unfold settle at h
  simp only at h
  split at h
  · cases h
  · split at h
    · cases h
    · next w' hpass =>
      obtain ⟨hlength', hstep⟩ := Fallible.mapM_eq_ok.mp hpass
      simp only [List.length_zipIdx, List.length_zip, hlength, Nat.min_self] at hlength'
      intro i hi t ht
      obtain ⟨k, hk, hik⟩ := List.mem_iff_getElem.mp hi
      have hx := Instruction.getElem?_zip_zipIdx (List.getElem?_eq_some_iff.mpr ⟨hk, hik⟩)
        (List.getElem?_eq_getElem (hlength ▸ hk))
      have hneeds := hstep k _ _ hx (List.getElem?_eq_getElem (hlength' ▸ hk))
      rw [needsLong] at hneeds
      split at hneeds
      · cases hneeds
      · next hnone =>
        simp only [List.any_eq_true, decide_eq_true_iff, not_exists, not_and, Nat.not_le] at hnone
        exact hnone t ht

theorem Code.nonempty_of_layout {c : Code} {l : BodyLayout} (h : c.layout = .ok l) :
    0 < c.size := by
  rw [layout] at h
  split at h
  · cases h
  · next hnonempty =>
    rw [List.isEmpty_iff, ← ne_eq, ← List.length_pos_iff] at hnonempty
    exact hnonempty

theorem Code.targets_of_layout {c : Code} {l : BodyLayout} (h : c.layout = .ok l) :
    ∀ i ∈ c.instructions, ∀ t ∈ i.targets, t < c.size := by
  rw [layout] at h
  split at h
  · cases h
  · exact targets_of_settle (List.length_map _) h

namespace BodyLayout.Settled

variable {l : BodyLayout} {is : List Instruction}

theorem runs (h : l.Settled is) : l.offset 0 = 0 ∧ l.Runs 0 (is.zip l.widened) := by
  refine @BodyLayout.runs_of_places l (is.zip l.widened) [] 0 ?_
  rw [h.offsets_eq, toList_offsetsOf, List.nil_append]

theorem climbs (h : l.Settled is) : Climbs l.offset is.length := by
  have hclimbs := h.runs.2.climbs
  rwa [List.length_zip, h.widens.length_eq, Nat.min_self] at hclimbs

end BodyLayout.Settled

end PluginGuard.ClassFile
