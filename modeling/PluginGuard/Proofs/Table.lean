import Mathlib.Data.String.Basic
import PluginGuard.Table

/-!
# What a table holds

The entries of a table stand in strictly increasing order of their keys, so each key is there
once, and an insertion replaces what stood under its key.
-/
namespace PluginGuard.Table

variable {α : Type} {t : Table α} {key : String} {value : α} {e : String × α}
  {es : List (String × α)}

def Ordered (t : Table α) : Prop := t.entries.Pairwise (·.1 < ·.1)

theorem ordered_empty : (empty : Table α).Ordered := .nil

theorem mem_put_of_lt (h : ∀ e ∈ es, key < e.1) :
    e ∈ (key, value) :: es ↔ e = (key, value) ∨ e ∈ es ∧ e.1 ≠ key := by
  rw [List.mem_cons]
  exact or_congr_right ⟨fun he => ⟨he, (h e he).ne'⟩, And.left⟩

theorem mem_put (h : es.Pairwise (·.1 < ·.1)) :
    e ∈ put key value es ↔ e = (key, value) ∨ e ∈ es ∧ e.1 ≠ key := by
  induction es with
  | nil => simp [put]
  | cons first rest ih =>
    obtain ⟨hfirst, hrest⟩ := List.pairwise_cons.mp h
    unfold put
    split_ifs with heq hlt
    · subst heq
      rw [mem_put_of_lt hfirst, List.mem_cons]
      refine or_congr_right (and_congr_left fun hkey => (or_iff_right ?_).symm)
      rintro rfl
      exact hkey rfl
    · refine mem_put_of_lt fun e he => ?_
      obtain rfl | he := List.mem_cons.mp he
      · exact hlt
      · exact hlt.trans (hfirst e he)
    · rw [List.mem_cons, ih hrest, List.mem_cons, or_left_comm]
      refine or_congr_right ?_
      rw [or_and_right]
      refine or_congr_left (iff_self_and.mpr ?_)
      rintro rfl
      exact Ne.symm heq

theorem pairwise_put (h : es.Pairwise (·.1 < ·.1)) (key : String) (value : α) :
    (put key value es).Pairwise (·.1 < ·.1) := by
  induction es with
  | nil => exact List.pairwise_singleton _ _
  | cons first rest ih =>
    obtain ⟨hfirst, hrest⟩ := List.pairwise_cons.mp h
    unfold put
    split_ifs with heq hlt
    · subst heq
      exact .cons hfirst hrest
    · refine .cons (fun e he => ?_) h
      obtain rfl | he := List.mem_cons.mp he
      · exact hlt
      · exact hlt.trans (hfirst e he)
    · refine .cons (fun e he => ?_) (ih hrest)
      obtain rfl | ⟨he, -⟩ := (mem_put hrest).mp he
      · exact lt_of_le_of_ne (not_lt.mp hlt) (Ne.symm heq)
      · exact hfirst e he

theorem Ordered.insert (h : t.Ordered) (key : String) (value : α) : (t.insert key value).Ordered :=
  pairwise_put h key value

theorem Ordered.mem_insert (h : t.Ordered) :
    e ∈ (t.insert key value).entries ↔ e = (key, value) ∨ e ∈ t.entries ∧ e.1 ≠ key :=
  mem_put h

end PluginGuard.Table
