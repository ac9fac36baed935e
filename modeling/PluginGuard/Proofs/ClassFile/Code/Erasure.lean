import PluginGuard.Proofs.ClassFile.Code.Paths

/-!
# Erasing instructions

What is left of a body when only some of its instructions are kept: each is
numbered by how many kept ones stand before it. A threaded body from which
exactly the instructions that were put in are erased is the body itself, with
the same handlers, coverage and returning paths.
-/
namespace PluginGuard.ClassFile.Code

section Erase

variable (kept : Instruction → Bool) (c : Code)

def keepsAt (k : Nat) : Bool := c.instructions[k]?.any kept

def rank (k : Nat) : Nat := (c.instructions.take k).countP kept

def erase (path : List Nat) : List Nat := (path.filter (c.keepsAt kept)).map (c.rank kept)

/-- Kept instructions raise as the predicate says of their numbers, others never. -/
def keptRaises (raises : Nat → Prop) (k : Nat) : Prop :=
  c.keepsAt kept k = true ∧ raises (c.rank kept k)

structure ErasesTo (t c : Code) : Prop where
  instructions :
    (t.instructions.filter kept).map (Instruction.mapTargets (t.rank kept)) = c.instructions
  handlers : t.handlers.map (Handler.moved (t.rank kept)) = c.handlers
  covers : ∀ h ∈ t.handlers, ∀ k, t.keepsAt kept k = true →
    (h.Covers k ↔ (h.moved (t.rank kept)).Covers (t.rank kept k))
  paths : ∀ raises, Set.BijOn (t.erase kept)
    {path | t.ReturningPath (t.keptRaises kept raises) path} {path | c.ReturningPath raises path}

end Erase

structure Sifts (kept : Instruction → Bool) (lead : List Instruction)
    (gap : Nat → List Instruction) (c : Code) : Prop where
  lead : ∀ i ∈ lead, kept i = false
  gap : ∀ k, ∀ i ∈ gap k, kept i = false
  own : ∀ i ∈ c.instructions, ∀ f, kept (i.mapTargets f) = true

variable {kept : Instruction → Bool} {lead : List Instruction} {gap : Nat → List Instruction}
variable {c : Code} {raises : Nat → Prop}

/-! ### Numbers of kept instructions -/

theorem take_anchor {k : Nat} (hk : k ≤ c.size) :
    (c.threaded lead gap).instructions.take (anchor gap lead.length k) =
      lead ++ weave gap 0 ((c.moved (anchor gap lead.length)).instructions.take k) := by
  let is := (c.moved (anchor gap lead.length)).instructions
  have hlength : (lead ++ weave gap 0 (is.take k)).length = anchor gap lead.length k := by
    rw [List.length_append, length_weave, List.length_take_of_le]
    simpa [is, moved, size] using hk
  have hsplit : (c.threaded lead gap).instructions =
      lead ++ weave gap 0 (is.take k) ++ weave gap (0 + (is.take k).length) (is.drop k) := by
    rw [List.append_assoc, ← weave_append, List.take_append_drop]
    rfl
  rw [hsplit, List.take_left' hlength]

theorem take_place {k : Nat} (hk : k < c.size) :
    (c.threaded lead gap).instructions.take (place gap lead.length k) = front lead gap c k := by
  rw [instructions_threaded (List.getElem?_eq_getElem hk), ← length_front (Nat.le_of_lt hk),
    List.take_left]

namespace Sifts

variable (sifts : Sifts kept lead gap c)
include sifts

theorem filter_moved (f : Nat → Nat) (k : Nat) :
    (weave gap 0 ((c.moved f).instructions.take k)).filter kept =
      (c.moved f).instructions.take k := by
  refine filter_weave sifts.gap fun i hi => ?_
  obtain ⟨own, hown, rfl⟩ := List.mem_map.mp (List.mem_of_mem_take hi)
  exact sifts.own own hown f

theorem filter_lead : lead.filter kept = [] := by
  rw [List.filter_eq_nil_iff]
  exact fun i hi => Bool.not_eq_true _ ▸ sifts.lead i hi

theorem filter_gap (k : Nat) : (gap k).filter kept = [] := by
  rw [List.filter_eq_nil_iff]
  exact fun i hi => Bool.not_eq_true _ ▸ sifts.gap k i hi

theorem rank_anchor {k : Nat} (hk : k ≤ c.size) :
    (c.threaded lead gap).rank kept (anchor gap lead.length k) = k := by
  rw [rank, take_anchor hk, List.countP_eq_length_filter, List.filter_append, sifts.filter_lead,
    sifts.filter_moved, List.nil_append, List.length_take_of_le]
  simpa [moved, size] using hk

theorem rank_place {k : Nat} (hk : k < c.size) :
    (c.threaded lead gap).rank kept (place gap lead.length k) = k := by
  have hanchor := sifts.rank_anchor (Nat.le_of_lt hk)
  rw [rank, take_anchor (Nat.le_of_lt hk)] at hanchor
  rw [rank, take_place hk, front, List.countP_append, hanchor, List.countP_eq_length_filter,
    sifts.filter_gap, List.length_nil, Nat.add_zero]

theorem keepsAt_iff {j : Nat} :
    (c.threaded lead gap).keepsAt kept j = true ↔ ∃ k < c.size, j = place gap lead.length k := by
  rw [keepsAt, Option.any_eq_true]
  constructor
  · intro h
    obtain ⟨i, hi, hkept⟩ := h
    obtain ⟨hi | ⟨k, hi⟩, -⟩ | ⟨k, own, hown, hj, -⟩ := inserted_or_own hi
    · rw [sifts.lead i hi] at hkept
      cases hkept
    · rw [sifts.gap k i hi] at hkept
      cases hkept
    · exact ⟨k, (List.getElem?_eq_some_iff.mp hown).1, hj⟩
  · intro h
    obtain ⟨k, hk, rfl⟩ := h
    have hown := List.getElem?_eq_getElem hk
    exact ⟨_, getElem?_place hown, sifts.own _ (List.mem_of_getElem? hown) _⟩

theorem keptRaises_eq :
    (c.threaded lead gap).keptRaises kept raises = ownRaises lead gap c raises := by
  funext j
  rw [keptRaises, sifts.keepsAt_iff, ownRaises, eq_iff_iff]
  constructor
  · intro h
    obtain ⟨⟨k, hk, rfl⟩, hraises⟩ := h
    exact ⟨k, hk, sifts.rank_place hk ▸ hraises, rfl⟩
  · intro h
    obtain ⟨k, hk, hraises, rfl⟩ := h
    exact ⟨⟨k, hk, rfl⟩, (sifts.rank_place hk).symm ▸ hraises⟩

/-! ### Paths -/

theorem erase_expand {path : List Nat} (hpath : ∀ k ∈ path, k < c.size) :
    (c.threaded lead gap).erase kept (expand lead gap path) = path := by
  have skipped {js : List Nat} (hjs : ∀ j ∈ js, ∀ k, j ≠ place gap lead.length k) :
      js.filter ((c.threaded lead gap).keepsAt kept) = [] := by
    refine List.filter_eq_nil_iff.mpr fun j hj h => ?_
    obtain ⟨k, -, hk⟩ := sifts.keepsAt_iff.mp h
    exact hjs j hj k hk
  induction path with
  | nil =>
    rw [erase, expand, skipped, List.map_nil]
    rintro j hj k rfl
    exact Nat.not_lt.mpr (length_lead_le_place lead gap k) (by simpa using (mem_climb.mp hj).2)
  | cons k past ih =>
    obtain ⟨hk, hpast⟩ := List.forall_mem_cons.mp hpath
    have hgap := @skipped (climb (anchor gap lead.length k) (gap k).length) <| by
      rintro j hj r rfl
      exact place_not_mem_climb k r hj
    rw [expand_cons, erase, List.filter_cons_of_pos (sifts.keepsAt_iff.mpr ⟨k, hk, rfl⟩),
      List.filter_append, hgap, List.nil_append, List.map_cons, sifts.rank_place hk]
    exact congrArg _ (ih hpast)

end Sifts

theorem returningPath_threaded (plain : Plain lead gap) {path : List Nat} :
    (c.threaded lead gap).ReturningPath (ownRaises lead gap c raises) path ↔
      ∃ own, c.ReturningPath raises own ∧ path = expand lead gap own := by
  constructor
  · intro h
    obtain ⟨hpath, r, past, rfl, hreturns⟩ := h
    obtain ⟨k, -, rfl, hown⟩ := exists_place_of_returnsAt plain hreturns
    obtain ⟨past', hpast, heq⟩ := exists_expand_of_path plain hpath
    exact ⟨k :: past', ⟨hpast, k, past', rfl, hown⟩, heq⟩
  · intro h
    obtain ⟨own, ⟨hown, r, past, rfl, i, hi, hreturn⟩, rfl⟩ := h
    exact ⟨hown.expand plain, _, _, expand_cons r past, _, getElem?_place hi, hreturn⟩

theorem erasesTo_threaded {pool : Pool} (wf : c.WellFormed pool) (plain : Plain lead gap)
    (sifts : Sifts kept lead gap c) : ErasesTo kept (c.threaded lead gap) c where
  instructions := by
    have hback : ∀ t, t ≤ c.size →
        (c.threaded lead gap).rank kept (anchor gap lead.length t) = t := fun t ht =>
      sifts.rank_anchor ht
    have hkept := sifts.filter_moved (anchor gap lead.length) c.size
    rw [List.take_of_length_le (by simp [moved, size])] at hkept
    rw [threaded, List.filter_append, sifts.filter_lead, hkept, List.nil_append, moved,
      List.map_map]
    refine (List.map_congr_left fun i hi => ?_).trans (List.map_id' _)
    rw [Function.comp_apply, Instruction.mapTargets_mapTargets]
    exact Instruction.mapTargets_eq_self fun t ht => hback t (Nat.le_of_lt (wf.targets i hi t ht))
  handlers := by
    rw [threaded, moved, List.map_map]
    refine (List.map_congr_left fun h hh => ?_).trans (List.map_id' _)
    obtain ⟨hstart, hstop, hentry⟩ := wf.handlers h hh
    rw [Function.comp_apply, Handler.moved, Handler.moved]
    exact Handler.mk.injEq .. ▸ ⟨sifts.rank_anchor (Nat.le_of_lt hstart), sifts.rank_anchor hstop,
      sifts.rank_anchor (Nat.le_of_lt hentry), rfl⟩
  covers := by
    intro h hh j hj
    obtain ⟨own, hown, rfl⟩ := List.mem_map.mp hh
    obtain ⟨hstart, hstop, -⟩ := wf.handlers own hown
    obtain ⟨k, hk, rfl⟩ := sifts.keepsAt_iff.mp hj
    rw [covers_moved, sifts.rank_place hk, Handler.Covers, Handler.Covers]
    simp only [Handler.moved, sifts.rank_anchor (Nat.le_of_lt hstart), sifts.rank_anchor hstop]
  paths := by
    intro raises
    simp only [sifts.keptRaises_eq, returningPath_threaded plain]
    have herase {path : List Nat} (h : c.ReturningPath raises path) :=
      sifts.erase_expand h.1.lt_size
    refine ⟨?_, ?_, ?_⟩
    · rintro _ ⟨own, hown, rfl⟩
      exact (herase hown).symm ▸ hown
    · rintro _ ⟨own, hown, rfl⟩ _ ⟨other, hother, rfl⟩ heq
      rw [herase hown, herase hother] at heq
      rw [heq]
    · intro own hown
      exact ⟨_, ⟨own, hown, rfl⟩, herase hown⟩

end PluginGuard.ClassFile.Code
