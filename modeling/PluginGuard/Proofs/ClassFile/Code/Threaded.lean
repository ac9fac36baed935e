import Mathlib.Data.List.Induction
import Mathlib.Logic.Function.Basic
import PluginGuard.Proofs.ClassFile.Code.Flow
import PluginGuard.Proofs.ClassFile.Code.Relocation

/-!
# Bodies with instructions put in

Edits that put in instructions, in front of a body or before some of its
instructions, all lead to one shape: the body with a list of new instructions in
front and one before each of its instructions. References go to the new
instructions before the one they named, and no reference goes to those in front.
-/
namespace PluginGuard.ClassFile

/-! ### Lists with gaps filled in -/

section Weave

variable {α β : Type} (gap : Nat → List α)

/-- Puts `gap k` before the element with number `k`, counting from the given number. -/
def weave : Nat → List α → List α
  | _, [] => []
  | k, a :: as => gap k ++ a :: weave (k + 1) as

def anchor (first : Nat) : Nat → Nat
  | 0 => first
  | k + 1 => anchor first k + (gap k).length + 1

def place (first k : Nat) : Nat := anchor gap first k + (gap k).length

theorem weave_cons (k : Nat) (a : α) (as : List α) :
    weave gap k (a :: as) = gap k ++ a :: weave gap (k + 1) as := rfl

theorem place_eq (first k : Nat) : place gap first k = anchor gap first k + (gap k).length := rfl

theorem anchor_succ (first k : Nat) : anchor gap first (k + 1) = place gap first k + 1 := rfl

theorem anchor_le_place (first k : Nat) : anchor gap first k ≤ place gap first k :=
  Nat.le_add_right _ _

theorem strictMono_anchor (first : Nat) : StrictMono (anchor gap first) :=
  strictMono_nat_of_lt_succ fun k => Nat.lt_succ_of_le (anchor_le_place gap first k)

theorem strictMono_place (first : Nat) : StrictMono (place gap first) := by
  refine strictMono_nat_of_lt_succ fun k => ?_
  have := anchor_le_place gap first (k + 1)
  rw [anchor_succ] at this
  omega

theorem place_lt_anchor_iff {first k r : Nat} :
    place gap first k < anchor gap first r ↔ k < r := by
  rw [← Nat.succ_le_iff, Nat.succ_eq_add_one, ← anchor_succ,
    (strictMono_anchor gap first).le_iff_le, Nat.succ_le_iff]

theorem place_add {first k n : Nat} (h : ∀ j, k < j → j ≤ k + n → gap j = []) :
    place gap first (k + n) = place gap first k + n := by
  induction n with
  | zero => rfl
  | succ n ih =>
    have hlast : gap (k + (n + 1)) = [] := h _ (by omega) (Nat.le_refl _)
    rw [place_eq, hlast, ← Nat.add_assoc, anchor_succ, ih fun j hj hle => h j hj (by omega)]
    rfl

theorem exists_anchor_le {first n j : Nat} (hj : first ≤ j) (hn : j < anchor gap first n) :
    ∃ k < n, anchor gap first k ≤ j ∧ j ≤ place gap first k := by
  induction n with
  | zero => exact absurd hn (Nat.not_lt.mpr hj)
  | succ n ih =>
    by_cases hlt : j < anchor gap first n
    · obtain ⟨k, hk, hbetween⟩ := ih hlt
      exact ⟨k, Nat.lt_succ_of_lt hk, hbetween⟩
    · rw [anchor_succ] at hn
      exact ⟨n, Nat.lt_succ_self n, Nat.le_of_not_lt hlt, Nat.le_of_lt_succ hn⟩

theorem anchor_nil (first k : Nat) : anchor (fun _ => ([] : List α)) first k = first + k := by
  induction k with
  | zero => rfl
  | succ k ih => rw [anchor_succ, place_eq, ih, List.length_nil, Nat.add_zero, Nat.add_assoc]

theorem weave_append (k : Nat) (as bs : List α) :
    weave gap k (as ++ bs) = weave gap k as ++ weave gap (k + as.length) bs := by
  induction as generalizing k with
  | nil => rfl
  | cons a as ih =>
    simp only [List.cons_append, weave_cons, ih, List.append_assoc, List.length_cons]
    rw [Nat.add_assoc k 1, Nat.add_comm 1]

theorem weave_nil (k : Nat) (as : List α) : weave (fun _ => []) k as = as := by
  induction as generalizing k with
  | nil => rfl
  | cons a as ih => rw [weave_cons, ih, List.nil_append]

theorem length_weave (first : Nat) (as : List α) :
    first + (weave gap 0 as).length = anchor gap first as.length := by
  induction as using List.reverseRecOn with
  | nil => rfl
  | append_singleton as a ih =>
    rw [weave_append, List.length_append, ← Nat.add_assoc, ih, List.length_append,
      List.length_singleton, anchor_succ, place_eq, weave_cons, Nat.zero_add, List.length_append,
      ← Nat.add_assoc]
    rfl

theorem map_weave (f : α → β) (k : Nat) (as : List α) :
    (weave gap k as).map f = weave (fun j => (gap j).map f) k (as.map f) := by
  induction as generalizing k with
  | nil => rfl
  | cons a as ih => rw [weave_cons, List.map_append, List.map_cons, ih, List.map_cons, weave_cons]

theorem weave_congr {gap gap' : Nat → List α} {k : Nat} {as : List α}
    (h : ∀ j, k ≤ j → j < k + as.length → gap j = gap' j) : weave gap k as = weave gap' k as := by
  induction as generalizing k with
  | nil => rfl
  | cons a as ih =>
    rw [weave_cons, weave_cons, h k (Nat.le_refl k) (by simp), ih fun j hj hlt => ?_]
    exact h j (by omega) (by rw [List.length_cons]; omega)

theorem mem_weave {k : Nat} {as : List α} {x : α} (h : x ∈ weave gap k as) :
    x ∈ as ∨ ∃ j, x ∈ gap j := by
  induction as generalizing k with
  | nil => exact absurd h List.not_mem_nil
  | cons a as ih =>
    simp only [weave_cons, List.mem_append, List.mem_cons] at h
    obtain h | rfl | h := h
    · exact .inr ⟨k, h⟩
    · exact .inl List.mem_cons_self
    · exact (ih h).imp_left (List.mem_cons_of_mem a)

theorem filter_weave {gap : Nat → List α} {p : α → Bool} (hgap : ∀ j, ∀ x ∈ gap j, p x = false)
    {k : Nat} {as : List α} (h : ∀ x ∈ as, p x = true) : (weave gap k as).filter p = as := by
  induction as generalizing k with
  | nil => rfl
  | cons a as ih =>
    obtain ⟨ha, has⟩ := List.forall_mem_cons.mp h
    have hnone : (gap k).filter p = [] := List.filter_eq_nil_iff.mpr (by simpa using hgap k)
    rw [weave_cons, List.filter_append, hnone, List.filter_cons_of_pos ha, ih has, List.nil_append]

theorem weave_of_getElem? {as : List α} {k : Nat} {a : α} (ha : as[k]? = some a) :
    weave gap 0 as =
      weave gap 0 (as.take k) ++ (gap k ++ a :: weave gap (k + 1) (as.drop (k + 1))) := by
  obtain ⟨hk, rfl⟩ := List.getElem?_eq_some_iff.mp ha
  have hsplit : as = as.take k ++ as[k] :: as.drop (k + 1) := by
    rw [List.getElem_cons_drop, List.take_append_drop]
  conv_lhs => rw [hsplit]
  rw [weave_append, List.length_take_of_le (Nat.le_of_lt hk), Nat.zero_add]
  rfl

theorem anchor_update (first k : Nat) (new : List α) (r : Nat) :
    anchor (Function.update gap k (gap k ++ new)) first r =
      if k < r then anchor gap first r + new.length else anchor gap first r := by
  induction r with
  | zero => rfl
  | succ r ih =>
    rw [anchor_succ, anchor_succ, place_eq, place_eq, ih]
    obtain hlt | rfl | hlt := Nat.lt_trichotomy k r
    · rw [Function.update_of_ne (Nat.ne_of_gt hlt), if_pos hlt, if_pos (Nat.lt_succ_of_lt hlt)]
      omega
    · rw [Function.update_self, if_neg (Nat.lt_irrefl k), if_pos (Nat.lt_succ_self k),
        List.length_append]
      omega
    · rw [Function.update_of_ne (Nat.ne_of_lt hlt), if_neg (Nat.lt_asymm hlt),
        if_neg (by omega)]

theorem weave_update {as : List α} {k : Nat} {a : α} (ha : as[k]? = some a) (new : List α) :
    weave (Function.update gap k (gap k ++ new)) 0 as =
      weave gap 0 (as.take k) ++ gap k ++ new ++ a :: weave gap (k + 1) (as.drop (k + 1)) := by
  have hbefore : weave (Function.update gap k (gap k ++ new)) 0 (as.take k) =
      weave gap 0 (as.take k) := by
    refine weave_congr fun j _ hj => Function.update_of_ne (Nat.ne_of_lt ?_) ..
    rw [Nat.zero_add] at hj
    exact hj.trans_le (List.length_take_le k as)
  have hbehind : weave (Function.update gap k (gap k ++ new)) (k + 1) (as.drop (k + 1)) =
      weave gap (k + 1) (as.drop (k + 1)) :=
    weave_congr fun j hj _ => Function.update_of_ne (Nat.ne_of_gt hj) ..
  rw [weave_of_getElem? _ ha, hbefore, hbehind, Function.update_self]
  simp only [List.append_assoc]

end Weave

/-! ### Bodies -/

namespace Code

/-- The body with `lead` in front of it and `gap k` before its instruction `k`. -/
def threaded (lead : List Instruction) (gap : Nat → List Instruction) (c : Code) : Code :=
  let moved := c.moved (anchor gap lead.length)
  { moved with instructions := lead ++ weave gap 0 moved.instructions }

structure Plain (lead : List Instruction) (gap : Nat → List Instruction) : Prop where
  lead : ∀ i ∈ lead, i.Straight
  gap : ∀ k, ∀ i ∈ gap k, i.Straight

variable {lead : List Instruction} {gap : Nat → List Instruction} {c : Code}

theorem Plain.nil : Plain [] fun _ => [] := ⟨List.forall_mem_nil _, fun _ => List.forall_mem_nil _⟩

theorem Plain.update (plain : Plain lead gap) {new : List Instruction}
    (hnew : ∀ i ∈ new, i.Straight) (k : Nat) :
    Plain lead (Function.update gap k (gap k ++ new)) := by
  refine ⟨plain.lead, (Function.forall_update_iff gap fun _ is => ∀ i ∈ is, i.Straight).mpr ?_⟩
  exact ⟨List.forall_mem_append.mpr ⟨plain.gap k, hnew⟩, fun j _ => plain.gap j⟩

theorem threaded_nil (c : Code) : c.threaded [] (fun _ => []) = c := by
  have hanchor : anchor (fun _ => ([] : List Instruction)) 0 = id :=
    funext fun k => (anchor_nil 0 k).trans (Nat.zero_add k)
  simp only [threaded, List.length_nil, hanchor, moved_id, weave_nil, List.nil_append]

theorem size_threaded : (c.threaded lead gap).size = anchor gap lead.length c.size := by
  have hlength := length_weave gap lead.length
    (c.instructions.map (Instruction.mapTargets (anchor gap lead.length)))
  rw [List.length_map] at hlength
  rw [size, threaded, List.length_append, size, ← hlength]
  rfl

theorem place_lt_size_iff {k : Nat} :
    place gap lead.length k < (c.threaded lead gap).size ↔ k < c.size := by
  rw [size_threaded, place_lt_anchor_iff]

/-! ### What stands where -/

theorem getElem?_lead {j : Nat} (hj : j < lead.length) :
    (c.threaded lead gap).instructions[j]? = lead[j]? :=
  List.getElem?_append_left hj

def front (lead : List Instruction) (gap : Nat → List Instruction) (c : Code) (k : Nat) :
    List Instruction :=
  lead ++ weave gap 0 ((c.moved (anchor gap lead.length)).instructions.take k) ++ gap k

def rear (lead : List Instruction) (gap : Nat → List Instruction) (c : Code) (k : Nat) :
    List Instruction :=
  weave gap (k + 1) ((c.moved (anchor gap lead.length)).instructions.drop (k + 1))

theorem length_front {k : Nat} (hk : k ≤ c.size) :
    (front lead gap c k).length = place gap lead.length k := by
  rw [front, List.length_append, List.length_append, length_weave, List.length_take_of_le,
    place_eq]
  simpa [moved, size] using hk

theorem getElem?_moved {f : Nat → Nat} {k : Nat} {i : Instruction}
    (hi : c.instructions[k]? = some i) : (c.moved f).instructions[k]? = some (i.mapTargets f) := by
  rw [moved, List.getElem?_map, hi]
  rfl

theorem instructions_threaded {k : Nat} {i : Instruction} (hi : c.instructions[k]? = some i) :
    (c.threaded lead gap).instructions =
      front lead gap c k ++ i.mapTargets (anchor gap lead.length) :: rear lead gap c k := by
  rw [threaded, weave_of_getElem? gap (getElem?_moved hi), front, rear]
  simp only [List.append_assoc]

theorem getElem?_place {k : Nat} {i : Instruction} (hi : c.instructions[k]? = some i) :
    (c.threaded lead gap).instructions[place gap lead.length k]? =
      some (i.mapTargets (anchor gap lead.length)) := by
  have hk : k ≤ c.size := Nat.le_of_lt (List.getElem?_eq_some_iff.mp hi).1
  rw [instructions_threaded hi, ← length_front hk, List.getElem?_append_right (Nat.le_refl _),
    Nat.sub_self, List.getElem?_cons_zero]

theorem getElem?_gap {k j : Nat} (hk : k < c.size) (hj : j < (gap k).length) :
    (c.threaded lead gap).instructions[anchor gap lead.length k + j]? = (gap k)[j]? := by
  have hlength := @length_front lead gap c k (Nat.le_of_lt hk)
  rw [front, List.length_append, place_eq, Nat.add_right_cancel_iff] at hlength
  rw [instructions_threaded (List.getElem?_eq_getElem hk), front, List.append_assoc, ← hlength,
    List.getElem?_append_right (Nat.le_add_right _ _), Nat.add_sub_cancel_left,
    List.getElem?_append_left hj]

theorem mem_instructions_threaded {i : Instruction}
    (hi : i ∈ (c.threaded lead gap).instructions) :
    (i ∈ lead ∨ ∃ k, i ∈ gap k) ∨
      ∃ own ∈ c.instructions, i = own.mapTargets (anchor gap lead.length) := by
  obtain hi | hi := List.mem_append.mp hi
  · exact .inl (.inl hi)
  · obtain hi | hi := mem_weave gap hi
    · obtain ⟨own, hown, rfl⟩ := List.mem_map.mp hi
      exact .inr ⟨own, hown, rfl⟩
    · exact .inl (.inr hi)

/-! ### Edits -/

theorem ordered_threaded (ordered : ∀ a ∈ c.attributes, a.Ordered) :
    ∀ a ∈ (c.threaded lead gap).attributes, a.Ordered := by
  intro a ha
  obtain ⟨b, hb, rfl⟩ := List.mem_map.mp ha
  exact (CodeAttribute.ordered_moved (strictMono_anchor gap lead.length)).mpr (ordered b hb)

theorem map_eq_self_of_plain {f : Nat → Nat} {is : List Instruction}
    (h : ∀ i ∈ is, i.Straight) : is.map (Instruction.mapTargets f) = is := by
  refine (List.map_congr_left fun i hi => ?_).trans (List.map_id' is)
  exact Instruction.mapTargets_eq_self (by simp [(h i hi).targets])

theorem prepend_threaded {new : List Instruction} (plain : Plain lead gap)
    (ordered : ∀ a ∈ c.attributes, a.Ordered) :
    (c.threaded lead gap).prepend new = .ok (c.threaded (new ++ lead) gap) := by
  have hanchor : (fun r => anchor gap lead.length r + new.length) =
      anchor gap (new ++ lead).length := by
    funext r
    induction r with
    | zero => simp [anchor, Nat.add_comm]
    | succ r ih =>
      rw [anchor_succ, anchor_succ, place_eq, place_eq, ← ih]
      omega
  have hmoved : (c.moved (anchor gap lead.length)).moved (· + new.length) =
      c.moved (anchor gap (new ++ lead).length) := by rw [moved_moved, hanchor]
  have hinstructions := congrArg Code.instructions hmoved
  have hhandlers := congrArg Code.handlers hmoved
  have hattributes := congrArg Code.attributes hmoved
  have hgap : (fun j => (gap j).map (Instruction.mapTargets (· + new.length))) = gap :=
    funext fun j => map_eq_self_of_plain (plain.gap j)
  rw [prepend_eq_ok.mpr ⟨ordered_threaded ordered, rfl⟩]
  refine congrArg Except.ok (Code.mk.injEq .. ▸ ⟨rfl, rfl, ?_, hhandlers, hattributes⟩)
  change new ++ (lead ++ weave gap 0 (c.moved (anchor gap lead.length)).instructions).map _ =
    new ++ lead ++ weave gap 0 (c.moved (anchor gap (new ++ lead).length)).instructions
  rw [List.map_append, map_weave, hgap, map_eq_self_of_plain plain.lead, ← hinstructions,
    List.append_assoc]
  rfl

theorem insert_threaded {new : List Instruction} {k : Nat} (plain : Plain lead gap)
    (hk : k < c.size) (ordered : ∀ a ∈ c.attributes, a.Ordered) :
    (c.threaded lead gap).insert (place gap lead.length k) new =
      .ok (c.threaded lead (Function.update gap k (gap k ++ new))) := by
  let p := place gap lead.length k
  let gap' := Function.update gap k (gap k ++ new)
  have hanchor : (fun r => shift p new.length (anchor gap lead.length r)) =
      anchor gap' lead.length := by
    funext r
    rw [anchor_update, shift]
    exact if_congr (place_lt_anchor_iff gap) rfl rfl
  have hmoved : (c.moved (anchor gap lead.length)).moved (shift p new.length) =
      c.moved (anchor gap' lead.length) := by rw [moved_moved, hanchor]
  have hinstructions := congrArg Code.instructions hmoved
  have hhandlers := congrArg Code.handlers hmoved
  have hattributes := congrArg Code.attributes hmoved
  have hp : p ≤ (c.threaded lead gap).size := Nat.le_of_lt (place_lt_size_iff.mpr hk)
  have hgap : (fun j => (gap j).map (Instruction.mapTargets (shift p new.length))) = gap :=
    funext fun j => map_eq_self_of_plain (plain.gap j)
  rw [insert_eq_ok.mpr ⟨hp, ordered_threaded ordered, rfl⟩]
  refine congrArg Except.ok (Code.mk.injEq .. ▸ ⟨rfl, rfl, ?_, hhandlers, hattributes⟩)
  -- What stands in front of the place, the new instructions, and what stands from there on.
  have hi := List.getElem?_eq_getElem hk
  have hi' := getElem?_moved (f := shift p new.length)
    (getElem?_moved (f := anchor gap lead.length) hi)
  change _ = lead ++ weave gap' 0 (c.moved (anchor gap' lead.length)).instructions
  rw [instructions_threaded hi, List.take_left' (length_front (Nat.le_of_lt hk)),
    List.drop_left' (length_front (Nat.le_of_lt hk)), ← hinstructions, weave_update gap hi',
    List.map_cons, front, rear, List.map_append, List.map_append, map_weave, map_weave, hgap,
    map_eq_self_of_plain plain.lead, map_eq_self_of_plain (plain.gap k)]
  simp only [moved, List.map_take, List.map_drop, List.append_assoc]

theorem WellFormed.threaded {pool : Pool} (wf : c.WellFormed pool) (plain : Plain lead gap)
    (hlead : ∀ i ∈ lead, i.Conforms) (hgap : ∀ k, ∀ i ∈ gap k, i.Conforms) :
    (c.threaded lead gap).WellFormed pool := by
  have hmono := strictMono_anchor gap lead.length
  refine ⟨?_, ?_, ?_, ?_, ?_, ?_⟩
  · rw [size_threaded]
    exact Nat.lt_of_le_of_lt (Nat.zero_le _) (hmono wf.nonempty)
  · intro i hi
    obtain (hi | ⟨k, hi⟩) | ⟨j, hj, rfl⟩ := mem_instructions_threaded hi
    · exact hlead i hi
    · exact hgap k i hi
    · exact (wf.conforms j hj).mapTargets _
  · intro i hi t ht
    obtain (hi | ⟨k, hi⟩) | ⟨j, hj, rfl⟩ := mem_instructions_threaded hi
    · simp [(plain.lead i hi).targets] at ht
    · simp [(plain.gap k i hi).targets] at ht
    · rw [Instruction.targets_mapTargets] at ht
      obtain ⟨s, hs, rfl⟩ := List.mem_map.mp ht
      rw [size_threaded]
      exact hmono (wf.targets j hj s hs)
  · rw [size_threaded]
    exact List.forall_mem_map.mpr fun h hh => (wf.handlers h hh).moved hmono
  · rw [size_threaded]
    exact List.forall_mem_map.mpr fun a ha => (wf.attributes a ha).moved hmono
  · exact List.forall_mem_map.mpr fun a ha => CodeAttribute.named_moved.mpr (wf.named a ha)

end Code

end PluginGuard.ClassFile
