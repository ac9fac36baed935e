import Mathlib.Data.Set.Function
import PluginGuard.Proofs.ClassFile.Code.Threaded

/-!
# Paths of threaded bodies

Control that runs through a threaded body runs through the body itself, with the
instructions that were put in before each of its steps. So the paths of the two
that end at an instruction of the body are in bijection, and erasing what was put
in is the way back.
-/
namespace PluginGuard.ClassFile

/-- Consecutive indices from the given one on, the last one first. -/
def climb (first : Nat) : Nat → List Nat
  | 0 => []
  | n + 1 => (first + n) :: climb first n

theorem climb_add (first m n : Nat) :
    climb first (m + n) = climb (first + m) n ++ climb first m := by
  induction n with
  | zero => rfl
  | succ n ih => rw [← Nat.add_assoc, climb, ih, climb, List.cons_append, Nat.add_assoc]

theorem mem_climb {first n j : Nat} : j ∈ climb first n ↔ first ≤ j ∧ j < first + n := by
  induction n with
  | zero => simp [climb]
  | succ n ih =>
    rw [climb, List.mem_cons, ih]
    omega

namespace Code

theorem Path.climbs {c : Code} {raises : Nat → Prop} {a n : Nat} {past : List Nat}
    (h : c.Path raises (a :: past)) (hlt : a + n < c.size)
    (falls : ∀ j, a ≤ j → j < a + n → ∀ i, c.instructions[j]? = some i →
      Opcode.fallsThrough i.opcode = true) : c.Path raises (climb a (n + 1) ++ past) := by
  induction n with
  | zero => exact h
  | succ n ih =>
    have hbefore := ih (by omega) fun j hj hlt' => falls j hj (by omega)
    have hn : a + n < c.instructions.length := Nat.lt_of_succ_lt hlt
    have hi : c.instructions[a + n]? = some c.instructions[a + n] := List.getElem?_eq_getElem hn
    exact .step hbefore (.next hi (falls _ (by omega) (by omega) _ hi)) hlt

variable {lead : List Instruction} {gap : Nat → List Instruction} {c : Code}
variable {raises : Nat → Prop}

/-! ### Steps -/

theorem place_eq_of_between {k r : Nat} (h : anchor gap lead.length k ≤ place gap lead.length r)
    (h' : place gap lead.length r ≤ place gap lead.length k) : r = k := by
  have hk : k ≤ r := by
    rw [← Nat.not_lt, ← place_lt_anchor_iff gap]
    exact Nat.not_lt.mpr h
  exact Nat.le_antisymm ((strictMono_place gap lead.length).le_iff_le.mp h') hk

theorem length_lead_le_place (lead : List Instruction) (gap : Nat → List Instruction) (k : Nat) :
    lead.length ≤ place gap lead.length k :=
  ((strictMono_anchor gap lead.length).monotone (Nat.zero_le k)).trans
    (anchor_le_place gap lead.length k)

theorem inserted_or_own {j : Nat} {i : Instruction}
    (hi : (c.threaded lead gap).instructions[j]? = some i) :
    ((i ∈ lead ∨ ∃ k, i ∈ gap k) ∧ ∀ k, j ≠ place gap lead.length k) ∨
      ∃ k own, c.instructions[k]? = some own ∧ j = place gap lead.length k ∧
        i = own.mapTargets (anchor gap lead.length) := by
  by_cases hlead : j < lead.length
  · rw [getElem?_lead hlead] at hi
    refine .inl ⟨.inl (List.mem_of_getElem? hi), fun k hk => ?_⟩
    exact Nat.not_lt.mpr (length_lead_le_place lead gap k) (hk ▸ hlead)
  · have hsize : j < anchor gap lead.length c.size :=
      size_threaded ▸ (List.getElem?_eq_some_iff.mp hi).1
    obtain ⟨k, hk, hle, hplace⟩ := exists_anchor_le gap (Nat.le_of_not_lt hlead) hsize
    obtain hlt | rfl := Nat.lt_or_eq_of_le hplace
    · obtain ⟨m, rfl⟩ := Nat.exists_eq_add_of_le hle
      rw [getElem?_gap hk (Nat.add_lt_add_iff_left.mp hlt)] at hi
      refine .inl ⟨.inr ⟨k, List.mem_of_getElem? hi⟩, fun r hr => ?_⟩
      have hrk := place_eq_of_between (hr ▸ hle) (hr ▸ Nat.le_of_lt hlt)
      exact Nat.ne_of_lt hlt (hrk ▸ hr)
    · have hown := List.getElem?_eq_getElem hk
      rw [getElem?_place hown] at hi
      exact .inr ⟨k, _, hown, rfl, (Option.some.inj hi).symm⟩

theorem straight_of_ne_place (plain : Plain lead gap) {j : Nat} {i : Instruction}
    (hi : (c.threaded lead gap).instructions[j]? = some i)
    (hj : ∀ k, j ≠ place gap lead.length k) : i.Straight := by
  obtain ⟨hi | ⟨k, hi⟩, -⟩ | ⟨k, -, -, rfl, -⟩ := inserted_or_own hi
  · exact plain.lead i hi
  · exact plain.gap k i hi
  · exact absurd rfl (hj k)

theorem entered_threaded (plain : Plain lead gap) {t : Nat}
    (h : (c.threaded lead gap).Entered t) :
    ∃ s, c.Entered s ∧ t = anchor gap lead.length s := by
  obtain ⟨i, hi, ht⟩ | ⟨h, hh, rfl⟩ := h
  · obtain ⟨j, hj⟩ := List.mem_iff_getElem?.mp hi
    obtain ⟨-, hput⟩ | ⟨k, own, hown, -, rfl⟩ := inserted_or_own hj
    · simp [(straight_of_ne_place plain hj hput).targets] at ht
    · rw [Instruction.targets_mapTargets] at ht
      obtain ⟨s, hs, rfl⟩ := List.mem_map.mp ht
      exact ⟨s, .inl ⟨own, List.mem_of_getElem? hown, hs⟩, rfl⟩
  · obtain ⟨own, hown, rfl⟩ := List.mem_map.mp hh
    exact ⟨own.entry, .inr ⟨own, hown, rfl⟩, rfl⟩

theorem exists_place_of_returnsAt (plain : Plain lead gap) {r : Nat}
    (h : (c.threaded lead gap).ReturnsAt r) :
    ∃ k < c.size, r = place gap lead.length k ∧ c.ReturnsAt k := by
  obtain ⟨i, hi, hreturn⟩ := h
  obtain ⟨-, hput⟩ | ⟨k, own, hown, rfl, rfl⟩ := inserted_or_own hi
  · have falls := (straight_of_ne_place plain hi hput).falls
    simp [Opcode.fallsThrough_of_isReturn hreturn] at falls
  · exact ⟨k, (List.getElem?_eq_some_iff.mp hown).1, rfl, own, hown, hreturn⟩

/-- The instructions of the body raise what they did and those that were put in nothing. -/
def ownRaises (lead : List Instruction) (gap : Nat → List Instruction) (c : Code)
    (raises : Nat → Prop) (j : Nat) : Prop :=
  ∃ k < c.size, raises k ∧ j = place gap lead.length k

theorem covers_moved {h : Handler} {k : Nat} :
    (h.moved (anchor gap lead.length)).Covers (place gap lead.length k) ↔ h.Covers k := by
  change anchor gap lead.length h.start ≤ place gap lead.length k ∧
    place gap lead.length k < anchor gap lead.length h.stop ↔ h.start ≤ k ∧ k < h.stop
  rw [← Nat.not_lt, place_lt_anchor_iff, place_lt_anchor_iff, Nat.not_lt]

theorem Follows.eq_succ (plain : Plain lead gap) {j j' : Nat} {past : List Nat}
    (h : (c.threaded lead gap).Follows (ownRaises lead gap c raises) (j :: past) j')
    (hj : ∀ k, j ≠ place gap lead.length k) : j' = j + 1 := by
  cases h with
  | next => rfl
  | jump hi ht => simp [(straight_of_ne_place plain hi hj).targets] at ht
  | back hi hret =>
    have falls := (straight_of_ne_place plain hi hj).falls
    simp [hret, show Opcode.fallsThrough Opcode.ret = false from rfl] at falls
  | raise hraises =>
    obtain ⟨k, -, -, hk⟩ := hraises
    exact absurd hk (hj k)

/-! ### From one body to the other -/

def expand (lead : List Instruction) (gap : Nat → List Instruction) : List Nat → List Nat
  | [] => climb 0 lead.length
  | k :: past => climb (anchor gap lead.length k) ((gap k).length + 1) ++ expand lead gap past

theorem expand_cons (k : Nat) (past : List Nat) :
    expand lead gap (k :: past) = place gap lead.length k ::
      (climb (anchor gap lead.length k) (gap k).length ++ expand lead gap past) := rfl

theorem mem_expand {path : List Nat} {k : Nat} :
    place gap lead.length k ∈ expand lead gap path ↔ k ∈ path := by
  induction path with
  | nil =>
    have := length_lead_le_place lead gap k
    simp only [expand, mem_climb, List.not_mem_nil, iff_false]
    omega
  | cons r past ih =>
    rw [expand, List.mem_append, ih, mem_climb, List.mem_cons]
    refine or_congr_left ⟨fun h => place_eq_of_between h.1 (Nat.lt_succ_iff.mp h.2), ?_⟩
    rintro rfl
    exact ⟨anchor_le_place gap lead.length k, Nat.lt_succ_self _⟩

theorem place_not_mem_climb (k r : Nat) :
    place gap lead.length r ∉ climb (anchor gap lead.length k) (gap k).length := by
  intro h
  obtain ⟨hle, hlt⟩ := mem_climb.mp h
  obtain rfl := place_eq_of_between hle (Nat.le_of_lt hlt)
  exact Nat.lt_irrefl _ hlt

theorem follows_expand (plain : Plain lead gap) {k : Nat} {past : List Nat} (hk : k < c.size)
    {j : Nat} :
    (c.threaded lead gap).Follows (ownRaises lead gap c raises) (expand lead gap (k :: past)) j ↔
      ∃ s, c.Follows raises (k :: past) s ∧ j = anchor gap lead.length s := by
  obtain ⟨own, hown⟩ : ∃ own, c.instructions[k]? = some own := ⟨_, List.getElem?_eq_getElem hk⟩
  have hplace : (c.threaded lead gap).instructions[place gap lead.length k]? =
      some (own.mapTargets (anchor gap lead.length)) := getElem?_place hown
  rw [expand_cons]
  constructor
  · intro h
    cases h with
    | next hi hfalls =>
      rw [hplace] at hi
      cases hi
      exact ⟨k + 1, .next hown hfalls, rfl⟩
    | jump hi ht =>
      rw [hplace] at hi
      cases hi
      rw [Instruction.targets_mapTargets] at ht
      obtain ⟨s, hs, rfl⟩ := List.mem_map.mp ht
      exact ⟨s, .jump hown hs, rfl⟩
    | back hi hret hs hj hcall =>
      rw [hplace] at hi
      cases hi
      obtain ⟨-, hne⟩ | ⟨r, call, hr, rfl, rfl⟩ := inserted_or_own hj
      · have falls := (straight_of_ne_place plain hj hne).falls
        simp [Opcode.fallsThrough_of_isSubroutineCall hcall] at falls
      · have hpast := (List.mem_append.mp hs).resolve_left (place_not_mem_climb k r)
        exact ⟨r + 1, .back hown hret (mem_expand.mp hpast) hr hcall, rfl⟩
    | raise hraises hh hcovers =>
      obtain ⟨r, -, hr, hkr⟩ := hraises
      obtain rfl := (strictMono_place gap lead.length).injective hkr
      obtain ⟨h, hown', rfl⟩ := List.mem_map.mp hh
      exact ⟨h.entry, .raise hr hown' (covers_moved.mp hcovers), rfl⟩
  · intro h
    obtain ⟨s, h, rfl⟩ := h
    cases h with
    | next hi hfalls =>
      rw [hown] at hi
      cases hi
      exact .next hplace hfalls
    | jump hi ht =>
      rw [hown] at hi
      cases hi
      refine .jump hplace ?_
      rw [Instruction.targets_mapTargets]
      exact List.mem_map_of_mem ht
    | back hi hret hs hj hcall =>
      rw [hown] at hi
      cases hi
      refine .back hplace hret ?_ (getElem?_place hj) hcall
      exact List.mem_append_right _ (mem_expand.mpr hs)
    | raise hraises hh hcovers =>
      exact .raise ⟨k, hk, hraises, rfl⟩ (List.mem_map_of_mem hh) (covers_moved.mpr hcovers)

theorem Path.expand (plain : Plain lead gap) {path : List Nat} (h : c.Path raises path) :
    (c.threaded lead gap).Path (ownRaises lead gap c raises) (expand lead gap path) := by
  induction h with
  | entry hpos =>
    have hexpand : Code.expand lead gap [0] = climb 0 (place gap lead.length 0 + 1) ++ [] := by
      rw [List.append_nil, place, anchor, Nat.add_assoc, climb_add, Nat.zero_add]
      rfl
    rw [hexpand]
    refine Path.climbs (.entry (Nat.zero_lt_of_lt (place_lt_size_iff.mpr hpos))) ?_
      fun j _ hlt i hi => ?_
    · rw [Nat.zero_add]
      exact place_lt_size_iff.mpr hpos
    · rw [Nat.zero_add] at hlt
      refine (straight_of_ne_place plain hi fun k hk => Nat.not_le.mpr hlt ?_).falls
      exact hk ▸ (strictMono_place gap lead.length).monotone (Nat.zero_le k)
  | @step past k hpast hfollows hk ih =>
    cases past with
    | nil => cases hfollows
    | cons r past =>
      have hr := hpast.lt_size r List.mem_cons_self
      have hstep := (follows_expand plain hr).mpr ⟨k, hfollows, rfl⟩
      have hle := anchor_le_place gap lead.length k
      have hplace : place gap lead.length k < (c.threaded lead gap).size :=
        place_lt_size_iff.mpr hk
      refine Path.climbs (.step ih hstep (hle.trans_lt hplace)) hplace ?_
      intro j hj hlt i hi
      refine (straight_of_ne_place plain hi fun s hs => ?_).falls
      exact place_not_mem_climb k s (hs ▸ mem_climb.mpr ⟨hj, hlt⟩)

/-- Every path of the threaded body is still in front of the body, or follows a path of the
body and has come to some instruction before the next one or to that one. -/
theorem exists_of_path (plain : Plain lead gap) {path : List Nat}
    (h : (c.threaded lead gap).Path (ownRaises lead gap c raises) path) :
    (∃ j < lead.length, path = climb 0 (j + 1)) ∨
      ∃ k past, c.Path raises (k :: past) ∧ ∃ n ≤ (gap k).length,
        path = climb (anchor gap lead.length k) (n + 1) ++ Code.expand lead gap past := by
  have hmono := strictMono_anchor gap lead.length
  -- A step either climbs on among the instructions that were put in or is one of the body.
  induction h with
  | entry hpos =>
    obtain hzero | hlead := Nat.eq_zero_or_pos lead.length
    · rw [size_threaded] at hpos
      have hsize : 0 < c.size := by
        refine Nat.pos_of_ne_zero fun h => ?_
        rw [h, anchor, hzero] at hpos
        exact Nat.lt_irrefl 0 hpos
      refine .inr ⟨0, [], .entry hsize, 0, Nat.zero_le _, ?_⟩
      simp [Code.expand, climb, anchor, hzero]
    · exact .inl ⟨0, hlead, rfl⟩
  | @step past j' _ hfollows hlt ih =>
    rw [size_threaded] at hlt
    obtain ⟨j, hj, rfl⟩ | ⟨k, past, hpath, n, hn, rfl⟩ := ih
    · have hne : ∀ k, 0 + j ≠ place gap lead.length k := by
        intro k hk
        have := length_lead_le_place lead gap k
        omega
      obtain rfl := hfollows.eq_succ plain hne
      obtain hlt' | heq := Nat.lt_or_eq_of_le (Nat.succ_le_of_lt hj)
      · exact .inl ⟨j + 1, hlt', by rw [climb.eq_2 0 (j + 1), Nat.add_assoc]⟩
      · have hsize : 0 < c.size := hmono.lt_iff_lt.mp (by rw [anchor]; omega)
        refine .inr ⟨0, [], .entry hsize, 0, Nat.zero_le _, ?_⟩
        rw [Code.expand, ← heq, Nat.succ_eq_add_one, Nat.zero_add]
        simp [climb, anchor]
    · obtain hlt' | rfl := Nat.lt_or_eq_of_le hn
      · have hne : ∀ r, anchor gap lead.length k + n ≠ place gap lead.length r := fun r hr =>
          place_not_mem_climb k r (hr ▸ mem_climb.mpr ⟨Nat.le_add_right _ _, by omega⟩)
        obtain rfl := hfollows.eq_succ plain hne
        exact .inr ⟨k, past, hpath, n + 1, hlt', rfl⟩
      · have hk := hpath.lt_size k List.mem_cons_self
        obtain ⟨s, hs, rfl⟩ := (follows_expand plain hk).mp hfollows
        exact .inr ⟨s, k :: past, .step hpath hs (hmono.lt_iff_lt.mp hlt), 0, Nat.zero_le _, rfl⟩

theorem exists_expand_of_path (plain : Plain lead gap) {r : Nat} {past : List Nat}
    (h : (c.threaded lead gap).Path (ownRaises lead gap c raises)
      (place gap lead.length r :: past)) :
    ∃ past', c.Path raises (r :: past') ∧
      place gap lead.length r :: past = Code.expand lead gap (r :: past') := by
  obtain ⟨j, hj, heq⟩ | ⟨k, past', hpath, n, hn, heq⟩ := exists_of_path plain h
  · have hr : place gap lead.length r = 0 + j := (List.cons.inj heq).1
    have := length_lead_le_place lead gap r
    omega
  · have hr : place gap lead.length r = anchor gap lead.length k + n := (List.cons.inj heq).1
    have hle : place gap lead.length r ≤ place gap lead.length k :=
      hr ▸ Nat.add_le_add_left hn _
    obtain rfl := place_eq_of_between (hr ▸ Nat.le_add_right _ _) hle
    obtain rfl : (gap r).length = n := Nat.add_left_cancel hr
    exact ⟨past', hpath, heq⟩

/-! ### Instructions on a path -/

theorem trace_climb {a : Nat} {is : List Instruction}
    (h : ∀ j < is.length, c.instructions[a + j]? = is[j]?) :
    c.trace (climb a is.length) = is.reverse := by
  have upTo : ∀ n ≤ is.length, c.trace (climb a n) = (is.take n).reverse := by
    intro n hn
    induction n with
    | zero => simp [climb, trace]
    | succ n ih =>
      have hlast : c.instructions[a + n]? = some is[n] :=
        (h n hn).trans (List.getElem?_eq_getElem hn)
      rw [climb, trace, List.filterMap_cons_some hlast, ← trace, ih (Nat.le_of_succ_le hn),
        List.take_succ_eq_append_getElem hn, List.reverse_append]
      rfl
  rw [upTo is.length (Nat.le_refl _), List.take_length]

theorem trace_expand_nil : (c.threaded lead gap).trace (expand lead gap []) = lead.reverse :=
  trace_climb fun j hj => by rw [Nat.zero_add, getElem?_lead hj]

theorem trace_expand_cons {k : Nat} {own : Instruction} (hown : c.instructions[k]? = some own)
    (past : List Nat) :
    (c.threaded lead gap).trace (expand lead gap (k :: past)) =
      own.mapTargets (anchor gap lead.length) ::
        ((gap k).reverse ++ (c.threaded lead gap).trace (expand lead gap past)) := by
  have hk : k < c.size := (List.getElem?_eq_some_iff.mp hown).1
  have hgap : (c.threaded lead gap).trace (climb (anchor gap lead.length k) (gap k).length) =
      (gap k).reverse := trace_climb fun j hj => getElem?_gap hk hj
  rw [expand_cons, trace, List.filterMap_cons_some (getElem?_place hown), List.filterMap_append,
    ← trace, ← trace, hgap]

end Code

end PluginGuard.ClassFile
