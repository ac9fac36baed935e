import PluginGuard.Proofs.ClassFile.Code.WellFormed

/-!
# Where instructions stand

The offsets of a layout are the running sums of the instruction sizes, and as
every instruction takes a byte at least they climb. Over climbing offsets the
boundaries of a body name each instruction from its offset and nothing else.
-/
namespace PluginGuard.ClassFile

/-! ### Climbing offsets -/

def Climbs (f : Nat → Nat) (n : Nat) : Prop := ∀ k < n, f k < f (k + 1)

namespace Climbs

variable {f : Nat → Nat} {n : Nat}

theorem lt (h : Climbs f n) {i j : Nat} (hij : i < j) (hj : j ≤ n) : f i < f j := by
  induction j with
  | zero => omega
  | succ j ih =>
    have hstep := h j (by omega)
    by_cases hi : i = j
    · subst hi
      exact hstep
    · exact Nat.lt_trans (ih (by omega) (by omega)) hstep

theorem le (h : Climbs f n) {i j : Nat} (hij : i ≤ j) (hj : j ≤ n) : f i ≤ f j := by
  rcases Nat.eq_or_lt_of_le hij with rfl | hlt
  · exact Nat.le_refl _
  · exact Nat.le_of_lt (h.lt hlt hj)

theorem inj (h : Climbs f n) {i j : Nat} (hi : i ≤ n) (hj : j ≤ n) (he : f i = f j) : i = j := by
  rcases Nat.lt_trichotomy i j with hlt | heq | hgt
  · have := h.lt hlt hj
    omega
  · exact heq
  · have := h.lt hgt hi
    omega

end Climbs

/-! ### Boundaries -/

def entered (starts : List Nat) (length : Nat) : Array (Option Nat) :=
  starts.zipIdx.foldl (fun a (pc, i) => a.setIfInBounds pc (some i))
    (Array.replicate (length + 1) none)

theorem entered_append (starts : List Nat) (pc length : Nat) :
    entered (starts ++ [pc]) length =
      (entered starts length).setIfInBounds pc (some starts.length) := by
  simp [entered, List.zipIdx_append]

theorem size_entered (starts : List Nat) (length : Nat) :
    (entered starts length).size = length + 1 := by
  have fold : ∀ (xs : List (Nat × Nat)) (a : Array (Option Nat)),
      (xs.foldl (fun a (pc, i) => a.setIfInBounds pc (some i)) a).size = a.size := by
    intro xs
    induction xs with
    | nil => intro a; rfl
    | cons x xs ih => intro a; simp [ih]
  simp [entered, fold]

theorem getElem?_entered {f : Nat → Nat} {n m : Nat} (climbs : Climbs f n) (hm : m ≤ n + 1)
    (q i : Nat) :
    ((entered ((List.range m).map f) (f n))[q]?).join = some i ↔ i < m ∧ f i = q := by
  induction m generalizing q i with
  | zero =>
    simp only [List.range_zero, List.map_nil, entered, List.zipIdx_nil, List.foldl_nil,
      Array.getElem?_replicate]
    split <;> simp
  | succ m ih =>
    have hbound : f m < f n + 1 := Nat.lt_succ_of_le (climbs.le (by omega) (Nat.le_refl n))
    rw [List.range_succ, List.map_append, List.map_singleton, entered_append,
      Array.getElem?_setIfInBounds, size_entered, List.length_map, List.length_range]
    -- The place entered last hides no other, as no two places share an offset.
    by_cases hq : f m = q
    · rw [if_pos hq, if_pos hbound, Option.join_some, Option.some.injEq]
      constructor
      · intro h
        subst h
        exact ⟨Nat.lt_succ_self m, hq⟩
      · intro h
        rcases h with ⟨hi, hfi⟩
        exact climbs.inj (by omega) (by omega) (hq.trans hfi.symm)
    · rw [if_neg hq, ih (by omega)]
      constructor
      · intro h
        rcases h with ⟨hi, hfi⟩
        exact ⟨by omega, hfi⟩
      · intro h
        rcases h with ⟨hi, hfi⟩
        refine ⟨?_, hfi⟩
        rcases Nat.lt_succ_iff_lt_or_eq.mp hi with hlt | rfl
        · exact hlt
        · exact absurd hfi hq

namespace Boundaries

def along (f : Nat → Nat) (n : Nat) : Boundaries := ofStarts ((List.range n).map f) (f n)

theorem indexAt_along (f : Nat → Nat) (n : Nat) :
    (along f n).indexAt = entered ((List.range (n + 1)).map f) (f n) := by
  rw [List.range_succ, List.map_append, List.map_singleton, entered_append]
  rfl

theorem count_along (f : Nat → Nat) (n : Nat) : (along f n).count = n := by
  simp [along, ofStarts]

variable {f : Nat → Nat} {n : Nat}

theorem endAt_eq_ok (climbs : Climbs f n) {pc i : Nat} :
    (along f n).endAt pc = .ok i ↔ i ≤ n ∧ f i = pc := by
  rw [← Nat.lt_succ_iff, ← getElem?_entered climbs (Nat.le_refl _), ← indexAt_along, endAt]
  cases ((along f n).indexAt[pc]?).join with
  | none => simp
  | some j => simp

theorem startAt_eq_ok (climbs : Climbs f n) {pc i : Nat} :
    (along f n).startAt pc = .ok i ↔ i < n ∧ f i = pc := by
  have hend := @endAt_eq_ok f n climbs pc i
  rw [endAt] at hend
  rw [startAt, count_along]
  cases hj : ((along f n).indexAt[pc]?).join with
  | none =>
    simp only [hj, reduceCtorEq, false_iff, not_and] at hend ⊢
    exact fun hi => hend (Nat.le_of_lt hi)
  | some j =>
    simp only [hj, Except.ok.injEq] at hend ⊢
    split
    · next hlt =>
      rw [Except.ok.injEq]
      constructor
      · intro h
        subst h
        exact ⟨hlt, (hend.mp rfl).2⟩
      · intro h
        rcases h with ⟨hi, hfi⟩
        exact hend.mpr ⟨Nat.le_of_lt hi, hfi⟩
    · next hge =>
      simp only [reduceCtorEq, false_iff, not_and]
      intro hi hfi
      obtain rfl := hend.mpr ⟨Nat.le_of_lt hi, hfi⟩
      exact hge hi

end Boundaries

/-! ### Running sums -/

theorem Instruction.size_pos (i : Instruction) (pc : Nat) (widened : Bool) :
    0 < i.size pc widened := by
  unfold Instruction.size
  cases i.operand with
  | constant | slot | iinc | branch =>
    simp only
    split <;> omega
  | _ =>
    simp only
    omega

def placesFrom : Nat → Widening → List Nat
  | pc, [] => [pc]
  | pc, x :: w => pc :: placesFrom (pc + x.1.size pc x.2) w

theorem toList_offsetsOf (w : Widening) : (offsetsOf w).toList = placesFrom 0 w := by
  have fold : ∀ (w : Widening) (a : Array Nat) (pc : Nat),
      let r := w.foldl (fun (st : Array Nat × Nat) (x : Instruction × Bool) =>
        (st.1.push st.2, st.2 + x.1.size st.2 x.2)) (a, pc)
      (r.1.push r.2).toList = a.toList ++ placesFrom pc w := by
    intro w
    induction w with
    | nil => intro a pc; simp [placesFrom]
    | cons x w ih => intro a pc; simpa [placesFrom] using ih (a.push pc) (pc + x.1.size pc x.2)
  simpa [offsetsOf] using fold w #[] 0

def BodyLayout.Runs (l : BodyLayout) : Nat → Widening → Prop
  | _, [] => True
  | k, x :: w => l.offset (k + 1) = l.offset k + x.1.size (l.offset k) x.2 ∧ l.Runs (k + 1) w

theorem BodyLayout.runs_of_places {l : BodyLayout} {w : Widening} {before : List Nat} {pc : Nat}
    (h : l.offsets.toList = before ++ placesFrom pc w) :
    l.offset before.length = pc ∧ l.Runs before.length w := by
  have hoffset : ∀ k, l.offset k = (before ++ placesFrom pc w).getD k 0 := by
    intro k
    rw [BodyLayout.offset, ← h]
    simp
  induction w generalizing before pc with
  | nil => exact ⟨by simp [hoffset, placesFrom], trivial⟩
  | cons x w ih =>
    have hhere : l.offset before.length = pc := by simp [hoffset, placesFrom]
    have happ : before ++ placesFrom pc (x :: w) =
        (before ++ [pc]) ++ placesFrom (pc + x.1.size pc x.2) w := by simp [placesFrom]
    rw [happ] at h
    simp only [happ] at hoffset
    obtain ⟨hnext, hruns⟩ := ih h hoffset
    simp only [List.length_append, List.length_singleton] at hnext hruns
    exact ⟨hhere, by rw [hnext, hhere], hruns⟩

theorem BodyLayout.Runs.step {l : BodyLayout} {w : Widening} {k j : Nat} {x : Instruction × Bool}
    (h : l.Runs k w) (hx : w[j]? = some x) :
    l.offset (k + j + 1) = l.offset (k + j) + x.1.size (l.offset (k + j)) x.2 := by
  induction w generalizing k j with
  | nil => simp at hx
  | cons y w ih =>
    cases j with
    | zero =>
      obtain rfl : y = x := by simpa using hx
      exact h.1
    | succ j =>
      have := ih h.2 (by simpa using hx)
      rwa [Nat.add_right_comm k 1 j] at this

theorem BodyLayout.Runs.climbs {l : BodyLayout} {w : Widening} (h : l.Runs 0 w) :
    Climbs l.offset w.length := by
  intro k hk
  have hstep := h.step (List.getElem?_eq_getElem hk)
  rw [Nat.zero_add] at hstep
  have := Instruction.size_pos w[k].1 (l.offset k) w[k].2
  omega

end PluginGuard.ClassFile
