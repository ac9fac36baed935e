import Mathlib.Data.List.Forall2
import Mathlib.Data.List.Infix
import PluginGuard.Text.Wildcard

/-!
# What patterns match

A pattern matches an input that can be cut into pieces, one for each character of
the pattern. The matcher falls back to the last star only, and that loses
nothing: whatever an earlier star could still take, the last one can take too.
What it does lose is a star of the pattern that it reaches at a star of the
input, which it takes for the character itself. On inputs without a star it is
exact.
-/
namespace PluginGuard.Text.Wildcard

def Takes (q : Char) (piece : List Char) : Prop :=
  if q = '*' then True else if q = '?' then piece.length = 1 else piece = [q]

/-- The input is cut into consecutive pieces, one for each character of the pattern. -/
def Matches (p s : List Char) : Prop :=
  ∃ pieces, List.Forall₂ Takes p pieces ∧ pieces.flatten = s

/-! ### Matching along the pattern -/

theorem takes_star (piece : List Char) : Takes '*' piece := trivial

theorem takes_of_ne_star {q : Char} {piece : List Char} (hq : q ≠ '*') :
    Takes q piece ↔ ∃ c, piece = [c] ∧ (q = '?' ∨ q = c) := by
  rw [Takes, if_neg hq]
  split
  · next hany => simp [hany, List.length_eq_one_iff]
  · next hplain =>
    constructor
    · intro h
      exact ⟨q, h, .inr rfl⟩
    · rintro ⟨c, rfl, h | rfl⟩
      · exact absurd h hplain
      · rfl

theorem matches_nil {s : List Char} : Matches [] s ↔ s = [] := by
  simp [Matches, eq_comm]

theorem matches_cons {q : Char} {p s : List Char} :
    Matches (q :: p) s ↔ ∃ piece rest, Takes q piece ∧ Matches p rest ∧ s = piece ++ rest := by
  constructor
  · rintro ⟨_, hpieces, rfl⟩
    cases hpieces with
    | cons hq hp => exact ⟨_, _, hq, ⟨_, hp, rfl⟩, rfl⟩
  · rintro ⟨piece, _, hq, ⟨pieces, hp, rfl⟩, rfl⟩
    exact ⟨piece :: pieces, .cons hq hp, rfl⟩

theorem matches_append {p p' s : List Char} :
    Matches (p ++ p') s ↔ ∃ u v, Matches p u ∧ Matches p' v ∧ s = u ++ v := by
  induction p generalizing s with
  | nil => simp [matches_nil]
  | cons q p ih =>
    rw [List.cons_append, matches_cons]
    constructor
    · rintro ⟨piece, rest, hq, hp, rfl⟩
      obtain ⟨u, v, hu, hv, rfl⟩ := ih.mp hp
      exact ⟨piece ++ u, v, matches_cons.mpr ⟨piece, u, hq, hu, rfl⟩, hv,
        (List.append_assoc ..).symm⟩
    · rintro ⟨_, v, hqp, hv, rfl⟩
      obtain ⟨piece, u, hq, hu, rfl⟩ := matches_cons.mp hqp
      exact ⟨piece, u ++ v, hq, ih.mpr ⟨u, v, hu, hv, rfl⟩, List.append_assoc ..⟩

theorem matches_star {p s : List Char} :
    Matches ('*' :: p) s ↔ ∃ rest, rest <:+ s ∧ Matches p rest := by
  rw [matches_cons]
  constructor
  · rintro ⟨piece, rest, -, hp, rfl⟩
    exact ⟨rest, List.suffix_append .., hp⟩
  · rintro ⟨rest, ⟨piece, rfl⟩, hp⟩
    exact ⟨piece, rest, takes_star piece, hp, rfl⟩

theorem matches_star_cons {p s : List Char} {c : Char} :
    Matches ('*' :: p) (c :: s) ↔ Matches p (c :: s) ∨ Matches ('*' :: p) s := by
  simp only [matches_star, List.suffix_cons_iff, or_and_right, exists_or, exists_eq_left]

theorem matches_one {q c : Char} {p s : List Char} (hq : q ≠ '*') :
    Matches (q :: p) (c :: s) ↔ (q = '?' ∨ q = c) ∧ Matches p s := by
  simp only [matches_cons, takes_of_ne_star hq]
  constructor
  · rintro ⟨_, rest, ⟨d, rfl, hd⟩, hp, heq⟩
    obtain ⟨rfl, rfl⟩ : c = d ∧ s = rest := by simpa using heq
    exact ⟨hd, hp⟩
  · rintro ⟨hc, hp⟩
    exact ⟨[c], s, ⟨c, rfl, hc⟩, hp, rfl⟩

theorem length_of_matches {p s : List Char} (hp : '*' ∉ p) (h : Matches p s) :
    s.length = p.length := by
  induction p generalizing s with
  | nil => rw [matches_nil.mp h]
  | cons q p ih =>
    rw [List.mem_cons, not_or] at hp
    obtain ⟨hq, hp⟩ := hp
    obtain ⟨piece, rest, htakes, hrest, rfl⟩ := matches_cons.mp h
    obtain ⟨c, rfl, -⟩ := (takes_of_ne_star (Ne.symm hq)).mp htakes
    simp [ih hp hrest]

theorem onlyStars_iff {p : List Char} : onlyStars p = true ↔ Matches p [] := by
  induction p with
  | nil => simp [onlyStars, matches_nil]
  | cons q p ih =>
    rw [onlyStars, Bool.and_eq_true, beq_iff_eq, ih]
    constructor
    · rintro ⟨rfl, hp⟩
      exact matches_star.mpr ⟨[], List.suffix_refl _, hp⟩
    · intro h
      by_cases hq : q = '*'
      · subst hq
        obtain ⟨rest, hrest, hp⟩ := matches_star.mp h
        rw [List.suffix_nil.mp hrest] at hp
        exact ⟨rfl, hp⟩
      · obtain ⟨piece, rest, htakes, -, heq⟩ := matches_cons.mp h
        obtain ⟨c, rfl, -⟩ := (takes_of_ne_star hq).mp htakes
        simp at heq

/-! ### States of the matcher -/

variable {pattern input p q s t : List Char} {q' c : Char} {last : Fallback}

/-- `p` is left of the pattern and `s` of the input, and what is gone of the one
matches what is gone of the other. -/
def Reached (pattern input p s : List Char) : Prop :=
  ∃ u v, pattern = u ++ p ∧ input = v ++ s ∧ Matches u v

/-- No star of the pattern is reached at a star of the input. -/
def Apart (pattern input : List Char) : Prop :=
  ∀ p s, ¬Reached pattern input ('*' :: p) ('*' :: s)

/-- The last star stands right before `q` and has taken the input up to `t`; from
there matching went on without a star. -/
structure Resumes (pattern input p s q t : List Char) : Prop where
  star : ∃ u v, pattern = u ++ '*' :: q ∧ input = v ++ t ∧ Matches (u ++ ['*']) v
  since : ∃ u v, q = u ++ p ∧ t = v ++ s ∧ '*' ∉ u ∧ u.length = v.length

structure Reachable (pattern input p s : List Char) (last : Fallback) : Prop where
  reached : Reached pattern input p s
  resumes : ∀ q t, last = some (q, t) → Resumes pattern input p s q t

/-- The rest matches, or will once the last star has taken more. -/
def Open (p s : List Char) (last : Fallback) : Prop :=
  Matches p s ∨ ∃ q c t, last = some (q, c :: t) ∧ Matches ('*' :: q) t

/-- Steps that are left at most, in units of a pattern of length `n`. -/
def budget (n : Nat) (p s : List Char) : Fallback → Nat
  | none => s.length * (n + 2) + p.length
  | some (_, t) => t.length * (n + 2) + p.length

theorem Resumes.reached (h : Resumes pattern input p s q t) : Reached pattern input q t := by
  obtain ⟨u, v, hpattern, hinput, hmatch⟩ := h.star
  exact ⟨u ++ ['*'], v, by simp [hpattern], hinput, hmatch⟩

theorem Reached.advance (h : Reached pattern input (q' :: p) (c :: s)) (hne : q' ≠ '*')
    (hq : q' = '?' ∨ q' = c) : Reached pattern input p s := by
  obtain ⟨u, v, rfl, rfl, hmatch⟩ := h
  refine ⟨u ++ [q'], v ++ [c], by simp, by simp, matches_append.mpr ⟨v, [c], hmatch, ?_, rfl⟩⟩
  exact (matches_one hne).mpr ⟨hq, matches_nil.mpr rfl⟩

namespace Reachable

theorem advance (h : Reachable pattern input (q' :: p) (c :: s) last) (hne : q' ≠ '*')
    (hq : q' = '?' ∨ q' = c) : Reachable pattern input p s last := by
  refine ⟨h.reached.advance hne hq, ?_⟩
  intro q t hlast
  obtain ⟨hstar, u, v, rfl, rfl, hu, hlength⟩ := h.resumes q t hlast
  refine ⟨hstar, u ++ [q'], v ++ [c], by simp, by simp, ?_, by simp [hlength]⟩
  simp [hu, hne.symm]

theorem star (h : Reachable pattern input ('*' :: p) s last) :
    Reachable pattern input p s (some (p, s)) := by
  obtain ⟨u, v, hpattern, hinput, hmatch⟩ := h.reached
  have hstar : Matches (u ++ ['*']) v :=
    matches_append.mpr ⟨v, [], hmatch,
      matches_star.mpr ⟨[], List.suffix_refl _, matches_nil.mpr rfl⟩, by simp⟩
  refine ⟨⟨u ++ ['*'], v, by simp [hpattern], hinput, hstar⟩, ?_⟩
  rintro _ _ ⟨⟩
  exact ⟨⟨u, v, hpattern, hinput, hstar⟩, [], [], rfl, rfl, by simp, rfl⟩

theorem retry (h : Reachable pattern input p s (some (q, c :: t))) :
    Reachable pattern input q t (some (q, t)) := by
  obtain ⟨u, v, hpattern, hinput, hmatch⟩ := (h.resumes q (c :: t) rfl).star
  obtain ⟨w, x, hw, -, rfl⟩ := matches_append.mp hmatch
  -- The star takes the character in front of `t` too.
  have hstar : Matches (u ++ ['*']) (w ++ x ++ [c]) :=
    matches_append.mpr ⟨w, x ++ [c], hw,
      matches_star.mpr ⟨[], List.nil_suffix, matches_nil.mpr rfl⟩, by simp⟩
  have hresumes : Resumes pattern input q t q t :=
    ⟨⟨u, w ++ x ++ [c], hpattern, by simp [hinput], hstar⟩, [], [], rfl, rfl, by simp, rfl⟩
  refine ⟨hresumes.reached, ?_⟩
  rintro _ _ ⟨⟩
  exact hresumes

end Reachable

/-! ### Nothing is lost by a step -/

theorem open_advance (hne : q' ≠ '*') (hq : q' = '?' ∨ q' = c) :
    Open (q' :: p) (c :: s) last ↔ Open p s last := by
  simp [Open, matches_one hne, hq]

/-- What an earlier star could still reach, the new one reaches: between the two
stand characters for one each, so its share of the input is the longer. -/
theorem matches_of_earlier (h : Resumes pattern input ('*' :: p) s q (c :: t))
    (hmatch : Matches ('*' :: q) t) : Matches ('*' :: p) s := by
  obtain ⟨u, v, rfl, hv, hu, hlength⟩ := h.since
  obtain ⟨w, hw, hmatch⟩ := matches_star.mp hmatch
  obtain ⟨x, y, hx, hy, rfl⟩ := matches_append.mp hmatch
  obtain ⟨z, hz, hp⟩ := matches_star.mp hy
  have hsuffix : z <:+ c :: t :=
    (hz.trans (List.suffix_append x y)).trans (hw.trans (List.suffix_cons c t))
  have hle : z.length ≤ s.length := by
    have h₁ := hz.length_le
    have h₂ := hw.length_le
    have h₃ := length_of_matches hu hx
    have h₄ := congrArg List.length hv
    simp only [List.length_append, List.length_cons] at h₂ h₄
    omega
  exact matches_star.mpr
    ⟨z, List.suffix_of_suffix_length_le hsuffix (hv ▸ List.suffix_append v s) hle, hp⟩

theorem open_some_iff : Open q t (some (q, t)) ↔ Matches ('*' :: q) t := by
  cases t with
  | nil => simp [Open, matches_star, List.suffix_nil]
  | cons c t => simp [Open, matches_star_cons]

theorem open_star (h : Reachable pattern input ('*' :: p) s last) :
    Open ('*' :: p) s last ↔ Open p s (some (p, s)) := by
  rw [open_some_iff]
  constructor
  · rintro (hmatch | ⟨q, c, t, hlast, hmatch⟩)
    · exact hmatch
    · exact matches_of_earlier (h.resumes q (c :: t) hlast) hmatch
  · exact .inl

theorem open_retry (hno : ¬Matches p s) :
    Open p s (some (q, c :: t)) ↔ Open q t (some (q, t)) := by
  rw [open_some_iff]
  simp [Open, hno]

theorem open_nil (h : Reachable pattern input p [] last) : Open p [] last ↔ Matches p [] := by
  refine ⟨?_, .inl⟩
  rintro (hmatch | ⟨q, c, t, hlast, hmatch⟩)
  · exact hmatch
  · -- The characters since the last star alone are more than the input it leaves.
    obtain ⟨u, v, rfl, hv, hu, hlength⟩ := (h.resumes q (c :: t) hlast).since
    obtain ⟨w, hw, hmatch⟩ := matches_star.mp hmatch
    obtain ⟨x, y, hx, -, rfl⟩ := matches_append.mp hmatch
    have h₁ := hw.length_le
    have h₂ := length_of_matches hu hx
    have h₃ := congrArg List.length hv
    simp only [List.length_append, List.length_cons, List.length_nil] at h₁ h₃
    omega

/-! ### Whole runs -/

theorem budget_pos {n : Nat} (h : Reachable pattern input p (c :: s) last) :
    0 < budget n p (c :: s) last := by
  have pos {k : Nat} (hk : 0 < k) : 0 < k * (n + 2) + p.length :=
    Nat.add_pos_left (Nat.mul_pos hk (Nat.succ_pos _)) _
  cases last with
  | none => exact pos (Nat.succ_pos _)
  | some l =>
    obtain ⟨q, t⟩ := l
    obtain ⟨u, v, -, rfl, -⟩ := (h.resumes q t rfl).since
    exact pos (by rw [List.length_append]; exact Nat.add_pos_right _ (Nat.succ_pos _))

theorem budget_advance (n : Nat) :
    budget n p s last + 1 ≤ budget n (q' :: p) (c :: s) last := by
  cases last with
  | none =>
    simp only [budget, List.length_cons, Nat.succ_mul]
    omega
  | some l => simp [budget, Nat.add_assoc]

theorem budget_star {n : Nat} (h : Reachable pattern input ('*' :: p) s last) :
    budget n p s (some (p, s)) + 1 ≤ budget n ('*' :: p) s last := by
  cases last with
  | none => simp [budget, Nat.add_assoc]
  | some l =>
    obtain ⟨q, t⟩ := l
    obtain ⟨u, v, -, rfl, -⟩ := (h.resumes q t rfl).since
    simp only [budget, List.length_append, List.length_cons, Nat.add_mul]
    omega

theorem budget_retry (h : Reachable pattern input p s (some (q, c :: t))) :
    budget pattern.length q t (some (q, t)) + 1 ≤
      budget pattern.length p s (some (q, c :: t)) := by
  obtain ⟨u, v, hpattern, -⟩ := (h.resumes q (c :: t) rfl).star
  have hlength := congrArg List.length hpattern
  simp only [budget, List.length_append, List.length_cons, Nat.succ_mul] at hlength ⊢
  omega

def retry (n : Nat) : Fallback → Bool
  | some (q, _ :: t) => run n q t (some (q, t))
  | _ => false

theorem run_cons (n : Nat) (p : List Char) (c : Char) (s : List Char) (last : Fallback) :
    run (n + 1) p (c :: s) last =
      match step p c s with
      | .advance p' s' => run n p' s' last
      | .star p' => run n p' (c :: s) (some (p', c :: s))
      | .retry => retry n last := by
  obtain _ | ⟨q, _ | ⟨d, t⟩⟩ := last
  · rfl
  · rfl
  · rfl

theorem run_eq_true_iff {n : Nat} (apart : Apart pattern input)
    (h : Reachable pattern input p s last) (hn : budget pattern.length p s last ≤ n) :
    run n p s last = true ↔ Open p s last := by
  induction n generalizing p s last with
  | zero =>
    cases s with
    | nil => rw [run, onlyStars_iff, open_nil h]
    | cons c s =>
      have hpos := @budget_pos _ _ _ _ _ _ pattern.length h
      omega
  | succ n ih =>
    cases s with
    | nil => rw [run, onlyStars_iff, open_nil h]
    | cons c s =>
      -- Where nothing matches, the last star has to take more.
      have retried (hno : ¬Matches p (c :: s)) : retry n last = true ↔ Open p (c :: s) last := by
        obtain _ | ⟨q, _ | ⟨d, t⟩⟩ := last
        · simp [retry, Open, hno]
        · simp [retry, Open, hno]
        · have hbudget := budget_retry h
          rw [retry, open_retry hno, ih h.retry (by omega)]
      rw [run_cons]
      cases p with
      | nil => exact retried (by simp [matches_nil])
      | cons q p =>
        rw [step]
        split_ifs with hq hstar
        · have hne : q ≠ '*' := by
            rintro rfl
            obtain hc | rfl := hq
            · exact absurd hc (by decide)
            · exact apart p s h.reached
          have hbudget := @budget_advance p s q c last pattern.length
          simp only
          rw [ih (h.advance hne hq) (by omega), open_advance hne hq]
        · subst hstar
          have hbudget := @budget_star _ _ _ _ _ pattern.length h
          simp only
          rw [ih h.star (by omega), open_star h]
        · exact retried fun hmatch => hq ((matches_one hstar).mp hmatch).1

theorem accepts_iff (apart : Apart pattern input) :
    accepts pattern input = true ↔ Matches pattern input := by
  have hreached : Reached pattern input pattern input := ⟨[], [], rfl, rfl, matches_nil.mpr rfl⟩
  have h : Reachable pattern input pattern input none := ⟨hreached, by simp⟩
  rw [accepts, run_eq_true_iff apart h]
  · simp [Open]
  · rw [enough, budget, Nat.succ_mul]
    omega

/-- An input that a pattern matches is accepted, wherever its own wildcard
characters stand, unless one of its stars meets a star of the pattern. -/
theorem covers_of_matches {pattern input : String} (apart : Apart pattern.toList input.toList)
    (h : Matches pattern.toList input.toList) : covers pattern input = true :=
  (accepts_iff apart).mpr h

/-- A star of the input that no star of the pattern starts at does no harm. -/
theorem covers_of_matches_marks :
    Apart "a*c".toList "a?*c".toList ∧ Matches "a*c".toList "a?*c".toList ∧
      covers "a*c" "a?*c" = true := by
  have apart : Apart "a*c".toList "a?*c".toList := by
    rintro p s ⟨u, v, hu, hv, hmatch⟩
    obtain ⟨rfl, -⟩ : u = ['a'] ∧ p = ['c'] := by simpa [List.cons_eq_append_iff] using hu
    obtain ⟨rfl, -⟩ : v = ['a', '?'] ∧ s = ['c'] := by
      simpa [List.cons_eq_append_iff] using hv
    exact absurd (length_of_matches (by decide) hmatch) (by decide)
  have hmatch : Matches "a*c".toList "a?*c".toList :=
    ⟨[['a'], ['?', '*'], ['c']], by simp [Takes], rfl⟩
  exact ⟨apart, hmatch, covers_of_matches apart hmatch⟩

/-- A star that meets a star is taken for the character, and then takes nothing more. -/
theorem covers_star_at_star :
    Matches "/secret/*".toList "/secret/*x".toList ∧ covers "/secret/*" "/secret/*x" = false := by
  refine ⟨⟨[['/'], ['s'], ['e'], ['c'], ['r'], ['e'], ['t'], ['/'], ['*', 'x']], ?_, rfl⟩, ?_⟩
  · simp [Takes]
  · decide

/-! ### Inputs without a star -/

theorem apart_of_starless (h : '*' ∉ input) : Apart pattern input := by
  rintro p s ⟨u, v, -, rfl, -⟩
  exact h (List.mem_append_right v List.mem_cons_self)

/-- On an input without a star the matcher finds out whether any cut into pieces matches, however
many stars the pattern has. -/
theorem covers_iff_matches {pattern input : String} (h : '*' ∉ input.toList) :
    covers pattern input = true ↔ Matches pattern.toList input.toList :=
  accepts_iff (apart_of_starless h)

/-- The last star falls back from a `bc` that more follows, and the question mark needs a character
of its own. -/
theorem covers_iff_matches_backtracking :
    Matches "*ab*?bc".toList "abbcaabcbc".toList ∧ ¬Matches "*ab*?bc".toList "abbc".toList := by
  have hyes : covers "*ab*?bc" "abbcaabcbc" = true ↔ _ := covers_iff_matches (by decide)
  have hno : covers "*ab*?bc" "abbc" = true ↔ _ := covers_iff_matches (by decide)
  exact ⟨hyes.mp (by decide), fun h => absurd (hno.mpr h) (by decide)⟩

end PluginGuard.Text.Wildcard
