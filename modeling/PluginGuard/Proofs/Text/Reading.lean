import PluginGuard.Text.Pattern

/-!
# What patterns read

A place in a text lies between what stands before it and what follows. A pattern that starts there
reads a piece of what follows, in some ways; the one that is listed first is preferred, and of a run
that is the longest.
-/
namespace PluginGuard.Text

def Spot.between (before after : List Char) : Spot := ⟨before.getLast?, after⟩

namespace Pattern

variable {p q : Pattern} {test : Char → Bool} {n : Nat} {before u v after : List Char} {t : Spot}

def Reads (p : Pattern) (before u after : List Char) : Prop :=
  .between (before ++ u) after ∈ p.ends (.between before (u ++ after))

def Prefers (p : Pattern) (before u after : List Char) : Prop :=
  (p.ends (.between before (u ++ after))).head? = some (.between (before ++ u) after)

/-! ### Runs -/

theorem mem_runEnds {others : List Spot} {cs : List Char} :
    t ∈ runEnds test n others before.getLast? cs ↔ t ∈ others ∨ ∃ u after, cs = u ++ after ∧
      n ≤ u.length ∧ (∀ c ∈ u, test c) ∧ t = .between (before ++ u) after := by
  induction cs generalizing n others before with
  | nil => by_cases hn : n = 0 <;> simp [runEnds, Spot.between, hn, or_comm, and_assoc]
  | cons c cs ih =>
    have hstop : t ∈ (if n = 0 then ⟨before.getLast?, c :: cs⟩ :: others else others) ↔
        t ∈ others ∨ n = 0 ∧ t = .between before (c :: cs) := by
      split <;> simp_all [Spot.between, or_comm]
    have hgo : (∃ u after, c :: cs = u ++ after ∧ n ≤ u.length ∧ (∀ c ∈ u, test c) ∧
          t = .between (before ++ u) after) ↔
        n = 0 ∧ t = .between before (c :: cs) ∨ test c ∧ ∃ u after, cs = u ++ after ∧
          n - 1 ≤ u.length ∧ (∀ c ∈ u, test c) ∧ t = .between (before ++ [c] ++ u) after := by
      constructor
      · rintro ⟨u, after, hcs, hn, htest, rfl⟩
        cases u with
        | nil => exact .inl ⟨by simpa using hn, by simp_all⟩
        | cons d u =>
          obtain ⟨rfl, rfl⟩ := List.cons.inj hcs
          refine .inr ⟨htest _ List.mem_cons_self, u, after, rfl, ?_, ?_, by simp⟩
          · rw [List.length_cons] at hn
            omega
          · exact fun d hd => htest d (List.mem_cons_of_mem _ hd)
      · rintro (⟨rfl, rfl⟩ | ⟨hc, u, after, rfl, hn, htest, rfl⟩)
        · exact ⟨[], c :: cs, rfl, by simp, by simp, by simp⟩
        · refine ⟨c :: u, after, rfl, ?_, ?_, by simp⟩
          · rw [List.length_cons]
            omega
          · simpa [hc] using htest
    rw [hgo, runEnds]
    by_cases hc : test c
    · rw [if_pos hc, ← List.getLast?_concat (l := before), ih, hstop, or_assoc]
      simp [hc]
    · rw [if_neg hc, hstop]
      simp [hc]

theorem head?_runEnds (test : Char → Bool) (n : Nat) (others : List Spot)
    (before cs : List Char) :
    (runEnds test n others before.getLast? cs).head? =
      if n ≤ (cs.takeWhile test).length then
        some (.between (before ++ cs.takeWhile test) (cs.dropWhile test))
      else others.head? := by
  induction cs generalizing n others before with
  | nil => by_cases hn : n = 0 <;> simp [runEnds, Spot.between, hn]
  | cons c cs ih =>
    rw [runEnds]
    by_cases hc : test c
    · rw [if_pos hc, ← List.getLast?_concat (l := before), ih]
      by_cases hn : n = 0
      · simp [hc, hn]
      · have hle : n - 1 ≤ (cs.takeWhile test).length ↔ n ≤ (cs.takeWhile test).length + 1 := by
          omega
        simp [hc, hn, hle]
    · rw [if_neg hc]
      by_cases hn : n = 0 <;> simp [hc, hn, Spot.between]

/-! ### Pieces -/

theorem piece_eq {w rest : List Char} (h : u ++ after = w ++ rest)
    (hplace : Spot.between (before ++ u) after = .between (before ++ w) rest) :
    u = w ∧ after = rest := by
  obtain rfl : after = rest := congrArg Spot.rest hplace
  exact ⟨List.append_cancel_right h, rfl⟩

theorem mem_ends_one {rest : List Char} : t ∈ (one test).ends (.between before rest) ↔
    ∃ c after, rest = c :: after ∧ test c ∧ t = .between (before ++ [c]) after := by
  cases rest with
  | nil => simp [ends, Spot.between]
  | cons c rest => simp [ends, Spot.between, and_assoc]

theorem mem_ends_run {rest : List Char} : t ∈ (run n test).ends (.between before rest) ↔
    ∃ u after, rest = u ++ after ∧ n ≤ u.length ∧ (∀ c ∈ u, test c) ∧
      t = .between (before ++ u) after := by
  rw [ends, Spot.between, mem_runEnds]
  simp

theorem mem_ends_boundary {s : Spot} : t ∈ boundary.ends s ↔ s.atBoundary ∧ t = s := by
  simp [ends]

theorem exists_of_mem_ends {rest : List Char} (h : t ∈ p.ends (.between before rest)) :
    ∃ u after, rest = u ++ after ∧ t = .between (before ++ u) after := by
  induction p generalizing before rest t with
  | one test =>
    obtain ⟨c, after, rfl, -, rfl⟩ := mem_ends_one.mp h
    exact ⟨[c], after, rfl, rfl⟩
  | run n test =>
    obtain ⟨u, after, hrest, -, -, ht⟩ := mem_ends_run.mp h
    exact ⟨u, after, hrest, ht⟩
  | both p q ihp ihq =>
    obtain ⟨a, ha, ht⟩ := List.mem_flatMap.mp h
    obtain ⟨u, mid, rfl, rfl⟩ := ihp ha
    obtain ⟨v, after, rfl, rfl⟩ := ihq ht
    exact ⟨u ++ v, after, by simp, by simp⟩
  | either p q ihp ihq =>
    rcases List.mem_append.mp h with h | h
    · exact ihp h
    · exact ihq h
  | boundary => exact ⟨[], rest, rfl, by simpa using (mem_ends_boundary.mp h).2⟩
  | nothing => exact ⟨[], rest, rfl, by simpa using List.mem_singleton.mp h⟩

theorem reads_one : (one test).Reads before u after ↔ ∃ c, test c ∧ u = [c] := by
  rw [Reads, mem_ends_one]
  constructor
  · rintro ⟨c, rest, hrest, hc, hplace⟩
    exact ⟨c, hc, (piece_eq (w := [c]) hrest hplace).1⟩
  · rintro ⟨c, hc, rfl⟩
    exact ⟨c, after, rfl, hc, rfl⟩

theorem reads_run :
    (run n test).Reads before u after ↔ n ≤ u.length ∧ ∀ c ∈ u, test c := by
  rw [Reads, mem_ends_run]
  constructor
  · rintro ⟨w, rest, hrest, hn, htest, hplace⟩
    obtain ⟨rfl, -⟩ := piece_eq hrest hplace
    exact ⟨hn, htest⟩
  · rintro ⟨hn, htest⟩
    exact ⟨u, after, rfl, hn, htest, rfl⟩

theorem reads_both : (both p q).Reads before u after ↔
    ∃ v w, u = v ++ w ∧ p.Reads before v (w ++ after) ∧ q.Reads (before ++ v) w after := by
  rw [Reads, ends, List.mem_flatMap]
  constructor
  · rintro ⟨a, ha, hends⟩
    obtain ⟨v, mid, hv, rfl⟩ := exists_of_mem_ends ha
    obtain ⟨w, rest, rfl, hplace⟩ := exists_of_mem_ends hends
    obtain ⟨rfl, rfl⟩ := piece_eq (w := v ++ w) (by rw [hv, List.append_assoc])
      (by rw [hplace, List.append_assoc])
    rw [hv] at ha
    exact ⟨v, w, rfl, ha, by simpa only [Reads, List.append_assoc] using hends⟩
  · rintro ⟨v, w, rfl, hv, hw⟩
    refine ⟨.between (before ++ v) (w ++ after), ?_, ?_⟩
    · simpa only [Reads, List.append_assoc] using hv
    · simpa only [Reads, List.append_assoc] using hw

theorem reads_boundary : boundary.Reads before u after ↔
    u = [] ∧ (Spot.between before after).atBoundary := by
  rw [Reads, mem_ends_boundary]
  constructor
  · rintro ⟨hat, hplace⟩
    obtain ⟨rfl, -⟩ := piece_eq (List.nil_append _).symm (by rw [hplace, List.append_nil])
    exact ⟨rfl, hat⟩
  · rintro ⟨rfl, hat⟩
    exact ⟨hat, by simp⟩

theorem reads_nothing : nothing.Reads before u after ↔ u = [] := by
  rw [Reads, ends, List.mem_singleton]
  constructor
  · intro hplace
    exact (piece_eq (List.nil_append _).symm (by rw [hplace, List.append_nil])).1
  · rintro rfl
    simp

theorem reads_exactly (s : String) : (exactly s).Reads before u after ↔ u = s.toList := by
  rw [exactly]
  induction s.toList generalizing before u with
  | nil => exact reads_nothing
  | cons c cs ih =>
    simp only [List.foldr_cons, reads_both, reads_one, ih, beq_iff_eq]
    constructor
    · rintro ⟨v, w, rfl, ⟨d, rfl, rfl⟩, rfl⟩
      rfl
    · rintro rfl
      exact ⟨[c], cs, rfl, ⟨c, rfl, rfl⟩, rfl⟩

def least : Pattern → Nat
  | one _ => 1
  | run n _ => n
  | both p q => p.least + q.least
  | either p q => min p.least q.least
  | boundary => 0
  | nothing => 0

theorem least_le_length (h : p.Reads before u after) : p.least ≤ u.length := by
  induction p generalizing before u after with
  | one test =>
    obtain ⟨c, -, rfl⟩ := reads_one.mp h
    exact Nat.le_refl 1
  | run n test => exact (reads_run.mp h).1
  | both p q ihp ihq =>
    obtain ⟨v, w, rfl, hv, hw⟩ := reads_both.mp h
    rw [List.length_append]
    exact Nat.add_le_add (ihp hv) (ihq hw)
  | either p q ihp ihq =>
    rcases List.mem_append.mp h with h | h
    · exact Nat.le_trans (Nat.min_le_left _ _) (ihp h)
    · exact Nat.le_trans (Nat.min_le_right _ _) (ihq h)
  | boundary => exact Nat.zero_le _
  | nothing => exact Nat.zero_le _

def Within (P : Char → Prop) : Pattern → Prop
  | one test => ∀ c, test c → P c
  | run _ test => ∀ c, test c → P c
  | both p q => p.Within P ∧ q.Within P
  | either p q => p.Within P ∧ q.Within P
  | boundary => True
  | nothing => True

theorem Within.of_reads {P : Char → Prop} (hp : p.Within P) (h : p.Reads before u after) :
    ∀ c ∈ u, P c := by
  induction p generalizing before u after with
  | one test =>
    obtain ⟨c, hc, rfl⟩ := reads_one.mp h
    simpa using hp c hc
  | run n test => exact fun c hc => hp c ((reads_run.mp h).2 c hc)
  | both p q ihp ihq =>
    obtain ⟨v, w, rfl, hv, hw⟩ := reads_both.mp h
    intro c hc
    rcases List.mem_append.mp hc with hc | hc
    · exact ihp hp.1 hv c hc
    · exact ihq hp.2 hw c hc
  | either p q ihp ihq =>
    rcases List.mem_append.mp h with h | h
    · exact ihp hp.1 h
    · exact ihq hp.2 h
  | boundary => simp [(reads_boundary.mp h).1]
  | nothing => simp [reads_nothing.mp h]

theorem within_word {P : Char → Prop} (s : String)
    (h : ∀ l ∈ s.toList, Ascii.isLetter l ∧ ∀ c, isLetterOf l c → P c) :
    (word s).Within P := by
  rw [word, sequence]
  generalize s.toList = ls at h ⊢
  induction ls with
  | nil => exact trivial
  | cons l ls ih =>
    obtain ⟨hl, hP⟩ := h l List.mem_cons_self
    refine ⟨fun c hc => hP c ?_, ih fun l hl => h l (List.mem_cons_of_mem _ hl)⟩
    simpa [hl] using hc

/-- The pattern does not look at what surrounds it. -/
def isFree : Pattern → Bool
  | one _ => true
  | run _ _ => true
  | both p q => p.isFree && q.isFree
  | either p q => p.isFree && q.isFree
  | boundary => false
  | nothing => true

theorem Reads.elsewhere (h : p.Reads before u after) (hp : p.isFree) (before' after' : List Char) :
    p.Reads before' u after' := by
  induction p generalizing before before' u after after' with
  | one test => exact reads_one.mpr (reads_one.mp h)
  | run n test => exact reads_run.mpr (reads_run.mp h)
  | both p q ihp ihq =>
    obtain ⟨hp, hq⟩ := (Bool.and_eq_true _ _).mp hp
    obtain ⟨v, w, rfl, hv, hw⟩ := reads_both.mp h
    exact reads_both.mpr ⟨v, w, rfl, ihp hv hp _ _, ihq hw hq _ _⟩
  | either p q ihp ihq =>
    obtain ⟨hp, hq⟩ := (Bool.and_eq_true _ _).mp hp
    rcases List.mem_append.mp h with h | h
    · exact List.mem_append_left _ (ihp h hp _ _)
    · exact List.mem_append_right _ (ihq h hq _ _)
  | boundary => cases hp
  | nothing => exact reads_nothing.mpr (reads_nothing.mp h)

/-! ### What is preferred -/

theorem prefers_run (hn : n ≤ u.length) (htest : ∀ c ∈ u, test c)
    (hafter : ∀ c ∈ after.head?, ¬test c) : (run n test).Prefers before u after := by
  have htake : (u ++ after).takeWhile test = u := by
    rw [List.takeWhile_append_of_pos htest]
    cases after with
    | nil => simp
    | cons c cs => simp [hafter c rfl]
  have hdrop : (u ++ after).dropWhile test = after := by
    rw [List.dropWhile_append_of_pos htest]
    cases after with
    | nil => rfl
    | cons c cs => simp [hafter c rfl]
  rw [Prefers, ends, Spot.between, head?_runEnds, htake, hdrop, if_pos hn]

theorem prefers_both (hp : p.Prefers before u (v ++ after)) (hq : q.Prefers (before ++ u) v after) :
    (both p q).Prefers before (u ++ v) after := by
  rw [Prefers, List.append_assoc]
  obtain ⟨others, hp⟩ := List.head?_eq_some_iff.mp hp
  obtain ⟨ends', hq⟩ := List.head?_eq_some_iff.mp hq
  rw [ends, hp, List.flatMap_cons, hq]
  simp

theorem prefers_nothing : nothing.Prefers before [] after := by
  simp [Prefers, ends]

theorem prefers_exactly (s : String) : (exactly s).Prefers before s.toList after := by
  rw [exactly]
  induction s.toList generalizing before with
  | nil => exact prefers_nothing
  | cons c cs ih =>
    exact prefers_both (u := [c]) (by simp [Prefers, ends, Spot.between]) ih

end Pattern

end PluginGuard.Text
