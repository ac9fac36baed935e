import Mathlib.Data.List.MinMax
import Mathlib.Data.Nat.Basic
import PluginGuard.Proofs.Fallible
import PluginGuard.Scan.Findings

/-!
# Evidence

Findings are what a list of notes, suspicions and condemnations leaves. Each of them is a line
that is shown or counted, and the verdict is the worst of them. What is found later never makes a
verdict milder, and under the same verdict never lowers the confidence. That takes a score that fits
in 32 bits: the cap is put on a score that has been computed, so where it overflows there is no
result at all.
-/
namespace PluginGuard

namespace Verdict

instance : LinearOrder Verdict :=
  LinearOrder.lift' rank fun a b h => by cases a <;> cases b <;> first | rfl | cases h

instance : OrderBot Verdict where
  bot := .clean
  bot_le _ := Nat.zero_le _

theorem le_malicious (w : Verdict) : w ≤ .malicious := by
  cases w <;> exact Nat.le_of_ble_eq_true rfl

theorem le_suspicious_of_ne {w : Verdict} (h : w ≠ .malicious) : w ≤ .suspicious := by
  cases w with
  | clean => exact bot_le
  | suspicious => exact le_rfl
  | malicious => exact absurd rfl h

def cap : Verdict → Nat
  | .clean => 100
  | .suspicious => 95
  | .malicious => 100

theorem cap_le (w : Verdict) : w.cap ≤ 100 := by cases w <;> decide

end Verdict

/-- A line that is found. One that does not weigh is clean. -/
structure Evidence where
  verdict : Verdict
  line : String

namespace Evidence

variable {e : Evidence} {es es' : List Evidence}

def count (w : Verdict) (es : List Evidence) : Nat := es.countP (·.verdict = w)

def Fits (es : List Evidence) : Prop := ∀ w, w ≠ .clean → count w es < UInt32.size

def worst (es : List Evidence) : Verdict := (es.map (·.verdict)).foldr max ⊥

theorem le_worst (he : e ∈ es) : e.verdict ≤ worst es :=
  List.le_max_of_le (List.mem_map_of_mem he) le_rfl

theorem worst_le_iff {w : Verdict} : worst es ≤ w ↔ ∀ e ∈ es, e.verdict ≤ w :=
  ⟨fun h _ he => (le_worst he).trans h, fun h => List.max_le_of_forall_le _ _ (by simpa using h)⟩

theorem worst_append : worst (es ++ es') = max (worst es) (worst es') :=
  eq_of_forall_ge_iff fun w => by
    simp only [max_le_iff, worst_le_iff, List.mem_append, or_imp, forall_and]

theorem worst_mono (h : es ⊆ es') : worst es ≤ worst es' :=
  worst_le_iff.mpr fun _ he => le_worst (h he)

theorem worst_eq (es : List Evidence) : worst es =
    if ∃ e ∈ es, e.verdict = .malicious then .malicious
    else if ∃ e ∈ es, e.verdict = .suspicious then .suspicious
    else .clean := by
  split_ifs with hm hs
  · obtain ⟨e, he, hv⟩ := hm
    exact le_antisymm (Verdict.le_malicious _) (hv ▸ le_worst he)
  · obtain ⟨e, he, hv⟩ := hs
    refine le_antisymm (worst_le_iff.mpr fun e he => ?_) (hv ▸ le_worst he)
    exact Verdict.le_suspicious_of_ne fun hv => hm ⟨e, he, hv⟩
  · refine le_antisymm (worst_le_iff.mpr fun e he => ?_) bot_le
    cases hv : e.verdict with
    | clean => exact bot_le
    | suspicious => exact absurd ⟨e, he, hv⟩ hs
    | malicious => exact absurd ⟨e, he, hv⟩ hm

theorem count_eq_zero_iff {w : Verdict} : count w es = 0 ↔ ¬∃ e ∈ es, e.verdict = w := by
  simp [count, List.countP_eq_zero]

theorem worst_congr (h : ∀ w, w ≠ .clean → count w es = count w es') : worst es = worst es' := by
  have hfound {w : Verdict} (hw : w ≠ .clean) :
      (∃ e ∈ es, e.verdict = w) ↔ ∃ e ∈ es', e.verdict = w := by
    rw [← not_iff_not, ← count_eq_zero_iff, ← count_eq_zero_iff, h w hw]
  simp only [worst_eq, hfound (w := .malicious) nofun, hfound (w := .suspicious) nofun]

theorem count_append (w : Verdict) : count w (es ++ es') = count w es + count w es' :=
  List.countP_append

theorem Fits.of_append (h : Fits (es ++ es')) : Fits es := fun w hw =>
  (Nat.le_add_right _ _).trans_lt (count_append w ▸ h w hw)

/-! ### The score -/

def score (es : List Evidence) : Nat :=
  match worst es with
  | .clean => 100
  | .suspicious => 25 + 15 * count .suspicious es
  | .malicious => 60 + 10 * count .malicious es + 5 * count .suspicious es

theorem fits_of_score (h : score es < UInt32.size) : Fits es := by
  have hworst := worst_eq es
  rw [score] at h
  intro w hw
  split_ifs at hworst with hm hs
  · rw [hworst] at h
    cases w with
    | clean => exact absurd rfl hw
    | suspicious => simp only at h; omega
    | malicious => simp only at h; omega
  · rw [hworst] at h
    cases w with
    | clean => exact absurd rfl hw
    | suspicious => simp only at h; omega
    | malicious => rw [count_eq_zero_iff.mpr hm]; decide
  · cases w with
    | clean => exact absurd rfl hw
    | suspicious => rw [count_eq_zero_iff.mpr hs]; decide
    | malicious => rw [count_eq_zero_iff.mpr hm]; decide

theorem score_mono (h : worst (es ++ es') = worst es) : score es ≤ score (es ++ es') := by
  rw [score, score, h]
  cases worst es with
  | clean => exact le_rfl
  | suspicious => simp only [count_append]; omega
  | malicious => simp only [count_append]; omega

theorem count_add_count_le (es : List Evidence) :
    count .suspicious es + count .malicious es ≤ es.length := by
  induction es with
  | nil => exact le_rfl
  | cons e es ih =>
    simp only [count, List.countP_cons, List.length_cons] at ih ⊢
    cases e.verdict <;> simp <;> omega

theorem score_le (es : List Evidence) :
    score es ≤ 100 + 15 * (count .suspicious es + count .malicious es) := by
  rw [score]
  cases worst es with
  | clean => exact Nat.le_add_right _ _
  | suspicious => simp only; omega
  | malicious => simp only; omega

def weighing (es : List Evidence) : List Evidence := es.filter (·.verdict ≠ .clean)

theorem count_weighing {w : Verdict} (hw : w ≠ .clean) : count w (weighing es) = count w es := by
  rw [count, weighing, List.countP_filter, count]
  refine List.countP_congr fun e _ => ?_
  simp only [decide_not, Bool.and_eq_true, decide_eq_true_eq, Bool.not_eq_true',
    decide_eq_false_iff_not, and_iff_left_iff_imp]
  rintro rfl
  exact hw

theorem worst_weighing (es : List Evidence) : worst (weighing es) = worst es :=
  worst_congr fun _ => count_weighing

theorem score_weighing (es : List Evidence) : score (weighing es) = score es := by
  have hm : count .malicious (weighing es) = count .malicious es := count_weighing nofun
  have hs : count .suspicious (weighing es) = count .suspicious es := count_weighing nofun
  rw [score, score, worst_weighing, hm, hs]

end Evidence

namespace Findings

open Evidence

variable {f g : Findings} {lines : List String} {es more : List Evidence} {e : Evidence}

def add (f : Findings) (e : Evidence) : Except Overflow Findings :=
  match e.verdict with
  | .clean => .ok (f.note e.line)
  | .suspicious => f.suspect e.line
  | .malicious => f.condemn e.line

/-! ### What is shown -/

def shown (lines : List String) : List String :=
  if limit < lines.length then lines.take limit ++ [s!"... and {lines.length - limit} more"]
  else lines

theorem shown_eq_nil_iff : shown lines = [] ↔ lines = [] := by
  by_cases h : limit < lines.length
  · have hlines : lines ≠ [] := List.ne_nil_of_length_pos (by omega)
    simp [shown, h, hlines]
  · rw [shown, if_neg h]

structure Tells (f : Findings) (lines : List String) : Prop where
  details : f.details = lines.take limit
  omitted : f.omitted = lines.length - limit

theorem tells_empty : empty.Tells [] := ⟨rfl, rfl⟩

namespace Tells

theorem record (h : f.Tells lines) (line : String) : (f.record line).Tells (lines ++ [line]) := by
  obtain ⟨hdetails, homitted⟩ := h
  have hlength : f.details.length = min limit lines.length := by rw [hdetails, List.length_take]
  rw [Findings.record]
  -- While there is room all lines are kept, and what is taken of them is all of them.
  by_cases hroom : f.details.length < limit
  · rw [if_pos hroom]
    refine ⟨?_, ?_⟩
    · rw [hdetails, List.take_of_length_le (by omega), List.take_of_length_le (by simp; omega)]
    · simp only [List.length_append, List.length_singleton]
      omega
  · rw [if_neg hroom]
    refine ⟨?_, ?_⟩
    · rw [List.take_append_of_le_length (by omega), ← hdetails]
    · simp only [List.length_append, List.length_singleton]
      omega

theorem length (h : f.Tells lines) : f.details.length + f.omitted = lines.length := by
  rw [h.details, h.omitted, List.length_take]
  omega

theorem summary (h : f.Tells lines) : f.summary = shown lines := by
  obtain ⟨hdetails, homitted⟩ := h
  rw [Findings.summary, shown, homitted]
  by_cases hmore : limit < lines.length
  · rw [if_pos (by omega), if_pos hmore, hdetails]
  · rw [if_neg (by omega), if_neg hmore, hdetails, List.take_of_length_le (by omega)]

end Tells

/-! ### What is held -/

def weight (f : Findings) : Verdict → UInt32
  | .clean => 0
  | .suspicious => f.suspicious
  | .malicious => f.malicious

theorem weight_record (f : Findings) (line : String) : (f.record line).weight = f.weight := by
  funext w
  rw [record]
  split <;> cases w <;> rfl

structure Holds (f : Findings) (es : List Evidence) : Prop where
  tells : f.Tells (es.map (·.line))
  weight : ∀ w, w ≠ .clean → (f.weight w).toNat = count w es

theorem holds_empty : empty.Holds [] where
  tells := tells_empty
  weight w _ := by cases w <;> rfl

theorem count_concat (w : Verdict) :
    count w (es ++ [e]) = count w es + if e.verdict = w then 1 else 0 := by
  rw [count_append]
  by_cases h : e.verdict = w <;> simp [count, h]

def setWeight (f : Findings) (w : Verdict) (k : UInt32) : Findings :=
  match w with
  | .clean => f
  | .suspicious => { f with suspicious := k }
  | .malicious => { f with malicious := k }

theorem tells_setWeight {w : Verdict} {k : UInt32} (h : f.Tells lines) :
    (f.setWeight w k).Tells lines := by
  cases w <;> exact ⟨h.details, h.omitted⟩

theorem weight_setWeight {w w' : Verdict} (hw' : w' ≠ .clean) (k : UInt32) :
    (f.setWeight w k).weight w' = if w = w' then k else f.weight w' := by
  cases w <;> cases w' <;> first | rfl | exact absurd rfl hw'

theorem add_of_clean (h : e.verdict = .clean) : f.add e = .ok (f.record e.line) := by
  rw [add, h]
  rfl

theorem add_of_weighs (h : e.verdict ≠ .clean) : f.add e =
    (Overflow.add32 (f.weight e.verdict) 1).map ((f.record e.line).setWeight e.verdict) := by
  rw [add]
  cases hverdict : e.verdict with
  | clean => exact absurd hverdict h
  | suspicious => rfl
  | malicious => rfl

namespace Holds

theorem fits (h : f.Holds es) : Fits es := fun w hw => by
  rw [← h.weight w hw]
  exact (f.weight w).toNat_lt_size

theorem record (h : f.Holds es) (hclean : e.verdict = .clean) :
    (f.record e.line).Holds (es ++ [e]) where
  tells := by simpa using h.tells.record e.line
  weight w hw := by
    rw [weight_record, h.weight w hw, count_concat, hclean, if_neg hw.symm, Nat.add_zero]

theorem exists_add (h : f.Holds es) (hfits : Fits (es ++ [e])) :
    ∃ g, f.add e = .ok g ∧ g.Holds (es ++ [e]) := by
  by_cases hclean : e.verdict = .clean
  · exact ⟨_, add_of_clean hclean, h.record hclean⟩
  · have hroom : (f.weight e.verdict).toNat + 1 < UInt32.size := by
      have hsize := hfits _ hclean
      rwa [count_concat, if_pos rfl, ← h.weight _ hclean] at hsize
    refine ⟨_, (add_of_weighs hclean).trans (congrArg _ (Overflow.fitting_of_lt hroom _ _)), ?_, ?_⟩
    · simpa using tells_setWeight (h.tells.record e.line)
    · intro w hw
      rw [weight_setWeight hw, weight_record, count_concat, ← h.weight w hw]
      split_ifs with hsame
      · subst hsame
        exact UInt32.toNat_ofNat_of_lt' hroom
      · rfl

theorem add_eq_error (h : f.Holds es) (hfull : ¬Fits (es ++ [e])) :
    f.add e = .error .addition := by
  simp only [Fits, not_forall, Nat.not_lt] at hfull
  obtain ⟨w, hw, hsize⟩ := hfull
  have hbefore := h.fits w hw
  rw [count_concat] at hsize
  -- The counter that does not hold it is the one that had room before.
  split_ifs at hsize with hsame
  · subst hsame
    rw [← h.weight _ hw] at hsize
    exact (add_of_weighs hw).trans (congrArg _ (Overflow.fitting_of_le hsize _ _))
  · omega

theorem exists_foldlM (h : f.Holds es) (hfits : Fits (es ++ more)) :
    ∃ g, more.foldlM add f = .ok g ∧ g.Holds (es ++ more) := by
  induction more generalizing f es with
  | nil => exact ⟨f, rfl, by rwa [List.append_nil]⟩
  | cons e more ih =>
    rw [List.append_cons] at hfits ⊢
    obtain ⟨g, hg, hholds⟩ := h.exists_add hfits.of_append
    obtain ⟨g', hg', hholds'⟩ := ih hholds hfits
    refine ⟨g', ?_, hholds'⟩
    rw [List.foldlM_cons, hg]
    exact hg'

theorem foldlM_eq_error (h : f.Holds es) (hfull : ¬Fits (es ++ more)) :
    more.foldlM add f = .error .addition := by
  induction more generalizing f es with
  | nil => exact absurd h.fits (List.append_nil es ▸ hfull)
  | cons e more ih =>
    rw [List.append_cons] at hfull
    rw [List.foldlM_cons]
    by_cases hfits : Fits (es ++ [e])
    · obtain ⟨g, hg, hholds⟩ := h.exists_add hfits
      rw [hg]
      exact ih hholds hfull
    · rw [h.add_eq_error hfits]
      rfl

theorem of_foldlM (h : f.Holds es) (hg : more.foldlM add f = .ok g) : g.Holds (es ++ more) := by
  by_cases hfits : Fits (es ++ more)
  · obtain ⟨g', hg', hholds⟩ := h.exists_foldlM hfits
    rw [hg, Except.ok.injEq] at hg'
    exact hg' ▸ hholds
  · rw [h.foldlM_eq_error hfits] at hg
    cases hg

theorem exists_of_fits (h : Fits es) : ∃ f, es.foldlM add empty = .ok f ∧ f.Holds es :=
  holds_empty.exists_foldlM h

theorem foldlM_of_not_fits (h : ¬Fits es) : es.foldlM add empty = .error .addition :=
  holds_empty.foldlM_eq_error h

/-! ### Verdicts and confidence -/

theorem verdict_eq (h : f.Holds es) : f.verdict = worst es := by
  have hpos {w : Verdict} (hw : w ≠ .clean) : 0 < f.weight w ↔ ∃ e ∈ es, e.verdict = w := by
    rw [UInt32.lt_iff_toNat_lt, h.weight w hw]
    simp [count, List.countP_pos_iff]
  have hm : 0 < f.malicious ↔ _ := hpos (w := .malicious) nofun
  have hs : 0 < f.suspicious ↔ _ := hpos (w := .suspicious) nofun
  simp only [verdict, worst_eq, hm, hs]

end Holds

theorem toNat_min (a b : UInt32) : (min a b).toNat = min a.toNat b.toNat := by
  change (if a ≤ b then a else b).toNat = _
  split_ifs with h
  · exact (Nat.min_eq_left (UInt32.le_iff_toNat_le.mp h)).symm
  · exact (Nat.min_eq_right (Nat.le_of_not_le (UInt32.le_iff_toNat_le.not.mp h))).symm

open Overflow (add32_eq_ok_iff mul32_eq_ok_iff) in
theorem confidence_of_suspicious {k : UInt32} (hverdict : f.verdict = .suspicious) :
    f.confidence = .ok k ↔ 25 + 15 * f.suspicious.toNat < UInt32.size ∧
      k.toNat = min (25 + 15 * f.suspicious.toNat) 95 := by
  rw [confidence, hverdict]
  simp only [Fallible.bind_eq_ok, Fallible.pure_eq_ok, add32_eq_ok_iff, mul32_eq_ok_iff]
  constructor
  · rintro ⟨i, hi, j, hj, rfl⟩
    have hexact : j.toNat = 25 + 15 * f.suspicious.toNat := by rw [hj, hi]; rfl
    exact ⟨hexact ▸ j.toNat_lt_size, (toNat_min _ _).trans (congrArg (min · 95) hexact)⟩
  · rintro ⟨hsize, hk⟩
    refine ⟨.ofNat (15 * f.suspicious.toNat), UInt32.toNat_ofNat_of_lt' (by omega),
      .ofNat (25 + 15 * f.suspicious.toNat), ?_, ?_⟩
    · rw [UInt32.toNat_ofNat_of_lt' hsize, UInt32.toNat_ofNat_of_lt' (by omega)]
      rfl
    · rw [← UInt32.toNat_inj, toNat_min, UInt32.toNat_ofNat_of_lt' hsize, hk]
      rfl

open Overflow (add32_eq_ok_iff mul32_eq_ok_iff) in
theorem confidence_of_malicious {k : UInt32} (hverdict : f.verdict = .malicious)
    (hpos : 0 < f.malicious.toNat) :
    f.confidence = .ok k ↔
      60 + 10 * f.malicious.toNat + 5 * f.suspicious.toNat < UInt32.size ∧
        k.toNat = min (60 + 10 * f.malicious.toNat + 5 * f.suspicious.toNat) 100 := by
  generalize hscore : 60 + 10 * f.malicious.toNat + 5 * f.suspicious.toNat = score
  have hone : (1 : UInt32) ≤ f.malicious := UInt32.le_iff_toNat_le.mpr hpos
  have hpred : (f.malicious - 1).toNat = f.malicious.toNat - 1 := UInt32.toNat_sub_of_le _ _ hone
  rw [confidence, hverdict]
  simp only [Fallible.bind_eq_ok, Fallible.pure_eq_ok, add32_eq_ok_iff, mul32_eq_ok_iff, hpred]
  constructor
  · rintro ⟨i, hi, j, hj, l, hl, n, hn, rfl⟩
    have hexact : n.toNat = score := by
      rw [hn, hl, hj, hi]
      change 70 + 10 * (f.malicious.toNat - 1) + 5 * f.suspicious.toNat = _
      omega
    exact ⟨hexact ▸ n.toNat_lt_size, (toNat_min _ _).trans (congrArg (min · 100) hexact)⟩
  · rintro ⟨hsize, hk⟩
    have hofNat {value : Nat} (hle : value ≤ score) : (UInt32.ofNat value).toNat = value :=
      UInt32.toNat_ofNat_of_lt' (hle.trans_lt hsize)
    refine ⟨.ofNat (10 * (f.malicious.toNat - 1)), hofNat (by omega),
      .ofNat (60 + 10 * f.malicious.toNat), ?_, .ofNat (5 * f.suspicious.toNat),
      hofNat (by omega), .ofNat score, ?_, ?_⟩
    · rw [hofNat (by omega), hofNat (by omega)]
      change _ = 70 + _
      omega
    · rw [hofNat le_rfl, hofNat (by omega), hofNat (by omega), ← hscore]
    · rw [← UInt32.toNat_inj, toNat_min, hofNat le_rfl, hk]
      rfl

theorem Holds.confidence_eq_ok_iff (h : f.Holds es) {k : UInt32} : f.confidence = .ok k ↔
    score es < UInt32.size ∧ k.toNat = min (score es) (worst es).cap := by
  have hm : f.malicious.toNat = count .malicious es := h.weight .malicious nofun
  have hs : f.suspicious.toNat = count .suspicious es := h.weight .suspicious nofun
  have hverdict := h.verdict_eq
  rw [score]
  cases hworst : worst es with
  | clean =>
    rw [confidence, hverdict, hworst, Fallible.pure_eq_ok, ← UInt32.toNat_inj]
    exact (and_iff_right (show 100 < UInt32.size by decide)).symm
  | suspicious =>
    rw [confidence_of_suspicious (hverdict.trans hworst), hs]
    rfl
  | malicious =>
    have hpos : 0 < f.malicious.toNat := by
      rw [hm]
      refine Nat.pos_of_ne_zero fun hzero => ?_
      rw [worst_eq, if_neg (count_eq_zero_iff.mp hzero)] at hworst
      split_ifs at hworst
    rw [confidence_of_malicious (hverdict.trans hworst) hpos, hs, hm]
    rfl

/-! ### Results -/

def told (response : Response) (es : List Evidence) : Except Overflow ScanResult :=
  (es.foldlM add empty).bind (·.result response)

def conclusion (response : Response) (es : List Evidence) : ScanResult :=
  ⟨worst es, .ofNat (min (score es) (worst es).cap), shown (es.map (·.line)),
    response.to? (worst es)⟩

variable {response : Response} {r : ScanResult}

theorem Holds.result_eq_ok_iff (h : f.Holds es) :
    f.result response = .ok r ↔ score es < UInt32.size ∧ r = conclusion response es := by
  rw [result]
  simp only [Fallible.bind_eq_ok, Fallible.pure_eq_ok, h.confidence_eq_ok_iff, h.verdict_eq,
    h.tells.summary]
  constructor
  · rintro ⟨k, ⟨hscore, hk⟩, rfl⟩
    refine ⟨hscore, ?_⟩
    rw [conclusion, ← hk]
    rfl
  · rintro ⟨hscore, rfl⟩
    have hsize : min (score es) (worst es).cap < UInt32.size := (min_le_left _ _).trans_lt hscore
    refine ⟨.ofNat (min (score es) (worst es).cap),
      ⟨hscore, UInt32.toNat_ofNat_of_lt' hsize⟩, ?_⟩
    rw [conclusion, UInt32.toUInt8_ofNat']

theorem told_eq_ok_iff :
    told response es = .ok r ↔ score es < UInt32.size ∧ r = conclusion response es := by
  by_cases hfits : Fits es
  · obtain ⟨f, hf, hholds⟩ := Holds.exists_of_fits hfits
    rw [told, hf]
    exact hholds.result_eq_ok_iff
  · rw [told, Holds.foldlM_of_not_fits hfits]
    refine iff_of_false nofun fun h => hfits (fits_of_score h.1)

theorem told_of_lt (h : score es < UInt32.size) : told response es = .ok (conclusion response es) :=
  told_eq_ok_iff.mpr ⟨h, rfl⟩

theorem toNat_confidence (response : Response) (es : List Evidence) :
    (conclusion response es).confidence.toNat = min (score es) (worst es).cap := by
  have hcap : (worst es).cap ≤ 100 := by cases worst es <;> decide
  have hsize : min (score es) (worst es).cap < UInt8.size :=
    ((min_le_right _ _).trans hcap).trans_lt (by decide)
  exact UInt8.toNat_ofNat_of_lt' hsize

theorem conclusion_weighing (response : Response) (es : List Evidence) :
    (conclusion response (weighing es)).verdict = (conclusion response es).verdict ∧
      (conclusion response (weighing es)).confidence = (conclusion response es).confidence :=
  ⟨worst_weighing es, by rw [conclusion, conclusion, score_weighing, worst_weighing]⟩

/-- There is a result just if the score fits in 32 bits. It says the worst that was found, its
confidence is a percentage and every line is shown or counted; notes do not weigh. What is found
later makes no verdict milder and no confidence in the same verdict lower. -/
theorem result_of_evidence (response : Response) (es more : List Evidence) :
    ((∃ r, told response es = .ok r) ↔ score es < UInt32.size) ∧
    ∀ r, told response es = .ok r →
      (r.verdict = if ∃ e ∈ es, e.verdict = .malicious then .malicious
        else if ∃ e ∈ es, e.verdict = .suspicious then .suspicious
        else .clean) ∧
      r.confidence.toNat ≤ 100 ∧
      r.details = shown (es.map (·.line)) ∧
      (∃ r', told response (weighing es) = .ok r' ∧ r'.verdict = r.verdict ∧
        r'.confidence = r.confidence) ∧
      ∀ r', told response (es ++ more) = .ok r' →
        r.verdict ≤ r'.verdict ∧ (r'.verdict = r.verdict → r.confidence ≤ r'.confidence) := by
  refine ⟨⟨fun ⟨r, hr⟩ => (told_eq_ok_iff.mp hr).1, fun h => ⟨_, told_of_lt h⟩⟩, fun r hr => ?_⟩
  obtain ⟨hscore, rfl⟩ := told_eq_ok_iff.mp hr
  refine ⟨worst_eq es, ?_, rfl, ?_, fun r' hr' => ?_⟩
  · rw [toNat_confidence]
    exact (min_le_right _ _).trans (worst es).cap_le
  · have hfits : score (weighing es) < UInt32.size := (score_weighing es).trans_lt hscore
    exact ⟨_, told_of_lt hfits, conclusion_weighing response es⟩
  · obtain ⟨-, rfl⟩ := told_eq_ok_iff.mp hr'
    refine ⟨worst_mono (List.subset_append_left _ _), fun hsame => ?_⟩
    have hworst : worst (es ++ more) = worst es := hsame
    rw [UInt8.le_iff_toNat_le, toNat_confidence, toNat_confidence, hworst]
    exact min_le_min_right _ (score_mono hworst)

/-- A second suspicion raises the confidence, and the note before them does not. -/
theorem result_of_evidence_raised :
    let es : List Evidence := [⟨.clean, "context"⟩, ⟨.suspicious, "a"⟩]
    let more : List Evidence := [⟨.suspicious, "b"⟩]
    ∃ r r' r'' : ScanResult, told .standard es = .ok r ∧ told .standard (weighing es) = .ok r' ∧
      told .standard (es ++ more) = .ok r'' ∧ r.verdict = .suspicious ∧
      r'.confidence = r.confidence ∧ r.confidence ≤ r''.confidence := by
  intro es more
  obtain ⟨hresult, hsays⟩ := result_of_evidence .standard es more
  obtain ⟨r, hr⟩ := hresult.mpr (by decide)
  obtain ⟨hverdict, -, -, ⟨r', hr', -, hsame⟩, hlater⟩ := hsays r hr
  obtain ⟨r'', hr''⟩ := (result_of_evidence .standard (es ++ more) []).1.mpr (by decide)
  have hverdict'' : r''.verdict = .suspicious :=
    ((result_of_evidence .standard (es ++ more) []).2 r'' hr'').1
  exact ⟨r, r', r'', hr, hr', hr'', hverdict, hsame,
    (hlater r'' hr'').2 (hverdict''.trans hverdict.symm)⟩

theorem holds_replicate {n : Nat} (hn : n ≠ 0) (hsize : n < UInt32.size) (line : String) :
    let es : List Evidence := List.replicate n ⟨.suspicious, line⟩
    worst es = .suspicious ∧ score es = 25 + 15 * n ∧
      ∃ f, es.foldlM add empty = .ok f ∧ f.verdict = .suspicious ∧ f.malicious = 0 ∧
        f.suspicious = .ofNat n := by
  intro es
  have hs : count .suspicious es = n := by simp [es, count, List.countP_replicate]
  have hm : count .malicious es = 0 := by simp [es, count, List.countP_replicate]
  have hworst : worst es = .suspicious := by simp [es, worst_eq, hn]
  have hfits : Fits es := fun w _ =>
    (List.countP_le_length.trans_eq List.length_replicate).trans_lt hsize
  obtain ⟨f, hf, hholds⟩ := Holds.exists_of_fits hfits
  have hmalicious : f.malicious.toNat = 0 := (hholds.weight .malicious nofun).trans hm
  have hsuspicious : f.suspicious.toNat = n := (hholds.weight .suspicious nofun).trans hs
  refine ⟨hworst, by rw [score, hworst, hs], f, hf, hholds.verdict_eq.trans hworst,
    UInt32.toNat_inj.mp hmalicious, ?_⟩
  rw [← UInt32.toNat_inj, hsuspicious, UInt32.toNat_ofNat_of_lt' hsize]

/-- So many that the score is the first that does not fit. -/
theorem told_replicate (line : String) :
    told .standard (List.replicate 286331152 ⟨.suspicious, line⟩) = .error .addition := by
  obtain ⟨-, -, f, hf, hverdict, -, hsuspicious⟩ :=
    holds_replicate (n := 286331152) (by decide) (by decide) line
  rw [told, hf, Except.bind, result, confidence, hverdict, hsuspicious]
  rfl

/-- Where it had come to the cap, the confidence is lost altogether with one suspicion more. -/
theorem suspicions_overflow :
    let es : List Evidence := List.replicate 286331151 ⟨.suspicious, ""⟩
    let more : List Evidence := [⟨.suspicious, ""⟩]
    (∃ r, told .standard es = .ok r ∧ r.verdict = .suspicious ∧ r.confidence = 95) ∧
      told .standard (es ++ more) = .error .addition := by
  intro es more
  constructor
  · obtain ⟨hworst, hscore, -⟩ := holds_replicate (n := 286331151) (by decide) (by decide) ""
    refine ⟨_, told_of_lt (hscore ▸ by decide), hworst, ?_⟩
    rw [← UInt8.toNat_inj, toNat_confidence, hscore, hworst]
    rfl
  · have hall : es ++ more = List.replicate 286331152 ⟨.suspicious, ""⟩ :=
      List.replicate_succ'.symm
    exact hall ▸ told_replicate ""

end Findings

end PluginGuard
