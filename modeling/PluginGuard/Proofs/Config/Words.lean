import PluginGuard.Access.Policy
import PluginGuard.Proofs.Config.Reported
import PluginGuard.Proofs.Text.Cut
import PluginGuard.Scan.Verdict

/-!
# Words in settings

A countermeasure and a default are words in any case. Those who read them pass over the blanks
around a word, and a report does not: it rejects the words that cannot be read, and besides them
those that stand between blanks.
-/
namespace PluginGuard

namespace Text

/-! ### Words -/

variable {text : String} {word : String} {words : List String}

theorem lowerChar_of_isBlank {c : Char} (h : isBlank c = true) : Ascii.lowerChar c = c := by
  refine if_neg fun hcapital => ?_
  have hlow : 65 ≤ c.toNat := hcapital.1
  have hhigh : c.toNat ≤ 90 := hcapital.2
  simp only [isBlank, Bool.or_eq_true, Bool.and_eq_true, decide_eq_true_eq, beq_iff_eq] at h
  omega

theorem trim_of_forall (h : ∀ c ∈ text.toList, isBlank c = false) : trim text = text := by
  have htrim : trimChars text.toList = text.toList := by
    cases hchars : text.toList with
    | nil => rfl
    | cons c cs =>
      rw [hchars] at h
      exact trimChars_cons (h c List.mem_cons_self) (.of_forall h)
  rw [trim, htrim, String.ofList_toList]

theorem trim_of_lower_eq (plain : word.toList.any isBlank = false)
    (h : Ascii.lower text = word) : trim text = text := by
  refine trim_of_forall fun c hc => Bool.eq_false_iff.mpr fun hblank => ?_
  have hmem : c ∈ word.toList := by
    rw [← h, Ascii.lower, String.toList_ofList, Ascii.lowerChars, ← lowerChar_of_isBlank hblank]
    exact List.mem_map_of_mem hc
  exact List.any_eq_false.mp plain c hmem hblank

theorem lower_mem_iff (plain : ∀ word ∈ words, word.toList.any isBlank = false) :
    Ascii.lower text ∈ words ↔ Ascii.lower (trim text) ∈ words ∧ trim text = text := by
  constructor
  · intro h
    have htrim : trim text = text := trim_of_lower_eq (plain _ h) rfl
    exact ⟨by rwa [htrim], htrim⟩
  · rintro ⟨h, htrim⟩
    rwa [htrim] at h

theorem sameIgnoringCase_iff (lowered : Ascii.lower word = word) :
    Ascii.sameIgnoringCase word text = true ↔ Ascii.lower text = word := by
  rw [Ascii.sameIgnoringCase, beq_iff_eq, eq_comm (b := word), ← String.toList_inj]
  nth_rewrite 2 [← lowered]
  simp [Ascii.lower]

theorem sameIgnoringCase_comm (a b : String) :
    Ascii.sameIgnoringCase a b = Ascii.sameIgnoringCase b a := Bool.beq_comm

end Text

open Text Validation

/-! ### Readers -/

variable {text : String}

theorem Validation.oneOf_iff {words : List String}
    (lowered : ∀ word ∈ words, Ascii.lower word = word) :
    oneOf words text = true ↔ Ascii.lower text ∈ words := by
  rw [oneOf, List.any_eq_true]
  constructor
  · rintro ⟨word, hword, hsame⟩
    rwa [(sameIgnoringCase_iff (lowered word hword)).mp hsame]
  · intro h
    exact ⟨_, h, (sameIgnoringCase_iff (lowered _ h)).mpr rfl⟩

theorem Countermeasure.ofSetting?_eq_none_iff :
    ofSetting? text = none ↔ Ascii.lower (trim text) ∉ ["warn", "abort", "quarantine"] := by
  unfold ofSetting?
  split <;> simp_all

theorem Policy.defaultOf_eq_none_iff :
    defaultOf (some text) = none ↔ Ascii.lower (trim text) ∉ ["allow", "deny"] := by
  have hallow : Ascii.sameIgnoringCase (trim text) "allow" = true ↔
      Ascii.lower (trim text) = "allow" := by
    rw [sameIgnoringCase_comm, sameIgnoringCase_iff (by decide)]
  have hdeny : Ascii.sameIgnoringCase (trim text) "deny" = true ↔
      Ascii.lower (trim text) = "deny" := by
    rw [sameIgnoringCase_comm, sameIgnoringCase_iff (by decide)]
  rw [defaultOf, Ruling.ofName?]
  simp only [hallow, hdeny, List.mem_cons, List.not_mem_nil, or_false]
  split_ifs <;> simp_all

theorem isCountermeasure_eq_false_iff :
    isCountermeasure text = false ↔ Countermeasure.ofSetting? text = none ∨ trim text ≠ text := by
  rw [← Bool.not_eq_true, isCountermeasure, oneOf_iff (by decide), lower_mem_iff (by decide),
    Countermeasure.ofSetting?_eq_none_iff, not_and_or]

theorem isVerdict_eq_false_iff :
    isVerdict text = false ↔ Policy.defaultOf (some text) = none ∨ trim text ≠ text := by
  rw [← Bool.not_eq_true, isVerdict, oneOf_iff (by decide), lower_mem_iff (by decide),
    Policy.defaultOf_eq_none_iff, not_and_or]

/-! ### What a report rejects -/

namespace Settings

/-- A report rejects a countermeasure, the common one or that of a scanner, exactly if no
countermeasure is read from it or there are blanks around it, and a default exactly if no ruling is
read from it or there are blanks around it. -/
theorem rejects_iff_unread (s : Settings) :
    (s.validate.Rejects "static-analysis.countermeasure" ↔
      ∃ text, s.analysis.countermeasure = some text ∧
        (Countermeasure.ofSetting? text = none ∨ trim text ≠ text)) ∧
    (∀ scanner, s.validate.Rejects s!"static-analysis.scanners.{scanner}.countermeasure" ↔
      ∃ sc text, (scanner, sc) ∈ s.analysis.scanners.entries ∧ sc.countermeasure = some text ∧
        (Countermeasure.ofSetting? text = none ∨ trim text ≠ text)) ∧
    ∀ operation, s.validate.Rejects s!"dac.{operation}.default" ↔
      ∃ o text, (operation, o) ∈ s.access.entries ∧ o.default = some text ∧
        (Policy.defaultOf (some text) = none ∨ trim text ≠ text) := by
  refine ⟨?_, fun scanner => ?_, fun operation => ?_⟩
  · simp only [rejects_override_iff, isCountermeasure_eq_false_iff]
  · simp only [rejects_scannerOverride_iff, isCountermeasure_eq_false_iff]
  · simp only [rejects_default_iff, isVerdict_eq_false_iff]

def spaced : Settings :=
  { unset with
    analysis := { AnalysisSettings.unset with countermeasure := some " Quarantine" }
    access := .ofList [("file-read", ⟨some "ALLOW ", []⟩)] }

/-- Both are read, and both are rejected. -/
theorem rejects_spaced :
    Countermeasure.ofSetting? " Quarantine" = some .quarantine ∧
      spaced.validate.Rejects "static-analysis.countermeasure" ∧
      Policy.defaultOf (some "ALLOW ") = some .allow ∧
      spaced.validate.Rejects "dac.file-read.default" := by
  refine ⟨by decide, ?_, by decide, ?_⟩
  · exact rejects_override_iff.mpr ⟨_, rfl, by decide⟩
  · exact (rejects_default_iff "file-read").mpr ⟨_, _, List.mem_singleton_self _, rfl, by decide⟩

end Settings

end PluginGuard
