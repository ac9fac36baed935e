import Mathlib.Data.List.Basic
import PluginGuard.Config.Validation

/-!
# What settings are reported for

The errors of a report are those of the settings, each at the field that it comes from. No two
settings share a field, so whether there is an error at a field depends on its setting alone.
-/
namespace PluginGuard

namespace ValidationReport

variable {f : Finding}

def Rejects (r : ValidationReport) (path : String) : Prop := ∃ f ∈ r.errors, f.path = path

theorem mem_errors_join {rs : List ValidationReport} :
    f ∈ (join rs).errors ↔ ∃ r ∈ rs, f ∈ r.errors := by
  induction rs with
  | nil => simp [join, empty]
  | cons r rs ih =>
    rw [List.exists_mem_cons_iff, ← ih]
    exact List.mem_append

theorem mem_errors_check {α : Type} {field : Option α} {good : α → Bool}
    {finding : α → ValidationReport} :
    f ∈ (check field good finding).errors ↔
      ∃ v, field = some v ∧ good v = false ∧ f ∈ (finding v).errors := by
  cases field with
  | none => simp [check, empty]
  | some v => cases h : good v <;> simp [check, h, empty]

theorem mem_errors_error {path message : String} :
    f ∈ (error path message).errors ↔ f = ⟨path, message⟩ := List.mem_singleton

theorem not_mem_errors_warning {path message : String} : f ∉ (warning path message).errors :=
  List.not_mem_nil

end ValidationReport

/-! ### Fields -/

/-- The settings that there can be an error at. -/
inductive Field
  | pluginsDir
  | hostPluginName
  | override
  | scannerOverride (scanner : String)
  | default (operation : String)
  deriving DecidableEq, Repr

namespace Field

def path : Field → String
  | pluginsDir => "config.pluginsDir"
  | hostPluginName => "config.hostPluginName"
  | override => "static-analysis.countermeasure"
  | scannerOverride scanner => s!"static-analysis.scanners.{scanner}.countermeasure"
  | default operation => s!"dac.{operation}.default"

theorem path_scannerOverride (scanner : String) :
    (scannerOverride scanner).path = "static-analysis.scanners." ++ scanner ++ ".countermeasure" :=
  rfl

theorem path_default (operation : String) :
    (default operation).path = "dac." ++ operation ++ ".default" := rfl

def initial : Field → Char
  | pluginsDir | hostPluginName => 'c'
  | override | scannerOverride _ => 's'
  | default _ => 'd'

theorem head?_path (field : Field) : field.path.toList.head? = some field.initial := by
  cases field with
  | pluginsDir | hostPluginName | override => rfl
  | scannerOverride scanner => simp [path_scannerOverride, initial]
  | default operation => simp [path_default, initial]

/-- Paths into two documents part at the first character, and others where their fixed texts do or
the names in them. -/
theorem path_injective : Function.Injective path := by
  intro field field' h
  have hinitial : field.initial = field'.initial :=
    Option.some.inj (by rw [← head?_path, ← head?_path, h])
  have hhost : pluginsDir.path ≠ hostPluginName.path := by decide
  have hscanner (scanner : String) : (scannerOverride scanner).path ≠
      "static-analysis.countermeasure" := by
    intro h
    have hchars := congrArg String.toList h
    simp [path_scannerOverride] at hchars
  cases field with
  | pluginsDir =>
    cases field' with
    | pluginsDir => rfl
    | hostPluginName => exact absurd h hhost
    | _ => exact absurd hinitial (by simp [initial])
  | hostPluginName =>
    cases field' with
    | pluginsDir => exact absurd h.symm hhost
    | hostPluginName => rfl
    | _ => exact absurd hinitial (by simp [initial])
  | override =>
    cases field' with
    | override => rfl
    | scannerOverride scanner => exact absurd h.symm (hscanner scanner)
    | _ => exact absurd hinitial (by simp [initial])
  | scannerOverride scanner =>
    cases field' with
    | override => exact absurd h (hscanner scanner)
    | scannerOverride scanner' => simpa [path_scannerOverride] using h
    | _ => exact absurd hinitial (by simp [initial])
  | default operation =>
    cases field' with
    | default operation' => simpa [path_default] using h
    | _ => exact absurd hinitial (by simp [initial])

end Field

/-! ### The errors of settings -/

open ValidationReport Validation

/-- The errors that settings have, each at its field with its message. -/
inductive Settings.Reported (s : Settings) : Field → String → Prop
  | nested {working plugins : Path} (hworking : s.global.workingDir = some working)
      (hplugins : s.global.pluginsDir = some plugins) (inside : plugins.startsWith working = true) :
      Reported s .pluginsDir (s!"'{plugins.text}' lies inside workingDir '{working.text}'; " ++
        "self-defense would deny every plugin write under it")
  | blankHost {name : String} (hname : s.global.hostPluginName = some name)
      (blank : Text.allBlank name = true) :
      Reported s .hostPluginName "hostPluginName cannot be empty"
  | override {text : String} (htext : s.analysis.countermeasure = some text)
      (unknown : isCountermeasure text = false) :
      Reported s .override
        s!"Unknown countermeasure '{text}'. Use 'warn', 'abort', or 'quarantine'"
  | scannerOverride {scanner : String} {sc : ScannerSettings} {text : String}
      (hscanner : (scanner, sc) ∈ s.analysis.scanners.entries)
      (htext : sc.countermeasure = some text) (unknown : isCountermeasure text = false) :
      Reported s (.scannerOverride scanner) s!"Unknown countermeasure '{text}'"
  | default {operation : String} {o : OperationSettings} {text : String}
      (hoperation : (operation, o) ∈ s.access.entries) (htext : o.default = some text)
      (unknown : isVerdict text = false) :
      Reported s (.default operation) s!"Default must be ALLOW or DENY, got '{text}'"

namespace Settings

variable {s : Settings} {f : Finding}

theorem exists_reported_of_mem_global (h : f ∈ (Validation.global s.global).errors) :
    ∃ field message, s.Reported field message ∧ f = ⟨field.path, message⟩ := by
  simp only [Validation.global, mem_errors_join, List.mem_cons, List.not_mem_nil, or_false,
    exists_eq_or_imp, exists_eq_left, mem_errors_check, not_mem_errors_warning, mem_errors_error,
    and_false, exists_false, false_or] at h
  obtain hdirectories | ⟨name, hname, hblank, rfl⟩ := h
  · unfold directories at hdirectories
    split at hdirectories
    · next working plugins hworking hplugins =>
      split_ifs at hdirectories with inside
      · exact ⟨_, _, .nested hworking hplugins inside, mem_errors_error.mp hdirectories⟩
      · cases hdirectories
    · cases hdirectories
  · exact ⟨_, _, .blankHost hname (by simpa using hblank), rfl⟩

theorem exists_reported_of_mem_analysis (h : f ∈ (Validation.analysis s.analysis).errors) :
    ∃ field message, s.Reported field message ∧ f = ⟨field.path, message⟩ := by
  simp only [Validation.analysis, mem_errors_join, List.mem_cons, List.not_mem_nil, or_false,
    exists_eq_or_imp, exists_eq_left, mem_errors_check, not_mem_errors_warning, mem_errors_error,
    and_false, exists_false, false_or, List.mem_map] at h
  obtain ⟨text, htext, hunknown, rfl⟩ | ⟨_, ⟨⟨scanner, sc⟩, hscanner, rfl⟩, hf⟩ |
    ⟨_, ⟨⟨p, i⟩, -, rfl⟩, hf⟩ := h
  · exact ⟨_, _, .override htext hunknown, rfl⟩
  · obtain ⟨text, htext, hunknown, hf⟩ := mem_errors_check.mp hf
    exact ⟨_, _, .scannerOverride hscanner htext hunknown, mem_errors_error.mp hf⟩
  · simp only [exclusion] at hf
    split_ifs at hf <;> cases hf

theorem exists_reported_of_mem_access (h : f ∈ (Validation.access s.access).errors) :
    ∃ field message, s.Reported field message ∧ f = ⟨field.path, message⟩ := by
  simp only [Validation.access, mem_errors_join, List.mem_map] at h
  obtain ⟨_, ⟨⟨name, o⟩, hoperation, rfl⟩, hf⟩ := h
  obtain hf | hf := List.mem_append.mp hf
  · obtain ⟨text, htext, hunknown, hf⟩ := mem_errors_check.mp hf
    exact ⟨_, _, .default hoperation htext hunknown, mem_errors_error.mp hf⟩
  · simp only [mem_errors_join, List.mem_map] at hf
    obtain ⟨_, ⟨⟨line, i⟩, -, rfl⟩, hf⟩ := hf
    simp only [ruleLine] at hf
    split_ifs at hf <;> cases hf

theorem mem_errors_validate_iff_parts :
    f ∈ s.validate.errors ↔ f ∈ (Validation.global s.global).errors ∨
      f ∈ (Validation.analysis s.analysis).errors ∨ f ∈ (Validation.access s.access).errors := by
  simp [validate, mem_errors_join]

theorem Reported.mem_errors {field : Field} {message : String} (h : s.Reported field message) :
    ⟨field.path, message⟩ ∈ s.validate.errors := by
  rw [mem_errors_validate_iff_parts, Validation.global, Validation.analysis, Validation.access]
  simp only [mem_errors_join, List.exists_mem_cons_iff]
  cases h with
  | nested hworking hplugins inside =>
    refine .inl (.inr (.inl ?_))
    simp only [directories, hworking, hplugins, inside, if_true]
    exact mem_errors_error.mpr rfl
  | @blankHost name hname blank =>
    have hbad : (!Text.allBlank name) = false := by rw [blank, Bool.not_true]
    exact .inl (.inr (.inr (.inl
      (mem_errors_check.mpr ⟨_, hname, hbad, mem_errors_error.mpr rfl⟩))))
  | override htext unknown =>
    exact .inr (.inl (.inr (.inl
      (mem_errors_check.mpr ⟨_, htext, unknown, mem_errors_error.mpr rfl⟩))))
  | scannerOverride hscanner htext unknown =>
    exact .inr (.inl (.inr (.inr (.inl ⟨_, List.mem_map_of_mem hscanner,
      mem_errors_check.mpr ⟨_, htext, unknown, mem_errors_error.mpr rfl⟩⟩))))
  | default hoperation htext unknown =>
    exact .inr (.inr ⟨_, List.mem_map_of_mem hoperation, List.mem_append_left _
      (mem_errors_check.mpr ⟨_, htext, unknown, mem_errors_error.mpr rfl⟩)⟩)

theorem mem_errors_validate : f ∈ s.validate.errors ↔
    ∃ field message, s.Reported field message ∧ f = ⟨field.path, message⟩ := by
  constructor
  · intro h
    obtain h | h | h := mem_errors_validate_iff_parts.mp h
    · exact exists_reported_of_mem_global h
    · exact exists_reported_of_mem_analysis h
    · exact exists_reported_of_mem_access h
  · rintro ⟨field, message, h, rfl⟩
    exact h.mem_errors

theorem rejects_path_iff (field : Field) :
    s.validate.Rejects field.path ↔ ∃ message, s.Reported field message := by
  constructor
  · rintro ⟨f, hf, hpath⟩
    obtain ⟨field', message, h, rfl⟩ := mem_errors_validate.mp hf
    obtain rfl := Field.path_injective hpath
    exact ⟨message, h⟩
  · rintro ⟨message, h⟩
    exact ⟨_, h.mem_errors, rfl⟩

theorem rejects_pluginsDir_iff : s.validate.Rejects "config.pluginsDir" ↔
    ∃ working plugins, s.global.workingDir = some working ∧ s.global.pluginsDir = some plugins ∧
      plugins.startsWith working = true := by
  refine (rejects_path_iff .pluginsDir).trans ⟨?_, ?_⟩
  · rintro ⟨_, h⟩
    cases h with
    | nested hworking hplugins inside => exact ⟨_, _, hworking, hplugins, inside⟩
  · rintro ⟨working, plugins, hworking, hplugins, inside⟩
    exact ⟨_, .nested hworking hplugins inside⟩

theorem rejects_override_iff : s.validate.Rejects "static-analysis.countermeasure" ↔
    ∃ text, s.analysis.countermeasure = some text ∧ isCountermeasure text = false := by
  refine (rejects_path_iff .override).trans ⟨?_, ?_⟩
  · rintro ⟨_, h⟩
    cases h with
    | override htext unknown => exact ⟨_, htext, unknown⟩
  · rintro ⟨text, htext, unknown⟩
    exact ⟨_, .override htext unknown⟩

theorem rejects_scannerOverride_iff (scanner : String) :
    s.validate.Rejects s!"static-analysis.scanners.{scanner}.countermeasure" ↔
      ∃ sc text, (scanner, sc) ∈ s.analysis.scanners.entries ∧ sc.countermeasure = some text ∧
        isCountermeasure text = false := by
  refine (rejects_path_iff (.scannerOverride scanner)).trans ⟨?_, ?_⟩
  · rintro ⟨_, h⟩
    cases h with
    | scannerOverride hscanner htext unknown => exact ⟨_, _, hscanner, htext, unknown⟩
  · rintro ⟨sc, text, hscanner, htext, unknown⟩
    exact ⟨_, .scannerOverride hscanner htext unknown⟩

theorem rejects_default_iff (operation : String) :
    s.validate.Rejects s!"dac.{operation}.default" ↔
      ∃ o text, (operation, o) ∈ s.access.entries ∧ o.default = some text ∧
        isVerdict text = false := by
  refine (rejects_path_iff (.default operation)).trans ⟨?_, ?_⟩
  · rintro ⟨_, h⟩
    cases h with
    | default hoperation htext unknown => exact ⟨_, _, hoperation, htext, unknown⟩
  · rintro ⟨o, text, hoperation, htext, unknown⟩
    exact ⟨_, .default hoperation htext unknown⟩

end Settings

end PluginGuard
