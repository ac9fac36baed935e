import Mathlib.Data.List.Basic
import PluginGuard.Proofs.Hook.Course

/-!
# The marks of injections

An injection is marked when its edit has changed a class in work. So over calls
one after the other the marked injections are those whose edit changed a class in
some call. The class gets defined with the edit only if that call was answered
with bytes: where it failed at a later injection or when the class was written,
the mark stays and says more than is true.
-/
namespace PluginGuard

open ClassFile

namespace Transformer

open Injection

structure Call where
  name : String
  bytes : List UInt8
  deriving DecidableEq, Repr

def runs (t : Transformer) :
    List Call → List (Except InstrumentError Instrumented) × Transformer
  | [] => ([], t)
  | c :: cs =>
    let (answer, t') := t.instrument c.name c.bytes
    let (answers, t'') := t'.runs cs
    (answer :: answers, t'')

def Call.Edits (c : Call) (is : List Injection) (place : Nat) : Prop :=
  ∃ k, parseNamed (internalName c.name) c.bytes = .ok k ∧ EditsAt (internalName c.name) k is place

variable {t t' : Transformer} {c : Call} {cs : List Call} {place : Nat} {e : Installed}

/-! ### One call -/

theorem Call.targets_of_edits (h : c.Edits t.injections place) : t.targets c.name = true := by
  obtain ⟨k, -, i, _, _, hmeets, -⟩ := h
  exact targets_iff.mpr ⟨i, List.mem_of_getElem? hmeets.listed, hmeets.concerned⟩

theorem Call.not_edits_of_error {cause : InstrumentError}
    (h : parseNamed (internalName c.name) c.bytes = .error cause) : ¬c.Edits t.injections place := by
  rintro ⟨k, hnamed, -⟩
  cases h.symm.trans hnamed

theorem exists_mark_of_instrument (c : Call) (he : t.installed[place]? = some e) :
    ∃ e', (t.instrument c.name c.bytes).2.installed[place]? = some e' ∧
      e'.injection = e.injection ∧
      (e'.applied = true ↔ e.applied = true ∨ c.Edits t.injections place) := by
  have unedited (h : ¬c.Edits t.injections place) :
      e.applied = true ↔ e.applied = true ∨ c.Edits t.injections place := (or_iff_left h).symm
  cases htargets : t.targets c.name with
  | false =>
    rw [instrument_of_not_targets c.bytes htargets]
    refine ⟨e, he, rfl, unedited fun h => ?_⟩
    exact Bool.false_ne_true (htargets.symm.trans (Call.targets_of_edits h))
  | true =>
    simp only [instrument, htargets, if_true]
    cases hnamed : parseNamed (internalName c.name) c.bytes with
    | error cause => exact ⟨e, he, rfl, unedited (Call.not_edits_of_error hnamed)⟩
    | ok k =>
      obtain ⟨e', he', hinjection, hmark⟩ :=
        exists_mark_of_applyAll (internalName c.name) ⟨k, false⟩ he
      refine ⟨e', he', hinjection, hmark.trans (or_congr_right ⟨fun h => ⟨k, hnamed, h⟩, ?_⟩)⟩
      rintro ⟨k', hnamed', h⟩
      cases hnamed.symm.trans hnamed'
      exact h

theorem changed_of_edits {r : Instrumented} (hrun : t.instrument c.name c.bytes = (.ok r, t'))
    (h : c.Edits t.injections place) : ∃ out, r = .changed out := by
  obtain ⟨k, p, hnamed, course, hserialize⟩ :=
    course_of_instrument (Call.targets_of_edits h) hrun
  obtain ⟨k', hnamed', hat⟩ := h
  cases hnamed.symm.trans hnamed'
  have hchanged : p.changed = true := course.changed.mpr (.inr ⟨place, hat⟩)
  obtain ⟨hunchanged, -⟩ | ⟨-, out, -, rfl⟩ := serialize_eq_ok.mp hserialize
  · cases hchanged.symm.trans hunchanged
  · exact ⟨out, rfl⟩

theorem length_installed (h : t'.injections = t.injections) :
    t'.installed.length = t.installed.length := by
  simpa [injections] using congrArg List.length h

theorem eq_of_not_edits (hrun : (t.instrument c.name c.bytes).2 = t')
    (h : ∀ place, ¬c.Edits t.injections place) : t' = t := by
  have hlength := length_installed (hrun ▸ injections_instrument t c.name c.bytes)
  refine congrArg Transformer.mk (List.ext_getElem? fun place => ?_)
  cases he : t.installed[place]? with
  | none => rw [List.getElem?_eq_none_iff] at he ⊢; omega
  | some e =>
    obtain ⟨i, marked⟩ := e
    obtain ⟨⟨i', marked'⟩, he', hinjection, hmark⟩ := exists_mark_of_instrument c he
    obtain rfl : i' = i := hinjection
    obtain rfl : marked' = marked := Bool.eq_iff_iff.mpr (hmark.trans (or_iff_left (h place)))
    exact hrun ▸ he'

/-! ### Calls one after the other -/

theorem injections_runs (t : Transformer) (cs : List Call) :
    (t.runs cs).2.injections = t.injections := by
  induction cs generalizing t with
  | nil => rfl
  | cons c cs ih => exact (ih _).trans (injections_instrument t c.name c.bytes)

theorem exists_mark_of_runs (cs : List Call) (he : t.installed[place]? = some e) :
    ∃ e', (t.runs cs).2.installed[place]? = some e' ∧ e'.injection = e.injection ∧
      (e'.applied = true ↔ e.applied = true ∨ ∃ c ∈ cs, c.Edits t.injections place) := by
  induction cs generalizing t e with
  | nil => exact ⟨e, he, rfl, by simp⟩
  | cons c cs ih =>
    obtain ⟨e₁, he₁, hinjection, hmark⟩ := exists_mark_of_instrument c he
    obtain ⟨e', he', hinjection', hmark'⟩ := ih he₁
    refine ⟨e', he', hinjection'.trans hinjection, ?_⟩
    simp only [hmark', hmark, injections_instrument, or_assoc, List.mem_cons, exists_eq_or_imp]

theorem exists_answer_of_mem (hc : c ∈ cs) : ∃ t' : Transformer, t'.injections = t.injections ∧
    (c, (t'.instrument c.name c.bytes).1) ∈ cs.zip (t.runs cs).1 := by
  induction cs generalizing t with
  | nil => cases hc
  | cons d cs ih =>
    cases hc with
    | head => exact ⟨t, rfl, List.mem_cons_self⟩
    | tail _ hc =>
      obtain ⟨t', hinjections, hmem⟩ := ih (t := (t.instrument d.name d.bytes).2) hc
      exact ⟨t', hinjections.trans (injections_instrument t d.name d.bytes),
        List.mem_cons_of_mem _ hmem⟩

theorem exists_answer_of_edits (hc : c ∈ cs) (h : c.Edits t.injections place) :
    (∃ cause, (c, .error cause) ∈ cs.zip (t.runs cs).1) ∨
      ∃ out, (c, .ok (.changed out)) ∈ cs.zip (t.runs cs).1 := by
  obtain ⟨t', hinjections, hanswer⟩ := exists_answer_of_mem (t := t) hc
  cases hrun : (t'.instrument c.name c.bytes).1 with
  | error cause => exact .inl ⟨cause, hrun ▸ hanswer⟩
  | ok r =>
    obtain ⟨out, rfl⟩ := changed_of_edits (Prod.ext hrun rfl) (hinjections ▸ h)
    exact .inr ⟨out, hrun ▸ hanswer⟩

theorem mem_inert_iff {i : Injection} :
    i ∈ t.inert ↔ ∃ place : Nat, t.installed[place]? = some ⟨i, false⟩ := by
  rw [inert, List.mem_map]
  constructor
  · rintro ⟨⟨j, marked⟩, he, rfl⟩
    obtain ⟨he, hmark⟩ := List.mem_filter.mp he
    obtain rfl : marked = false := by simpa using hmark
    exact List.mem_iff_getElem?.mp he
  · rintro ⟨place, he⟩
    exact ⟨_, List.mem_filter.mpr ⟨List.mem_of_getElem? he, rfl⟩, rfl⟩

/-- If no call that failed had changed a class by its edit, an injection is inert exactly if it was
so before and no call was answered with bytes that have its edit. A call that fails before any edit
leaves all marks. -/
theorem inert_of_runs (t : Transformer) (cs : List Call) :
    (∀ i, (∀ c cause place, (c, .error cause) ∈ cs.zip (t.runs cs).1 →
        t.injections[place]? = some i → ¬c.Edits t.injections place) →
      (i ∈ (t.runs cs).2.inert ↔ ∃ place : Nat, t.installed[place]? = some ⟨i, false⟩ ∧
        ∀ c out, (c, .ok (.changed out)) ∈ cs.zip (t.runs cs).1 →
          ¬c.Edits t.injections place)) ∧
    ∀ (c : Call) cause t', t.instrument c.name c.bytes = (.error cause, t') →
      (∀ place, ¬c.Edits t.injections place) → t' = t := by
  refine ⟨fun i spared => ?_, fun c cause t' hrun => eq_of_not_edits (congrArg Prod.snd hrun)⟩
  rw [mem_inert_iff]
  constructor
  · rintro ⟨place, hplace⟩
    have hlength := length_installed (injections_runs t cs)
    have hlt := (List.getElem?_eq_some_iff.mp hplace).1
    obtain ⟨⟨j, marked⟩, he⟩ : ∃ e, t.installed[place]? = some e :=
      ⟨_, List.getElem?_eq_getElem (hlength ▸ hlt)⟩
    obtain ⟨e', he', hinjection, hmark⟩ := exists_mark_of_runs cs he
    cases hplace.symm.trans he'
    obtain rfl : i = j := hinjection
    -- No call set the mark, be it one that was answered or one that failed.
    have hnone := not_or.mp fun h => Bool.false_ne_true (hmark.mpr h)
    obtain rfl : marked = false := Bool.eq_false_iff.mpr hnone.1
    exact ⟨place, he, fun c out hc hedits => hnone.2 ⟨c, (List.of_mem_zip hc).1, hedits⟩⟩
  · rintro ⟨place, he, hunedited⟩
    have hi : t.injections[place]? = some i := by rw [injections, List.getElem?_map, he]; rfl
    obtain ⟨⟨j, marked⟩, he', hinjection, hmark⟩ := exists_mark_of_runs cs he
    obtain rfl : j = i := hinjection
    obtain rfl : marked = false := Bool.eq_false_iff.mpr fun h => by
      obtain h | ⟨c, hc, hedits⟩ := hmark.mp h
      · cases h
      · obtain ⟨cause, hanswer⟩ | ⟨out, hanswer⟩ := exists_answer_of_edits hc hedits
        · exact spared c cause place hanswer hi hedits
        · exact hunedited c out hanswer hedits
    exact ⟨place, he'⟩

def pairBytes (stop : List UInt8) : List UInt8 :=
  [0xCA, 0xFE, 0xBA, 0xBE, 0, 0, 0, 52, 0, 9, 1, 0, 4, 0x43, 0x6F, 0x64, 0x65, 1, 0, 3, 0x72, 0x75,
    0x6E, 1, 0, 3, 0x28, 0x29, 0x56, 1, 0, 3, 0x61, 0x2F, 0x42, 7, 0, 4, 1, 0, 16, 0x6A, 0x61, 0x76,
    0x61, 0x2F, 0x6C, 0x61, 0x6E, 0x67, 0x2F, 0x4F, 0x62, 0x6A, 0x65, 0x63, 0x74, 7, 0, 6, 1, 0, 4,
    0x73, 0x74, 0x6F, 0x70, 0, 0x21, 0, 5, 0, 7, 0, 0, 0, 0, 0, 2, 0, 9, 0, 2, 0, 3, 0, 1, 0, 1, 0,
    0, 0, 13, 0, 4, 0, 4, 0, 0, 0, 1, 0xB1, 0, 0, 0, 0, 0, 9, 0, 8, 0, 3, 0, 1, 0, 1, 0, 0, 0,
    UInt8.ofNat stop.length] ++ stop ++ [0, 0]

def pairer : Transformer :=
  .ofList [.call "h" (.of "a.B" "run" "()V") (.runtime "h") .begin,
    .call "g" (.of "a.B" "stop" "()V") (.runtime "g") .begin]

def attempts : List Call :=
  [⟨"a.B", []⟩, ⟨"a.B", pairBytes [0, 4, 0, 4, 0, 0, 0, 1, 0xB1, 0, 0, 0, 0]⟩]

theorem inert_of_runs_attempts :
    ∃ c out, (c, .ok (.changed out)) ∈ attempts.zip (pairer.runs attempts).1 ∧
      c.Edits pairer.injections 0 := by
  have hanswer : ((pairer.runs attempts).1.drop 1).all (·.toOption.isSome) = true := by
    decide +kernel
  have hinert : (pairer.runs attempts).2.inert = [] := by decide +kernel
  have hiff := (inert_of_runs pairer attempts).1 pairer.injections[0] ?_
  · refine Classical.byContradiction fun hnone => ?_
    rw [hinert] at hiff
    exact List.not_mem_nil (hiff.mpr ⟨0, rfl, fun c out hc h => hnone ⟨c, out, hc, h⟩⟩)
  · intro c cause place hc _ hedits
    obtain hc | hc := List.mem_cons.mp hc
    · cases congrArg Prod.fst hc
      have herror : parseNamed (internalName "a.B") [] = .error (.parse "a/B" (.truncated 0 4)) :=
        rfl
      exact Call.not_edits_of_error herror hedits
    · have hlater := List.all_eq_true.mp hanswer _ (List.of_mem_zip hc).2
      cases hlater

/-- The body of the second method cannot be read: the call fails, and the injection into the first
method is marked. -/
theorem marked_of_failed_call :
    (pairer.instrument "a.B" (pairBytes [])).1 =
        .error (.edit "g" "a/B" "stop()V" (.truncated 0 2)) ∧
      pairer.inert = pairer.injections ∧
      (pairer.runs [⟨"a.B", pairBytes []⟩]).2.inert = pairer.injections.drop 1 := by
  decide +kernel

end Transformer

end PluginGuard
