import Mathlib.Algebra.GroupWithZero.Nat
import Mathlib.Data.List.Flatten
import Mathlib.Tactic.Choose
import PluginGuard.Proofs.Scan.Evidence
import PluginGuard.Proofs.Scan.Walk
import PluginGuard.Scan.Builtin

/-!
# What is found in a plugin

A scanner that finds the same in a visit whatever it found before comes to what is said of all that
its visits find, in their order, after a note on each entry that could not be looked at. All built-in
scanners but that of names are of this kind. They find no more than there is to look at.
-/
namespace PluginGuard

namespace Findings

variable {step step' : Findings → Except Overflow Findings} {n n' : Nat}

/-- What is added does not depend on what was there, and is at most so many lines. -/
def Adds (n : Nat) (step : Findings → Except Overflow Findings) : Prop :=
  ∃ es : List Evidence, es.length ≤ n ∧ ∀ f, step f = es.foldlM add f

namespace Adds

theorem nothing : Adds n .ok := ⟨[], Nat.zero_le _, fun _ => rfl⟩

theorem one {e : Evidence} (h : ∀ f, step f = f.add e) : Adds 1 step :=
  ⟨[e], le_rfl, fun f => by rw [List.foldlM_cons, h]; exact (bind_pure _).symm⟩

theorem note (line : String) : Adds 1 fun f => .ok (f.note line) :=
  one (e := ⟨.clean, line⟩) fun _ => rfl

theorem suspect (line : String) : Adds 1 (·.suspect line) :=
  one (e := ⟨.suspicious, line⟩) fun _ => rfl

theorem condemn (line : String) : Adds 1 (·.condemn line) :=
  one (e := ⟨.malicious, line⟩) fun _ => rfl

theorem mono (h : Adds n step) (hle : n ≤ n') : Adds n' step := by
  obtain ⟨es, hlength, hes⟩ := h
  exact ⟨es, hlength.trans hle, hes⟩

theorem bind (h : Adds n step) (h' : Adds n' step') : Adds (n + n') fun f => step f >>= step' := by
  obtain ⟨es, hlength, hes⟩ := h
  obtain ⟨es', hlength', hes'⟩ := h'
  refine ⟨es ++ es', ?_, fun f => ?_⟩
  · rw [List.length_append]
    exact Nat.add_le_add hlength hlength'
  · rw [List.foldlM_append, ← hes, ← funext hes']

theorem ite {p : Prop} [Decidable p] (h : Adds n step) (h' : Adds n step') :
    Adds n fun f => if p then step f else step' f := by
  by_cases hp : p
  · simpa only [if_pos hp] using h
  · simpa only [if_neg hp] using h'

theorem foldlM {α : Type} {look : Findings → α → Except Overflow Findings}
    (h : ∀ a, Adds 1 (look · a)) (as : List α) : Adds as.length fun f => as.foldlM look f := by
  induction as with
  | nil => exact nothing
  | cons a as ih =>
    simp only [List.foldlM_cons, List.length_cons, Nat.add_comm as.length]
    exact (h a).bind ih

end Adds

end Findings

namespace Scan

open Findings (Adds told)

/-! ### Entries that could not be looked at -/

def notice (u : Unread) : Evidence := ⟨.clean, s!"{u.entry}: not analysed ({u.reason})"⟩

def Contents.notices (contents : Contents) : List Evidence := contents.unparsed.map notice

namespace Scanner

theorem foldlM_notices (us : List Unread) (f : Findings) : (us.map notice).foldlM Findings.add f =
    .ok (us.foldl (fun f u => f.note (notice u).line) f) := by
  induction us generalizing f with
  | nil => rfl
  | cons u us ih =>
    rw [List.map_cons, List.foldlM_cons, List.foldl_cons, ← ih]
    rfl

theorem foldlM_notices_empty (contents : Contents) :
    contents.notices.foldlM Findings.add .empty = .ok (noted contents) :=
  foldlM_notices contents.unparsed .empty

theorem count_notices (contents : Contents) {w : Verdict} (hw : w ≠ .clean) :
    Evidence.count w contents.notices = 0 := by
  simp [Evidence.count, Contents.notices, List.countP_eq_zero, notice, hw.symm]

theorem holds_noted (contents : Contents) : (noted contents).Holds contents.notices := by
  have hfits : Evidence.Fits contents.notices := fun w hw => by
    rw [count_notices contents hw]
    decide
  obtain ⟨f, hf, hholds⟩ := Findings.Holds.exists_of_fits hfits
  rw [foldlM_notices_empty, Except.ok.injEq] at hf
  exact hf ▸ hholds

theorem score_notices_append_lt (contents : Contents) {more : List Evidence}
    (h : more.length < 2 ^ 28) : Evidence.score (contents.notices ++ more) < UInt32.size := by
  have hs := count_notices contents (w := .suspicious) nofun
  have hm := count_notices contents (w := .malicious) nofun
  have hscore := Evidence.score_le (contents.notices ++ more)
  have hmore := Evidence.count_add_count_le more
  rw [Evidence.count_append, Evidence.count_append, hs, hm] at hscore
  change _ < 2 ^ 32
  omega

end Scanner

/-! ### The same whatever was found before -/

def Visit.size : Visit → Nat
  | .ofClass c => 1 + c.strings.length
  | .ofField _ _ => 1
  | .ofMethod c m => 1 + (c.calls m).length

def Contents.size (contents : Contents) : Nat := (contents.visits.map Visit.size).sum

theorem sum_size_mono {size size' : Visit → Nat} (h : ∀ v, size v ≤ size' v) (visits : List Visit) :
    (visits.map size).sum ≤ (visits.map size').sum := by
  induction visits with
  | nil => exact le_rfl
  | cons v visits ih => exact Nat.add_le_add (h v) ih

theorem Contents.length_visits_le (contents : Contents) :
    contents.visits.length ≤ contents.size := by
  have hone (v : Visit) : 1 ≤ v.size := by cases v <;> simp [Visit.size]
  simpa [Contents.size] using sum_size_mono hone contents.visits

namespace Scanner

variable {s : Scanner} {found : Visit → List Evidence}

/-- Every visit is made, and a visit finds the same whatever was found before. -/
structure Finds (s : Scanner) (found : Visit → List Evidence) : Prop where
  looks : s.Looks (fun v f => (found v).foldlM Findings.add f) .ok
  size : ∀ v, (found v).length ≤ v.size

theorem exists_finds {inClass : ClassView → Findings → Except Overflow Findings}
    {inMethod : ClassView → MethodView → Findings → Except Overflow Findings}
    (hclass : ∀ c, Adds (1 + c.strings.length) (inClass c))
    (hmethod : ∀ c m, Adds (1 + (c.calls m).length) (inMethod c m))
    (hofClass : ∀ c f, s.visit (.ofClass c) f = .of (inClass c f))
    (hofField : ∀ c fd f, s.visit (.ofField c fd) f = .next f)
    (hofMethod : ∀ c m f, s.visit (.ofMethod c m) f = .of (inMethod c m f))
    (hconclude : ∀ f, s.conclude f = (f.result s.response).mapError (·.message)) :
    ∃ found, s.Finds found := by
  have hvisit (v : Visit) : ∃ es : List Evidence, es.length ≤ v.size ∧
      ∀ f, s.visit v f = .of (es.foldlM Findings.add f) := by
    cases v with
    | ofClass c =>
      obtain ⟨es, hlength, hes⟩ := hclass c
      exact ⟨es, hlength, fun f => by rw [hofClass, hes]⟩
    | ofField c fd => exact ⟨[], Nat.zero_le _, hofField c fd⟩
    | ofMethod c m =>
      obtain ⟨es, hlength, hes⟩ := hmethod c m
      exact ⟨es, hlength, fun f => by rw [hofMethod, hes]⟩
  choose found hlength hfound using hvisit
  exact ⟨found, ⟨hfound, hconclude⟩, hlength⟩

theorem exists_finds_ofMethods (name : String) (response : Response)
    {look : ClassView → MethodView → Findings → Except Overflow Findings}
    (hlook : ∀ c m, Adds (1 + (c.calls m).length) (look c m)) :
    ∃ found, (ofMethods name response look).Finds found :=
  exists_finds (fun _ => .nothing) hlook (fun _ _ => rfl)
    (fun _ _ _ => rfl) (fun _ _ _ => rfl) fun _ => rfl

theorem exists_finds_ofClasses (name : String) (response : Response)
    {look : ClassView → Findings → Except Overflow Findings}
    (hlook : ∀ c, Adds (1 + c.strings.length) (look c)) :
    ∃ found, (ofClasses name response look).Finds found :=
  exists_finds hlook (fun _ _ => .nothing) (fun _ _ => rfl)
    (fun _ _ _ => rfl) (fun _ _ _ => rfl) fun _ => rfl

theorem foldlM_flatMap {α : Type} (step : Findings → α → Except Overflow Findings)
    (found : Visit → List α) (visits : List Visit) (f : Findings) :
    visits.foldlM (fun f v => (found v).foldlM step f) f = (visits.flatMap found).foldlM step f := by
  induction visits generalizing f with
  | nil => rfl
  | cons v visits ih =>
    rw [List.foldlM_cons, List.flatMap_cons, List.foldlM_append]
    exact congrArg _ (funext ih)

theorem Finds.run (h : s.Finds found) (contents : Contents) : s.run contents =
    (told s.response (contents.notices ++ contents.visits.flatMap found)).mapError (·.message) := by
  rw [h.looks.run, foldlM_flatMap, told, List.foldlM_append, foldlM_notices_empty]
  exact congrArg (fun left : Except Overflow Findings =>
    (left.bind (·.result s.response)).mapError (·.message)) (bind_pure _)

theorem Finds.length_le_size (h : s.Finds found) (contents : Contents) :
    (contents.visits.flatMap found).length ≤ contents.size := by
  rw [List.length_flatMap]
  exact sum_size_mono h.size contents.visits

end Scanner

/-! ### The built-in scanners -/

theorem ProcessExec.adds_look (c : ClassView) (m : MethodView) : Adds 1 (look c m) := by
  unfold look
  rcases List.find? _ (c.calls m) with _ | ⟨place, call⟩
  · exact .nothing
  · rcases List.find? namesShell _ with _ | command
    · exact .suspect _
    · exact .condemn _

namespace NativeCode

theorem adds_foldlM_lookCall (site : String)
    {look : Bool × Findings → Nat × ClassFile.MemberRef → Except Overflow (Bool × Findings)}
    (hlook : ∀ st call, look st call = lookCall site st call.2)
    (calls : List (Nat × ClassFile.MemberRef)) (reported : Bool) :
    Adds calls.length fun f => do return (← calls.foldlM look (reported, f)).2 := by
  -- A call may set the flag, so the induction is for both of its values.
  induction calls generalizing reported with
  | nil => exact .nothing
  | cons call calls ih =>
    simp only [List.foldlM_cons, hlook, lookCall, List.length_cons, Nat.add_comm calls.length]
    by_cases hlibrary : isOneOf loaders call.2
    · simp only [if_pos hlibrary, bind_assoc, pure_bind]
      exact (Adds.suspect _).bind (ih reported)
    · by_cases hmemory : (!reported && unsafeOwners.contains call.2.owner) = true
      · simp only [if_neg hlibrary, if_pos hmemory, bind_assoc, pure_bind]
        exact (Adds.suspect _).bind (ih true)
      · simp only [if_neg hlibrary, if_neg hmemory, pure_bind]
        exact (ih reported).mono (Nat.le_add_left _ _)

theorem adds_look (c : ClassView) (m : MethodView) : Adds (1 + (c.calls m).length) (look c m) := by
  have hcalls := adds_foldlM_lookCall (c.site m) (fun _ _ => rfl) (c.calls m) false
  unfold look
  exact .ite ((Adds.suspect _).bind hcalls) (Adds.nothing.bind hcalls)

end NativeCode

namespace ClassLoading

theorem adds_lookClass (c : ClassView) : Adds 1 fun f => .ok (lookClass c f) := by
  unfold lookClass
  rcases c.definition.superName with _ | _ | name
  · exact .nothing
  · exact .nothing
  · simp only [apply_ite Except.ok]
    exact .ite (.note _) .nothing

theorem adds_lookMethod (c : ClassView) (m : MethodView) : Adds 1 (lookMethod c m) := by
  unfold lookMethod
  dsimp only
  rcases List.find? defines _ with _ | define
  · exact .nothing
  · rcases List.find? (isOneOf decoders) _ with _ | decode
    · exact .suspect _
    · exact .condemn _

theorem exists_finds : ∃ found, scanner.Finds found :=
  Scanner.exists_finds (fun c => (adds_lookClass c).mono (Nat.le_add_right _ _))
    (fun c m => (adds_lookMethod c m).mono (Nat.le_add_right _ _)) (fun _ _ => rfl)
    (fun _ _ _ => rfl) (fun _ _ _ => rfl) fun _ => rfl

end ClassLoading

theorem SecurityTamper.adds_look (c : ClassView) (m : MethodView) : Adds 1 (look c m) := by
  unfold look
  dsimp only
  rcases List.find? (isOneOf replacers) _ with _ | r
  · refine .ite ?_ .nothing
    rcases List.find? guardedFields.contains _ with _ | name
    · exact .nothing
    · exact .suspect _
  · exact .condemn _

theorem PrivilegeGrant.adds_look (c : ClassView) (m : MethodView) :
    Adds (1 + (c.calls m).length) (look c m) := by
  unfold look
  rw [Nat.add_comm]
  refine .bind (.foldlM (fun call => .ite (.suspect _) .nothing) _) (.ite ?_ .nothing)
  rcases List.find? grantsByCommand _ with _ | command
  · exact .nothing
  · exact .condemn _

namespace Strings

theorem adds_lookText (c : ClassView) (text : String) : Adds 1 (lookText c · text) := by
  unfold lookText
  rcases List.find? _ kinds with _ | k
  · exact .nothing
  · exact .ite (.condemn _) (.suspect _)

theorem adds_lookTexts (c : ClassView) :
    Adds (1 + c.strings.length) fun f => c.strings.foldlM (lookText c) f :=
  (Adds.foldlM (adds_lookText c) c.strings).mono (Nat.le_add_left _ _)

end Strings

namespace Scanner

theorem eq_names_or_exists_finds {s : Scanner} (hs : s ∈ builtin) :
    s = Names.scanner ∨ ∃ found, s.Finds found := by
  have hcalls (c : ClassView) (m : MethodView) : 1 ≤ 1 + (c.calls m).length := Nat.le_add_right _ _
  simp only [builtin, List.mem_cons, List.not_mem_nil, or_false] at hs
  rcases hs with rfl | rfl | rfl | rfl | rfl | rfl | rfl
  · exact .inr (exists_finds_ofMethods _ _ fun c m => (ProcessExec.adds_look c m).mono (hcalls c m))
  · exact .inr (exists_finds_ofMethods _ _ NativeCode.adds_look)
  · exact .inr ClassLoading.exists_finds
  · exact .inr (exists_finds_ofMethods _ _ fun c m =>
      (SecurityTamper.adds_look c m).mono (hcalls c m))
  · exact .inr (exists_finds_ofMethods _ _ PrivilegeGrant.adds_look)
  · exact .inr (exists_finds_ofClasses _ _ Strings.adds_lookTexts)
  · exact .inl rfl

theorem exists_finds_of_builtin {s : Scanner} (hs : s ∈ builtin) (hname : s.name ≠ "obfuscation") :
    ∃ found, s.Finds found :=
  (eq_names_or_exists_finds hs).resolve_left fun h => hname (congrArg Scanner.name h)

end Scanner

end Scan

end PluginGuard
