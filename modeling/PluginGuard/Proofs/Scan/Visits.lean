import Mathlib.Data.List.Forall2
import PluginGuard.Proofs.Scan.Coverage

/-!
# The visits of a walk

A walk makes the visits to a plugin in their one order: each class, then its fields, then its
methods. It goes on to the first visit that ends it or fails, however deep in a class that is, and
no visit behind that one is made.
-/
namespace PluginGuard.Scan

def Step.outcome (s : Scanner) : Step → Except String ScanResult
  | .next f => s.conclude f
  | .last f => s.conclude f
  | .failed message => .error message

theorem Step.andThen_of_ended {step : Step} (h : ∀ g, step ≠ .next g) (k : Findings → Step) :
    step.andThen k = step := by
  cases step with
  | next g => exact absurd rfl (h g)
  | last g => rfl
  | failed message => rfl

/-- Visits that are made one after the other from some findings on, each with the findings that
the ones before it have left. All but the last go on. -/
inductive Course (s : Scanner) : Findings → List (Visit × Findings) → Step → Prop
  | done (f : Findings) : Course s f [] (.next f)
  | went {v : Visit} {f g : Findings} {calls : List (Visit × Findings)} {step : Step} :
      s.visit v f = .next g → Course s g calls step → Course s f ((v, f) :: calls) step
  | ended {v : Visit} {f : Findings} {step : Step} :
      s.visit v f = step → (∀ g, step ≠ .next g) → Course s f [(v, f)] step

def Agree (s s' : Scanner) (calls : List (Visit × Findings)) : Prop :=
  ∀ c ∈ calls, s'.visit c.1 c.2 = s.visit c.1 c.2

namespace Course

variable {s s' : Scanner} {f : Findings} {step : Step} {calls before after : List (Visit × Findings)}
  {c : Visit × Findings} {visits : List Visit} {message : String}

theorem congr (h : Course s f calls step) (hagree : Agree s s' calls) : Course s' f calls step := by
  induction h with
  | done f => exact .done f
  | went hvisit _ ih =>
    rw [Agree, List.forall_mem_cons] at hagree
    exact .went (hagree.1.trans hvisit) (ih hagree.2)
  | ended hvisit hlast => exact .ended ((hagree _ List.mem_cons_self).trans hvisit) hlast

theorem each (h : Course s f calls step) (hmade : calls.map (·.1) <+: visits)
    (hall : ∀ g, step = .next g → calls.map (·.1) = visits) : s.each id visits f = step := by
  induction h generalizing visits with
  | done f =>
    obtain rfl := hall f rfl
    rfl
  | went hvisit _ ih =>
    obtain ⟨rest, rfl⟩ := hmade
    rw [List.map_cons, List.cons_append, Scanner.each, id_eq, hvisit]
    refine ih (List.prefix_append _ _) fun g hg => ?_
    exact (List.cons.inj (hall g hg)).2
  | ended hvisit hlast =>
    obtain ⟨rest, rfl⟩ := hmade
    rw [List.map_singleton, List.singleton_append, Scanner.each, id_eq, hvisit]
    exact Step.andThen_of_ended hlast _

theorem failed (h : Course s f (before ++ c :: after) step) (hagree : Agree s s' before)
    (hfails : s'.visit c.1 c.2 = .failed message) :
    Course s' f (before ++ [c]) (.failed message) := by
  induction before generalizing f with
  | nil =>
    cases h with
    | went => exact .ended hfails nofun
    | ended => exact .ended hfails nofun
  | cons b before ih =>
    rw [Agree, List.forall_mem_cons] at hagree
    rw [List.cons_append] at h
    generalize hcalls : before ++ c :: after = calls at h
    cases h with
    | went hvisit hrest => exact .went (hagree.1.trans hvisit) (ih (hcalls ▸ hrest) hagree.2)
    | ended => simp at hcalls

theorem unique {calls' : List (Visit × Findings)} {step' : Step} (h : Course s f calls step)
    (hmade : calls.map (·.1) <+: visits) (hall : ∀ g, step = .next g → calls.map (·.1) = visits)
    (h' : Course s f calls' step') (hmade' : calls'.map (·.1) <+: visits)
    (hall' : ∀ g, step' = .next g → calls'.map (·.1) = visits) : calls = calls' ∧ step = step' := by
  induction h generalizing visits calls' with
  | done f =>
    obtain rfl := hall f rfl
    cases h' with
    | done => exact ⟨rfl, rfl⟩
    | went => simp at hmade'
    | ended => simp at hmade'
  | went hvisit _ ih =>
    obtain ⟨rest, rfl⟩ := hmade
    cases h' with
    | done => exact absurd (hall' _ rfl) (by simp)
    | went hvisit' hrest' =>
      obtain ⟨rfl, hrestMade⟩ := List.cons_prefix_cons.mp hmade'
      obtain rfl := Step.next.inj (hvisit.symm.trans hvisit')
      obtain ⟨rfl, rfl⟩ := ih (List.prefix_append _ _) (fun g hg => (List.cons.inj (hall g hg)).2)
        hrest' hrestMade fun g hg => (List.cons.inj (hall' g hg)).2
      exact ⟨rfl, rfl⟩
    | ended hvisit' hlast' =>
      obtain ⟨rfl, -⟩ := List.cons_prefix_cons.mp hmade'
      exact absurd (hvisit'.symm.trans hvisit) (hlast' _)
  | ended hvisit hlast =>
    obtain ⟨rest, rfl⟩ := hmade
    cases h' with
    | done => exact absurd (hall' _ rfl) (by simp)
    | went hvisit' _ =>
      obtain ⟨rfl, -⟩ := List.cons_prefix_cons.mp hmade'
      exact absurd (hvisit.symm.trans hvisit') (hlast _)
    | ended hvisit' _ =>
      obtain ⟨rfl, -⟩ := List.cons_prefix_cons.mp hmade'
      exact ⟨rfl, hvisit.symm.trans hvisit'⟩

end Course

/-! ### The classes of an archive -/

theorem forall₂_filterMap {α β : Type} {keep : α → Bool} {g : α → Option β}
    (h : ∀ a, keep a = (g a).isSome) (as : List α) :
    List.Forall₂ (fun a b => g a = some b) (as.filter keep) (as.filterMap g) := by
  induction as with
  | nil => exact .nil
  | cons a as ih =>
    cases hg : g a with
    | none => rwa [List.filter_cons_of_neg (by simp [h, hg]), List.filterMap_cons_none hg]
    | some b =>
      rw [List.filter_cons_of_pos (by simp [h, hg]), List.filterMap_cons_some hg]
      exact .cons hg ih

def refusal? (e : ClassEntry) : Option Unread :=
  match ClassView.parse e with
  | .ok _ => none
  | .error fault => some ⟨e.entry, fault.message⟩

theorem refusal?_eq_some {e : ClassEntry} {u : Unread} : refusal? e = some u ↔
    ∃ fault, ClassView.parse e = .error fault ∧ u = ⟨e.entry, fault.message⟩ := by
  rw [refusal?]
  cases ClassView.parse e with
  | ok c => simp
  | error fault => simp [eq_comm]

theorem Contents.unparsed_ofArchive (archive : Archive) : (ofArchive archive).unparsed =
    archive.unreadable ++ archive.classes.filterMap refusal? :=
  congrArg (archive.unreadable ++ ·) List.filterMap_map

theorem Contents.forall₂_classes (archive : Archive) :
    List.Forall₂ (fun e c => ClassView.parse e = .ok c)
      (archive.classes.filter fun e => (ClassView.parse e).isOk) (ofArchive archive).classes := by
  rw [classes_ofArchive]
  refine (forall₂_filterMap (fun e => ?_) archive.classes).imp fun e c h => ?_
  · cases ClassView.parse e <;> rfl
  · cases hparse : ClassView.parse e with
    | ok d =>
      rw [hparse] at h
      exact congrArg Except.ok (Option.some.inj h)
    | error fault =>
      rw [hparse] at h
      cases h

theorem Contents.forall₂_refusals (archive : Archive) :
    List.Forall₂ (fun e u => ∃ fault, ClassView.parse e = .error fault ∧ u = ⟨e.entry, fault.message⟩)
      (archive.classes.filter fun e => !(ClassView.parse e).isOk)
      (archive.classes.filterMap refusal?) := by
  have hrefused (e : ClassEntry) : (!(ClassView.parse e).isOk) = (refusal? e).isSome := by
    rw [refusal?]
    cases ClassView.parse e <;> rfl
  exact (forall₂_filterMap hrefused archive.classes).imp fun e u => refusal?_eq_some.mp

/-! ### Whole runs -/

namespace Scanner

variable {s : Scanner} {contents : Contents}

theorem exists_course (s : Scanner) (visits : List Visit) (f : Findings) :
    ∃ calls step, Course s f calls step ∧ calls.map (·.1) <+: visits ∧
      ∀ g, step = .next g → calls.map (·.1) = visits := by
  induction visits generalizing f with
  | nil => exact ⟨[], _, .done f, List.prefix_rfl, fun _ _ => rfl⟩
  | cons v visits ih =>
    rcases hvisit : s.visit v f with g | g | message
    · obtain ⟨calls, step, hcourse, hmade, hall⟩ := ih g
      refine ⟨_, _, .went hvisit hcourse, ?_, fun g hg => congrArg (v :: ·) (hall g hg)⟩
      exact (List.prefix_cons_inj v).mpr hmade
    · exact ⟨_, _, .ended hvisit nofun, ⟨visits, rfl⟩, nofun⟩
    · exact ⟨_, _, .ended hvisit nofun, ⟨visits, rfl⟩, nofun⟩

theorem run_eq_outcome {step : Step} (h : s.each id contents.visits (noted contents) = step) :
    s.run contents = step.outcome s := by
  rw [run, walk_eq_each, ← contents.visits_eq, h]
  cases step <;> rfl

/-- A run makes the visits to the plugin in their order from the findings that the notes on unparsed
entries make, up to the first that ends it or fails, and no other. Each class that parses is looked
at in the order of the archive, and every other entry is unparsed. -/
theorem visits_of_run (s : Scanner) (contents : Contents) (archive : Archive) :
    (∃ calls step,
      Course s (contents.unparsed.foldl (fun f u => f.note (notice u).line) .empty) calls step ∧
      calls.map (·.1) <+: contents.visits ∧
      (∀ g, step = .next g → calls.map (·.1) = contents.visits) ∧
      s.run contents = step.outcome s ∧
      (∀ s' : Scanner, s'.conclude = s.conclude → Agree s s' calls →
        s'.run contents = s.run contents) ∧
      ∀ before c after, calls = before ++ c :: after → ∀ (s' : Scanner) message,
        Agree s s' before → s'.visit c.1 c.2 = .failed message →
        s'.run contents = .error message) ∧
    List.Forall₂ (fun e c => ClassView.parse e = .ok c)
      (archive.classes.filter fun e => (ClassView.parse e).isOk)
      (Contents.ofArchive archive).classes ∧
    ∃ refused, (Contents.ofArchive archive).unparsed = archive.unreadable ++ refused ∧
      List.Forall₂ (fun e u => ∃ fault, ClassView.parse e = .error fault ∧ u = ⟨e.entry, fault.message⟩)
        (archive.classes.filter fun e => !(ClassView.parse e).isOk) refused := by
  refine ⟨?_, Contents.forall₂_classes archive, _, Contents.unparsed_ofArchive archive,
    Contents.forall₂_refusals archive⟩
  · obtain ⟨calls, step, hcourse, hmade, hall⟩ := s.exists_course contents.visits (noted contents)
    have hrun := run_eq_outcome (hcourse.each hmade hall)
    refine ⟨calls, step, hcourse, hmade, hall, hrun, ?_, ?_⟩
    · intro s' hconclude hagree
      rw [hrun, run_eq_outcome ((hcourse.congr hagree).each hmade hall)]
      cases step <;> simp only [Step.outcome, hconclude]
    · rintro before c after rfl s' message hagree hfails
      have hmade' : (before ++ [c]).map (·.1) <+: contents.visits := by
        refine List.IsPrefix.trans ?_ hmade
        rw [List.map_append, List.map_append]
        exact (List.prefix_append_right_inj _).mpr ⟨after.map (·.1), rfl⟩
      exact run_eq_outcome ((hcourse.failed hagree hfails).each hmade' nofun)

def halting : Scanner where
  name := "halting"
  response := .standard
  visit v f := match v with
    | .ofMethod _ m => if m.isNative then .last (f.note m.name) else .next f
    | _ => .next f

def stubborn : Scanner :=
  { halting with
    visit := fun v f => match v with
      | .ofClass c => if c.name = "A" then .next f else .failed "B"
      | v => halting.visit v f }

def refusing : Scanner :=
  { halting with
    visit := fun v f => match v with
      | .ofMethod _ m => .failed m.name
      | _ => .next f }

def loader : MethodView := ⟨0x0101, "load", "()V", .ok none⟩

def library (name : String) : ClassView :=
  ⟨s!"{name}.class", name, ⟨0, 52, .empty, 0x21, 0, 0, [], [], [], []⟩, [⟨0, "path", "I"⟩], [loader]⟩

def libraries : Contents := ⟨"A", [library "A", library "B"], [⟨"C.class", "cut off"⟩]⟩

/-- The walk ends at the method of the first class. A scanner that fails at the second class comes
to the same, and one that fails at that method fails. -/
theorem visits_of_run_halting :
    stubborn.run libraries = halting.run libraries ∧
      refusing.run libraries = .error "load" ∧
      ∃ r, halting.run libraries = .ok r ∧
        r.details = ["C.class: not analysed (cut off)", "load"] := by
  obtain ⟨⟨calls, step, hcourse, hmade, hall, hrun, hsame, hfails⟩, -⟩ :=
    visits_of_run halting libraries damaged
  let f : Findings := libraries.unparsed.foldl (fun f u => f.note (notice u).line) .empty
  let before : List (Visit × Findings) :=
    [(.ofClass (library "A"), f), (.ofField (library "A") ⟨0, "path", "I"⟩, f)]
  have hexpected : Course halting f (before ++ [(.ofMethod (library "A") loader, f)])
      (.last (f.note "load")) :=
    .went rfl (.went rfl (.ended rfl nofun))
  obtain ⟨rfl, rfl⟩ := hcourse.unique hmade hall hexpected ⟨_, rfl⟩ nofun
  have hbefore {s' : Scanner} (hclass : ∀ f, s'.visit (.ofClass (library "A")) f = .next f)
      (hfield : ∀ fd f, s'.visit (.ofField (library "A") fd) f = .next f) :
      Agree halting s' before := by
    simp [Agree, before, hclass, hfield, halting]
  refine ⟨hsame stubborn rfl ?_, ?_, _, hrun, by decide⟩
  · refine List.forall_mem_append.mpr ⟨hbefore (fun _ => rfl) fun _ _ => rfl, ?_⟩
    exact List.forall_mem_singleton.mpr rfl
  · exact hfails before _ [] rfl refusing "load" (hbefore (fun _ => rfl) fun _ _ => rfl) rfl

end Scanner

end PluginGuard.Scan
