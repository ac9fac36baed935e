import PluginGuard.Scan.Scanner

/-!
# Walks

A walk over classes makes the visits of its list one after the other. Where none of them ends it,
a run is one sequence of steps that fails where the first of them overflows.
-/
namespace PluginGuard.Scan

theorem Step.andThen_assoc (step : Step) (k l : Findings → Step) :
    (step.andThen k).andThen l = step.andThen fun f => (k f).andThen l := by
  cases step <;> rfl

def ClassView.visits (c : ClassView) : List Visit :=
  .ofClass c :: (c.fields.map (.ofField c) ++ c.methods.map (.ofMethod c))

theorem Contents.visits_eq (contents : Contents) :
    contents.visits = contents.classes.flatMap ClassView.visits := rfl

namespace Scanner

variable (s : Scanner)

theorem each_append {α : Type} (place : α → Visit) (as bs : List α) (f : Findings) :
    s.each place (as ++ bs) f = (s.each place as f).andThen (s.each place bs) := by
  induction as generalizing f with
  | nil => rfl
  | cons a as ih =>
    rw [List.cons_append, each, each, Step.andThen_assoc]
    exact congrArg _ (funext ih)

theorem each_map {α : Type} (place : α → Visit) (as : List α) (f : Findings) :
    s.each id (as.map place) f = s.each place as f := by
  induction as generalizing f with
  | nil => rfl
  | cons a as ih =>
    rw [List.map_cons, each, each]
    exact congrArg _ (funext ih)

theorem walkClass_eq_each (c : ClassView) (f : Findings) :
    s.walkClass c f = s.each id c.visits f := by
  rw [walkClass, ClassView.visits, each]
  refine congrArg _ (funext fun f => ?_)
  rw [each_append, each_map]
  exact congrArg _ (funext fun f => (s.each_map _ _ f).symm)

theorem walk_eq_each (cs : List ClassView) (f : Findings) :
    s.walk cs f = s.each id (cs.flatMap ClassView.visits) f := by
  induction cs generalizing f with
  | nil => rfl
  | cons c cs ih =>
    rw [walk, List.flatMap_cons, each_append, walkClass_eq_each]
    exact congrArg _ (funext ih)

variable {s}

structure Looks (s : Scanner) (look : Visit → Findings → Except Overflow Findings)
    (weigh : Findings → Except Overflow Findings) : Prop where
  visit : ∀ v f, s.visit v f = .of (look v f)
  conclude : ∀ f, s.conclude f = ((weigh f).bind (·.result s.response)).mapError (·.message)

namespace Looks

variable {look : Visit → Findings → Except Overflow Findings}
  {weigh : Findings → Except Overflow Findings}

theorem each (h : s.Looks look weigh) (visits : List Visit) (f : Findings) :
    s.each id visits f = .of (visits.foldlM (fun f v => look v f) f) := by
  induction visits generalizing f with
  | nil => rfl
  | cons v visits ih =>
    rw [Scanner.each, id_eq, h.visit, List.foldlM_cons]
    cases look v f with
    | error o => rfl
    | ok g => exact ih g

theorem run (h : s.Looks look weigh) (contents : Contents) : s.run contents =
    (((contents.visits.foldlM (fun f v => look v f) (noted contents)).bind weigh).bind
      (·.result s.response)).mapError (·.message) := by
  rw [Scanner.run, walk_eq_each, ← contents.visits_eq, h.each]
  cases contents.visits.foldlM (fun f v => look v f) (noted contents) with
  | error o => rfl
  | ok f => exact h.conclude f

theorem exists_overflow (h : s.Looks look weigh) {contents : Contents} {message : String}
    (hrun : s.run contents = .error message) : ∃ o : Overflow, message = o.message := by
  rw [h.run] at hrun
  generalize Except.bind _ _ = result at hrun
  cases result with
  | error o => exact ⟨o, (Except.error.inj hrun).symm⟩
  | ok r => cases hrun

end Looks

end Scanner

end PluginGuard.Scan
