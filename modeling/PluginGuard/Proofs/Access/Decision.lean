import Mathlib.Data.List.Induction
import PluginGuard.Access.Guard

/-!
# What a check answers

A check denies a call that a plugin made if the call reaches into the guard's own
storage, or if the rules, each overwriting what those before it said, end in a
denial. Everything else is allowed, and no rules allow what is denied for the
storage's sake.
-/
namespace PluginGuard

/-! ### Which rules apply -/

/-- A pattern is about arguments of one shape, and leaves open what it does not set. -/
inductive ArgumentPattern.Fits : ArgumentPattern → Argument → Prop
  | socket {name : TextPattern} {port : Option UInt16} {host : String} {p : UInt16} :
      name.accepts host → (∀ q ∈ port, q = p) → Fits (.socket name port) (.socket host p)
  | exit {code : Option Int32} {c : Int32} :
      (∀ k ∈ code, k = c) → Fits (.exit code) (.exitCode c)
  | text {pattern : TextPattern} {a : Argument} :
      a.kind ≠ .socket → a.kind ≠ .exitCode → pattern.accepts a.display → Fits (.text pattern) a

def Subject.Means : Subject → CallSite → Prop
  | .all, _ => True
  | .plugin name, site => Text.Wildcard.covers name site.plugin
  | .source className method, site =>
    Text.Wildcard.covers className site.className ∧
      ∀ m ∈ method, Text.Wildcard.covers m site.method

def Rule.Applies (r : Rule) (site : CallSite) (a : Argument) : Prop :=
  r.subject.Means site ∧ r.argument.Fits a

theorem ArgumentPattern.accepts_iff (p : ArgumentPattern) (a : Argument) :
    p.accepts a = true ↔ p.Fits a := by
  constructor
  · intro h
    cases p with
    | socket name port =>
      cases a with
      | socket host p =>
        obtain ⟨hname, hport⟩ : name.accepts host = true ∧ (port = none ∨ port = some p) := by
          simpa [accepts] using h
        refine .socket hname fun q hq => ?_
        rcases hport with rfl | rfl
        · cases hq
        · exact (Option.some.inj hq).symm
      | _ => cases h
    | exit code =>
      cases a with
      | exitCode c =>
        refine .exit fun k hk => ?_
        obtain rfl | rfl : code = none ∨ code = some c := by simpa [accepts] using h
        · cases hk
        · exact (Option.some.inj hk).symm
      | _ => cases h
    | text pattern =>
      cases a with
      | socket _ _ => cases h
      | exitCode _ => cases h
      | _ => exact .text nofun nofun h
  · intro h
    cases h with
    | @socket name port host p hname hport =>
      cases port with
      | none => simp [accepts, hname]
      | some q => simp [accepts, hname, hport q rfl]
    | @exit code c hcode =>
      cases code with
      | none => rfl
      | some k => simp [accepts, hcode k rfl]
    | @text pattern a hsocket hexit hshown =>
      cases a with
      | socket _ _ => exact absurd rfl hsocket
      | exitCode _ => exact absurd rfl hexit
      | _ => exact hshown

theorem Subject.accepts_iff (s : Subject) (site : CallSite) :
    s.filter.accepts site = true ↔ s.Means site := by
  cases s with
  | all => simp [filter, CallerFilter.any, CallerFilter.accepts, CallerFilter.admits, Means]
  | plugin name => simp [filter, CallerFilter.any, CallerFilter.accepts, CallerFilter.admits, Means]
  | source className method =>
    cases method <;>
      simp [filter, CallerFilter.any, CallerFilter.accepts, CallerFilter.admits, Means]

theorem Rule.accepts_iff (r : Rule) (site : CallSite) (a : Argument) :
    r.accepts (.concrete site) a = true ↔ r.Applies site a := by
  rw [accepts, Bool.and_eq_true, r.subject.accepts_iff, r.argument.accepts_iff, Applies]

instance (r : Rule) (site : CallSite) (a : Argument) : Decidable (r.Applies site a) :=
  decidable_of_iff _ (r.accepts_iff site a)

/-! ### The verdict of a policy -/

/-- Every rule that applies overwrites what those before it said. -/
def OperationPolicy.verdict (p : OperationPolicy) (site : CallSite) (a : Argument) : Ruling :=
  p.rules.foldl (fun said r => if r.Applies site a then r.ruling else said) p.default

def Policy.verdict (p : Policy) (o : Operation) (site : CallSite) (a : Argument) : Ruling :=
  ((p.find? o).map (·.verdict site a)).getD .allow

/-- The first rule from behind that applies is the last to overwrite. -/
theorem OperationPolicy.decide_eq_verdict (p : OperationPolicy) (site : CallSite) (a : Argument) :
    p.decide (.concrete site) a = p.verdict site a := by
  obtain ⟨d, rules⟩ := p
  rw [decide, verdict]
  induction rules using List.reverseRecOn with
  | nil => rfl
  | append_singleton rules r ih =>
    rw [List.reverse_append, List.reverse_singleton, List.singleton_append, List.find?_cons,
      List.foldl_append, List.foldl_cons, List.foldl_nil]
    by_cases h : r.Applies site a
    · rw [if_pos h, (r.accepts_iff site a).mpr h]
    · rw [if_neg h, Bool.eq_false_iff.mpr fun hr => h ((r.accepts_iff site a).mp hr)]
      exact ih

theorem Policy.decide_eq_verdict (p : Policy) (o : Operation) (site : CallSite) (a : Argument) :
    p.decide o (.concrete site) a = p.verdict o site a := by
  rw [decide, verdict]
  cases p.find? o with
  | none => rfl
  | some op => exact op.decide_eq_verdict site a

/-! ### Checks -/

theorem CallerResolver.callerBy_registry {m : Type → Type} [Monad m] [LawfulMonad m]
    (r : CallerResolver) (frames : List CallFrame) :
    r.callerBy (m := m) (fun className => return r.registry.byClass className) frames =
      return frames.findSome? r.site? := by
  induction frames with
  | nil => rfl
  | cons f outer ih =>
    rw [callerBy, pure_bind, ih, List.findSome?_cons, site?]
    cases r.siteOf f (r.registry.byClass f.className) <;> rfl

theorem CallerResolver.caller?_eq_findSome? (r : CallerResolver) (frames : List CallFrame) :
    r.caller? frames = frames.findSome? r.site? :=
  congrArg Id.run (r.callerBy_registry frames)

namespace Guard

variable (g : Guard) (o : Operation) (a : Argument)

/-- A change to a file at or below the guard's own directory, both taken as locations. -/
def Defends : Prop :=
  g.selfDefense = true ∧ (o = .fileWrite ∨ o = .fileDelete) ∧
    ∃ l, a = .path l ∧ g.workspace.directory.normalize.components <+: l.normalize.components

theorem touchesOwnStorage_iff : g.touchesOwnStorage o a = true ↔ g.Defends o a := by
  have hmodifies : o.modifiesFiles = true ↔ o = .fileWrite ∨ o = .fileDelete := by
    cases o <;> simp [Operation.modifiesFiles]
  cases a with
  | path l => simp [touchesOwnStorage, Defends, hmodifies, inOwnStorage, Path.startsWith, and_assoc]
  | _ => simp [touchesOwnStorage, Defends]

theorem decide_none : g.decide o a none = .ok () := rfl

theorem decide_eq_error_iff (caller : Option CallSite) (d : Denial) :
    g.decide o a caller = .error d ↔
      ∃ site, caller = some site ∧ (g.Defends o a ∨ g.policy.verdict o site a = .deny) ∧
        d = ⟨o, site, a⟩ := by
  cases caller with
  | none => simp [decide_none]
  | some site =>
    rw [decide, Policy.decide_eq_verdict]
    by_cases hown : g.touchesOwnStorage o a = true
    · have hdefends := (g.touchesOwnStorage_iff o a).mp hown
      simp [hown, hdefends, eq_comm]
    · have hopen : ¬ g.Defends o a := fun h => hown ((g.touchesOwnStorage_iff o a).mpr h)
      cases hverdict : g.policy.verdict o site a with
      | allow => simp [hown, hopen, hverdict]
      | deny => simp [hown, hverdict, eq_comm]

theorem decide_eq_ok_iff (caller : Option CallSite) :
    g.decide o a caller = .ok () ↔
      ∀ site, caller = some site → ¬ g.Defends o a ∧ g.policy.verdict o site a = .allow := by
  have hruling : ∀ r : Ruling, r = .allow ↔ ¬ r = .deny := by
    intro r
    cases r <;> simp
  have hallowed : g.decide o a caller = .ok () ↔ ∀ d, g.decide o a caller ≠ .error d := by
    cases g.decide o a caller <;> simp
  simp only [hallowed, ne_eq, decide_eq_error_iff, hruling, ← not_or]
  constructor
  · intro h site hsite hdenied
    exact h _ ⟨site, hsite, hdenied, rfl⟩
  · rintro h d ⟨site, hsite, hdenied, -⟩
    exact h site hsite hdenied

theorem decide_congr {g g' : Guard} {o : Operation} {a : Argument} {caller : Option CallSite}
    (hown : g.touchesOwnStorage o a = g'.touchesOwnStorage o a)
    (hpolicy : ∀ site, caller = some site →
      g.policy.decide o (.concrete site) a = g'.policy.decide o (.concrete site) a) :
    g.decide o a caller = g'.decide o a caller := by
  cases caller with
  | none => rw [decide_none, decide_none]
  | some site => simp only [decide, hown, hpolicy site rfl]

theorem run_check (frames : List CallFrame) (t : Thread) :
    (g.check o a frames).run t =
      (if t.inCheck then .ok () else g.decide o a (g.resolver.caller? frames), t) := by
  rw [check, checkBy, g.resolver.callerBy_registry, ← g.resolver.caller?_eq_findSome?]
  obtain ⟨stack, inCheck⟩ := t
  cases inCheck <;> rfl

theorem run_check_outside {t : Thread} (outside : t.inCheck = false) (frames : List CallFrame) :
    (g.check o a frames).run t = (g.decide o a (g.resolver.caller? frames), t) := by
  rw [run_check, outside, if_neg Bool.false_ne_true]

theorem run_checkCurrent (t : Thread) :
    (g.checkCurrent o a).run t = (g.check o a t.stack).run t := by
  obtain ⟨stack, inCheck⟩ := t
  cases inCheck <;> rfl

theorem check_congr {g g' : Guard} {o : Operation} {a : Argument} {frames : List CallFrame}
    (h : g.decide o a (g.resolver.caller? frames) = g'.decide o a (g'.resolver.caller? frames)) :
    g.check o a frames = g'.check o a frames := by
  funext t
  refine (g.run_check o a frames t).trans (.trans ?_ (g'.run_check o a frames t).symm)
  rw [h]

theorem check_of_policies {p p' : Policy} {callers : CallerResolver} {o : Operation} {a : Argument}
    {frames : List CallFrame}
    (h : ∀ site, callers.caller? frames = some site →
      p.decide o (.concrete site) a = p'.decide o (.concrete site) a)
    (w : Workspace) (selfDefense : Bool) :
    (Guard.mk p w callers selfDefense).check o a frames =
      (Guard.mk p' w callers selfDefense).check o a frames := by
  refine check_congr (decide_congr ?_ h)
  cases a <;> rfl

/-- A check denies a call of a plugin exactly if it is kept off the guard's own storage or the
rules end in a denial, and allows everything else; other rules change nothing about the first. -/
theorem check_eq_error_iff {t : Thread} (outside : t.inCheck = false) (frames : List CallFrame) :
    (∀ d, (g.check o a frames).run t = (.error d, t) ↔
      ∃ site, g.resolver.caller? frames = some site ∧
        (g.Defends o a ∨ g.policy.verdict o site a = .deny) ∧ d = ⟨o, site, a⟩) ∧
    ((g.check o a frames).run t = (.ok (), t) ↔
      ∀ site, g.resolver.caller? frames = some site →
        ¬ g.Defends o a ∧ g.policy.verdict o site a = .allow) ∧
    ∀ site, g.resolver.caller? frames = some site → g.Defends o a →
      ∀ rules : Policy,
        (Guard.check { g with policy := rules } o a frames).run t = (.error ⟨o, site, a⟩, t) := by
  refine ⟨fun d => ?_, ?_, fun site hsite hdefends rules => ?_⟩
  · rw [g.run_check_outside o a outside, Prod.mk.injEq, and_iff_left rfl, decide_eq_error_iff]
  · rw [g.run_check_outside o a outside, Prod.mk.injEq, and_iff_left rfl, decide_eq_ok_iff]
  · rw [run_check_outside _ o a outside]
    exact Prod.ext ((decide_eq_error_iff _ o a _ _).mpr ⟨site, hsite, .inl hdefends, rfl⟩) rfl

/-! ### A deletion that every rule allows -/

def cleaners : Guard where
  policy := Policy.empty.put .fileDelete
    ⟨.deny, [⟨.allow, .plugin "Clea*", .text (.wildcard "/*"), "ALLOW PLUGIN=Clea* /*"⟩]⟩
  workspace := ⟨⟨"/h/../w"⟩⟩
  resolver := ⟨Registry.ofList [⟨⟨"/plugins/h.jar"⟩, "Host", ["h.Bridge"], ""⟩,
    ⟨⟨"/plugins/c.jar"⟩, "Cleaner", ["c.Main"], ""⟩], some "Host"⟩
  selfDefense := true

def cleanerFrames : List CallFrame :=
  [⟨"java.io.File", "delete"⟩, ⟨"h.Bridge", "forward"⟩, ⟨"c.Main", "run"⟩]

theorem check_eq_error_iff_cleaner :
    Thread.fresh.inCheck = false ∧
      (cleaners.check .fileDelete (.path ⟨"/w/c"⟩) cleanerFrames).run .fresh =
        (.error ⟨.fileDelete, ⟨"/plugins/c.jar", "Cleaner", "c.Main", "run"⟩, .path ⟨"/w/c"⟩⟩,
          .fresh) := by
  refine ⟨rfl, ((cleaners.check_eq_error_iff .fileDelete _ rfl cleanerFrames).1 _).mpr ?_⟩
  refine ⟨_, ?_, .inl ((cleaners.touchesOwnStorage_iff _ _).mp ?_), rfl⟩
  · decide
  · decide

end Guard

end PluginGuard
