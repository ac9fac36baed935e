import PluginGuard.Proofs.Access.Attribution

/-!
# Checks within checks

To find a caller, a check looks up the owners of classes, and a lookup may itself perform guarded
operations, which ask for checks of their own. Here programs of checks and internal work, each
lookup again such a program, are given two meanings. On a thread, a mark says whether a check is
under way, and nothing but the mark keeps lookups from nesting for ever. Without a mark, it is
written down which checks pass and which are decided. One relation between the two, kept by every
step, says that they agree and that each step leaves the mark as it was.
-/
namespace PluginGuard

variable {σ α β : Type}

/-! ### Programs -/

/-- What a thread may do between and within scopes. Besides the thread itself there is a state that
anything else happens in. -/
inductive Work (σ : Type) : Type → Type 1
  | done {α : Type} (a : α) : Work σ α
  /-- Leaves the scopes that are open, up to the work that contains it. -/
  | stop {α : Type} : Work σ α
  | andThen {α β : Type} (w : Work σ α) (next : α → Work σ β) : Work σ β
  /-- Goes on behind the work also if that ends early. -/
  | contained {α : Type} (w : Work σ α) : Work σ (Option α)
  | touch {α : Type} (f : σ → α × σ) : Work σ α
  | recorded : Work σ (List CallFrame)
  | record (change : List CallFrame → List CallFrame) : Work σ Unit
  | check (g : Guard) (o : Operation) (a : Argument) (frames : List CallFrame) :
      Work σ (Except Denial Unit)
  | checkCurrent (g : Guard) (o : Operation) (a : Argument) : Work σ (Except Denial Unit)
  | internally {α : Type} (w : Work σ α) : Work σ α

abbrev Lookup (σ : Type) := Guard → String → Work σ (Option Plugin)

/-- Lookups as they are run, by whether the recorded frames are in use meanwhile. -/
abbrev Owners (m : Type → Type) := Bool → Guard → String → m (Option Plugin)

/-! ### With a mark -/

inductive Halt
  | stopped
  /-- Lookups are nested deeper than was allowed for. -/
  | bottomless
  deriving DecidableEq

abbrev Running (σ : Type) := ExceptT Halt (StateT σ OnThread)

namespace Running

def on (x : Running σ α) (s : σ) (t : Thread) : (Except Halt α × σ) × Thread :=
  (x.run.run s).run t

def caught : Except Halt α → Except Halt (Option α)
  | .ok a => .ok (some a)
  | .error .stopped => .ok none
  | .error .bottomless => .error .bottomless

def contain (x : Running σ α) : Running σ (Option α) := ExceptT.mk (caught <$> x.run)

theorem on_bind (x : Running σ α) (f : α → Running σ β) (s : σ) (t : Thread) :
    on (x >>= f) s t =
      on (ExceptT.mk (ExceptT.bindCont f (on x s t).1.1)) (on x s t).1.2 (on x s t).2 := rfl

theorem on_contain (x : Running σ α) (s : σ) (t : Thread) :
    on (contain x) s t = ((caught (on x s t).1.1, (on x s t).1.2), (on x s t).2) := rfl

theorem on_finally (x : Running σ α) (f : Thread → Thread) (s : σ) (t : Thread) :
    on (tryFinally x (modifyThe Thread f)) s t = ((on x s t).1, f (on x s t).2) := by
  cases hx : on x s t with
  | mk p u =>
    obtain ⟨r, s'⟩ := p
    simp only [on, StateT.run, ExceptT.run] at hx
    -- What comes last is told how the body ended, and does the same either way.
    cases r <;>
      simp [tryFinally, tryFinally', on, StateT.run, ExceptT.run, hx, bind, StateT.bind, ExceptT.mk,
        Functor.map, ExceptT.map] <;>
      rfl

theorem on_marked (x : Running σ α) (s : σ) (t : Thread) :
    on (Guard.marked x) s t =
      ((on x s { t with inCheck := true }).1,
        { (on x s { t with inCheck := true }).2 with inCheck := t.inCheck }) :=
  on_finally x _ s { t with inCheck := true }

end Running

/-- Nobody can change the recorded frames while they are in use, as they are while the caller of a
check is looked for among them. -/
def Work.run (ownerOf : Owners (Running σ)) (inUse : Bool) {α : Type} : Work σ α → Running σ α
  | .done a => return a
  | .stop => throw .stopped
  | .andThen w next => do (next (← w.run ownerOf inUse)).run ownerOf inUse
  | .contained w => (w.run ownerOf inUse).contain
  | .touch f => modifyGetThe σ f
  | .recorded => return (← getThe Thread).stack
  | .record change =>
    if inUse then throw .stopped
    else modifyThe Thread fun t => { t with stack := change t.stack }
  | .check g o a frames => g.checkBy (ownerOf inUse g) o a frames
  | .checkCurrent g o a => g.checkCurrentBy (ownerOf true g) o a
  | .internally w => Guard.internally (w.run ownerOf inUse)

def Lookup.running (lookup : Lookup σ) : Nat → Owners (Running σ)
  | 0 => fun _ _ _ => throw .bottomless
  | depth + 1 => fun inUse g className => (lookup g className).run (lookup.running depth) inUse

def Work.exec (lookup : Lookup σ) (depth : Nat) (inUse : Bool) (w : Work σ α) : Running σ α :=
  w.run (lookup.running depth) inUse

/-! ### Without a mark -/

abbrev Unmarked (σ : Type) := OptionT (StateM (σ × List CallFrame))

namespace Unmarked

def ended : Option α → Except Halt α
  | none => .error .stopped
  | some a => .ok a

theorem ended_ne (r : Option α) : ended r ≠ .error .bottomless := by
  cases r <;> exact nofun

def on (y : Unmarked σ α) (s : σ) (t : Thread) : (Except Halt α × σ) × Thread :=
  let r := y.run.run (s, t.stack)
  ((ended r.1, r.2.1), { t with stack := r.2.2 })

theorem run_bind {y : Unmarked σ α} {a : α} {p p' : σ × List CallFrame}
    (hy : y.run.run p = (some a, p')) (h : α → Unmarked σ β) :
    (y >>= h).run.run p = (h a).run.run p' := by
  simp only [OptionT.run_bind, Option.elimM, StateT.run_bind, hy]
  rfl

theorem run_return {y : Unmarked σ α} {a : α} {p : σ × List CallFrame}
    (hy : (y.run.run p).1 = some a) (f : α → β) :
    ((do return f (← y) : Unmarked σ β).run.run p).1 = some (f a) := by
  cases hrun : y.run.run p with
  | mk r p' =>
    rw [hrun] at hy
    obtain rfl : r = some a := hy
    rw [run_bind hrun]
    rfl

end Unmarked

/-- Within a scope every check passes; outside each one is decided. -/
def Work.unmarked (ownerOf : Owners (Unmarked σ)) (within inUse : Bool) {α : Type} :
    Work σ α → Unmarked σ α
  | .done a => return a
  | .stop => failure
  | .andThen w next => do (next (← w.unmarked ownerOf within inUse)).unmarked ownerOf within inUse
  | .contained w => OptionT.lift (w.unmarked ownerOf within inUse).run
  | .touch f => modifyGet fun (s, stack) => ((f s).1, (f s).2, stack)
  | .recorded => return (← get).2
  | .record change => if inUse then failure else modify fun (s, stack) => (s, change stack)
  | .check g o a frames =>
    if within then return .ok ()
    else do return g.decide o a (← g.resolver.callerBy (ownerOf inUse g) frames)
  | .checkCurrent g o a =>
    if within then return .ok ()
    else do return g.decide o a (← g.resolver.callerBy (ownerOf true g) (← get).2)
  | .internally w => w.unmarked ownerOf true inUse

def Work.inside (inUse : Bool) (w : Work σ α) : Unmarked σ α :=
  w.unmarked (fun _ _ _ => failure) true inUse

def Lookup.inside (lookup : Lookup σ) : Owners (Unmarked σ) :=
  fun inUse g className => (lookup g className).inside inUse

def Work.outside (lookup : Lookup σ) (inUse : Bool) (w : Work σ α) : Unmarked σ α :=
  w.unmarked lookup.inside false inUse

/-! ### Both agree -/

/-- On threads whose mark is this, both do the same and leave the mark. -/
def Simulates (mark : Bool) (x : Running σ α) (y : Unmarked σ α) : Prop :=
  ∀ s stack, x.on s ⟨stack, mark⟩ = y.on s ⟨stack, mark⟩

namespace Simulates

variable {mark : Bool} {x : Running σ α} {y : Unmarked σ α}

theorem bind {f : α → Running σ β} {h : α → Unmarked σ β} (hx : Simulates mark x y)
    (hf : ∀ a, Simulates mark (f a) (h a)) : Simulates mark (x >>= f) (y >>= h) := by
  intro s stack
  rw [Running.on_bind, hx]
  simp only [Unmarked.on, OptionT.run_bind, Option.elimM, StateT.run_bind]
  cases y.run.run (s, stack) with
  | mk r p =>
    cases r with
    | none => rfl
    | some a => exact hf a p.1 p.2

theorem contain (hx : Simulates mark x y) : Simulates mark x.contain (OptionT.lift y.run) := by
  intro s stack
  rw [Running.on_contain, hx]
  simp only [Unmarked.on, OptionT.run_lift, StateT.run_bind]
  cases y.run.run (s, stack) with
  | mk r p => cases r <;> rfl

theorem marked (hx : Simulates true x y) : Simulates mark (Guard.marked x) y := by
  intro s stack
  rw [Running.on_marked, hx]
  rfl

variable (g : Guard) (o : Operation) (a : Argument)

theorem guarded_within (caller : Running σ (Option CallSite)) :
    Simulates true (g.guarded o a caller) (return .ok ()) := fun _ _ => rfl

theorem guarded_outside {x : Running σ (Option CallSite)} {y : Unmarked σ (Option CallSite)}
    (h : Simulates true x y) :
    Simulates false (g.guarded o a x) (do return g.decide o a (← y)) := by
  have hdecided : Simulates true (do return g.decide o a (← x)) (do return g.decide o a (← y)) :=
    h.bind fun _ _ _ => rfl
  exact fun s stack => hdecided.marked s stack

theorem callerBy {ownerOf : String → Running σ (Option Plugin)}
    {unmarkedOf : String → Unmarked σ (Option Plugin)}
    (owners : ∀ className, Simulates mark (ownerOf className) (unmarkedOf className))
    (r : CallerResolver) (frames : List CallFrame) :
    Simulates mark (r.callerBy ownerOf frames) (r.callerBy unmarkedOf frames) := by
  induction frames with
  | nil => exact fun _ _ => rfl
  | cons f outer ih =>
    refine (owners f.className).bind fun owner => ?_
    cases r.siteOf f owner with
    | none => exact ih
    | some site => exact fun _ _ => rfl

end Simulates

theorem Work.simulates_run {ownerOf : Owners (Running σ)} {unmarkedOf : Owners (Unmarked σ)}
    {within : Bool} (w : Work σ α) (inUse : Bool)
    (owners : within = false → ∀ inUse g className,
      Simulates true (ownerOf inUse g className) (unmarkedOf inUse g className)) :
    Simulates within (w.run ownerOf inUse) (w.unmarked unmarkedOf within inUse) := by
  -- Internal work goes on with the mark set, where nothing is asked of the lookups.
  induction w generalizing within with
  | done a => exact fun _ _ => rfl
  | stop => exact fun _ _ => rfl
  | andThen w next hw hnext => exact (hw owners).bind fun a => hnext a owners
  | contained w hw => exact (hw owners).contain
  | touch f => exact fun _ _ => rfl
  | recorded => exact fun _ _ => rfl
  | record change => cases inUse <;> exact fun _ _ => rfl
  | check g o a frames =>
    cases within with
    | true => exact .guarded_within g o a _
    | false => exact .guarded_outside g o a (.callerBy (owners rfl inUse g) g.resolver frames)
  | checkCurrent g o a =>
    cases within with
    | true => exact .guarded_within g o a _
    | false =>
      exact .guarded_outside g o a fun s stack =>
        Simulates.callerBy (owners rfl true g) g.resolver stack s stack
  | internally w hw =>
    have hwithin : Simulates true (w.run ownerOf inUse) (w.unmarked unmarkedOf true inUse) :=
      hw fun houtside => absurd houtside Bool.noConfusion
    exact hwithin.marked

namespace Work

variable (lookup : Lookup σ) (depth : Nat) (inUse : Bool)

theorem simulates_inside (w : Work σ α) :
    Simulates true (w.exec lookup depth inUse) (w.inside inUse) :=
  w.simulates_run inUse fun houtside => absurd houtside Bool.noConfusion

/-- The lookups of a check that is decided are within that check, so that one level is enough. -/
theorem simulates_outside (w : Work σ α) :
    Simulates false (w.exec lookup (depth + 1) inUse) (w.outside lookup inUse) :=
  w.simulates_run inUse fun _ inUse g className =>
    (lookup g className).simulates_inside lookup depth inUse

theorem on_exec (w : Work σ α) (s : σ) (t : Thread) :
    (w.exec lookup (depth + 1) inUse).on s t =
      (if t.inCheck then w.inside inUse else w.outside lookup inUse).on s t := by
  obtain ⟨stack, mark⟩ := t
  cases mark with
  | true => exact w.simulates_inside lookup (depth + 1) inUse s stack
  | false => exact w.simulates_outside lookup depth inUse s stack

end Work

/-- Whatever else a lookup does, in the end it says what the guard's registry says. -/
def Lookup.Faithful (lookup : Lookup σ) (g : Guard) : Prop :=
  ∀ inUse className p,
    ((lookup.inside inUse g className).run.run p).1 = some (g.resolver.registry.byClass className)

theorem Lookup.Faithful.callerBy {lookup : Lookup σ} {g : Guard} (faithful : lookup.Faithful g)
    (inUse : Bool) (frames : List CallFrame) (p : σ × List CallFrame) :
    ((g.resolver.callerBy (lookup.inside inUse g) frames).run.run p).1 =
      some (g.resolver.caller? frames) := by
  rw [CallerResolver.caller?_eq_findSome?]
  induction frames generalizing p with
  | nil => rfl
  | cons f outer ih =>
    have howner := faithful inUse f.className p
    cases hlookup : (lookup.inside inUse g f.className).run.run p with
    | mk r p' =>
      rw [hlookup] at howner
      obtain rfl : r = some (g.resolver.registry.byClass f.className) := howner
      rw [CallerResolver.callerBy, Unmarked.run_bind hlookup, List.findSome?_cons,
        CallerResolver.site?]
      cases g.resolver.siteOf f (g.resolver.registry.byClass f.className) with
      | none => exact ih p'
      | some site => rfl

namespace Work

variable (lookup : Lookup σ) (depth : Nat) (inUse : Bool)

theorem on_exec_internally (w : Work σ α) (s : σ) (t : Thread) :
    ((internally w).exec lookup (depth + 1) inUse).on s t = (w.inside inUse).on s t := by
  obtain ⟨stack, mark⟩ := t
  exact (w.simulates_inside lookup (depth + 1) inUse).marked s stack

theorem on_exec_check_within {t : Thread} (within : t.inCheck = true) (g : Guard) (o : Operation)
    (a : Argument) (frames : List CallFrame) (s : σ) :
    ((check g o a frames).exec lookup (depth + 1) inUse).on s t = ((.ok (.ok ()), s), t) ∧
      ((checkCurrent g o a).exec lookup (depth + 1) inUse).on s t = ((.ok (.ok ()), s), t) := by
  rw [on_exec, on_exec, if_pos within, if_pos within]
  exact ⟨rfl, rfl⟩

theorem on_exec_check_outside {g : Guard} (faithful : lookup.Faithful g) {t : Thread}
    (outside : t.inCheck = false) (o : Operation) (a : Argument) (frames : List CallFrame) (s : σ) :
    (((check g o a frames).exec lookup (depth + 1) inUse).on s t).1.1 =
        .ok ((g.check o a frames).run .fresh).1 ∧
      (((checkCurrent g o a).exec lookup (depth + 1) inUse).on s t).1.1 =
        .ok ((g.checkCurrent o a).run { Thread.fresh with stack := t.stack }).1 := by
  have hopen : ¬ t.inCheck = true := Bool.eq_false_iff.mp outside
  rw [on_exec, on_exec, if_neg hopen, if_neg hopen]
  constructor
  · rw [g.run_check_outside o a rfl]
    have hcaller := faithful.callerBy inUse frames (s, t.stack)
    exact congrArg Unmarked.ended (Unmarked.run_return hcaller (g.decide o a))
  · rw [g.run_checkCurrent, g.run_check_outside o a rfl]
    have hcaller := faithful.callerBy true t.stack (s, t.stack)
    exact congrArg Unmarked.ended (Unmarked.run_return hcaller (g.decide o a))

/-- However a program ends, it leaves the mark as it found it, and its lookups never go on for
ever. Within a scope, which internal work always is, it does what it would do if every check passed,
and outside what it would do if each check was decided by itself, with its lookups within it. So
after any program outside all scopes the next one, whatever it does, does what it would do on a
fresh thread with the same frames, and a check is decided there as by the guard alone. -/
theorem exec_balanced (w : Work σ α) (s : σ) (t : Thread) :
    let after := (w.exec lookup (depth + 1) inUse).on s t
    after.2.inCheck = t.inCheck ∧ after.1.1 ≠ .error .bottomless ∧
      after = (if t.inCheck then w.inside inUse else w.outside lookup inUse).on s t ∧
      ((internally w).exec lookup (depth + 1) inUse).on s t = (w.inside inUse).on s t ∧
      (t.inCheck = true → ∀ g o a frames,
        ((check g o a frames).exec lookup (depth + 1) inUse).on s t = ((.ok (.ok ()), s), t) ∧
        ((checkCurrent g o a).exec lookup (depth + 1) inUse).on s t = ((.ok (.ok ()), s), t)) ∧
      (t.inCheck = false →
        (∀ {β : Type} (next : Work σ β),
          (next.exec lookup (depth + 1) inUse).on after.1.2 after.2 =
            (next.exec lookup (depth + 1) inUse).on after.1.2
              { Thread.fresh with stack := after.2.stack }) ∧
        ∀ g, lookup.Faithful g → ∀ o a frames,
          (((check g o a frames).exec lookup (depth + 1) inUse).on after.1.2 after.2).1.1 =
            .ok ((g.check o a frames).run .fresh).1 ∧
          (((checkCurrent g o a).exec lookup (depth + 1) inUse).on after.1.2 after.2).1.1 =
            .ok ((g.checkCurrent o a).run { Thread.fresh with stack := after.2.stack }).1) := by
  intro after
  have hafter : after = (if t.inCheck then w.inside inUse else w.outside lookup inUse).on s t :=
    w.on_exec lookup depth inUse s t
  have hmark : after.2.inCheck = t.inCheck := congrArg (·.2.inCheck) hafter
  refine ⟨hmark, ?_, hafter, w.on_exec_internally lookup depth inUse s t,
    fun within g o a frames => on_exec_check_within lookup depth inUse within g o a frames s,
    fun outside => ⟨fun next => ?_, fun g faithful o a frames =>
      on_exec_check_outside lookup depth inUse faithful (hmark.trans outside) o a frames after.1.2⟩⟩
  · rw [hafter]
    exact Unmarked.ended_ne _
  · have hfresh : after.2 = { Thread.fresh with stack := after.2.stack } :=
      congrArg (Thread.mk after.2.stack) (hmark.trans outside)
    exact congrArg ((next.exec lookup (depth + 1) inUse).on after.1.2) hfresh

/-! ### A lookup that deletes -/

def tidyingLookup : Lookup Nat := fun g className =>
  .andThen (.check g .fileDelete (.path ⟨"/w/c"⟩) Guard.cleanerFrames) fun answer =>
    .andThen (.touch fun allowed => ((), if answer.isOk then allowed + 1 else allowed)) fun _ =>
      .done (g.resolver.registry.byClass className)

def tidying : Work Nat (Option Unit) :=
  .contained (.internally (.andThen (.check Guard.cleaners .fileDelete (.path ⟨"/w/c"⟩)
    Guard.cleanerFrames) fun _ => .stop))

/-- All three lookups of the check that follows may delete, and the check denies it. -/
theorem exec_balanced_tidying :
    let after := (tidying.exec tidyingLookup 1 false).on 0 .fresh
    let deletion := (check Guard.cleaners .fileDelete (.path ⟨"/w/c"⟩) Guard.cleanerFrames).exec
      tidyingLookup 1 false
    Thread.fresh.inCheck = false ∧ Lookup.Faithful tidyingLookup Guard.cleaners ∧
      after = ((.ok none, 0), .fresh) ∧
      (deletion.on after.1.2 after.2).1.1 =
        .ok (.error ⟨.fileDelete, ⟨"/plugins/c.jar", "Cleaner", "c.Main", "run"⟩,
          .path ⟨"/w/c"⟩⟩) ∧
      (deletion.on after.1.2 after.2).1.2 = 3 := by
  intro after deletion
  have faithful : Lookup.Faithful tidyingLookup Guard.cleaners := fun _ _ _ => rfl
  obtain ⟨-, -, hafter, -, -, houtside⟩ := exec_balanced tidyingLookup 0 false tidying 0 .fresh
  obtain ⟨-, hdecided⟩ := houtside rfl
  have hdenied : Guard.cleaners.decide .fileDelete (.path ⟨"/w/c"⟩)
      (Guard.cleaners.resolver.caller? Guard.cleanerFrames) =
        .error ⟨.fileDelete, ⟨"/plugins/c.jar", "Cleaner", "c.Main", "run"⟩, .path ⟨"/w/c"⟩⟩ := by
    refine (Guard.decide_eq_error_iff _ _ _ _ _).mpr ⟨_, ?_, .inl ?_, rfl⟩
    · decide
    · exact (Guard.touchesOwnStorage_iff _ _ _).mp (by decide)
  refine ⟨rfl, faithful, hafter.trans rfl, ?_, by decide⟩
  rw [(hdecided _ faithful .fileDelete _ Guard.cleanerFrames).1]
  exact congrArg Except.ok hdenied

end Work

end PluginGuard
