import PluginGuard.Access.Policy
import PluginGuard.Workspace

/-!
# The access decision

Asked before every guarded operation. What no plugin asked for is allowed;
nothing may be written or deleted inside the guard's own storage; the policy
decides on everything else. Checks raised while a check is under way on the same
thread are allowed, so deciding can itself use guarded operations.
-/
namespace PluginGuard

structure Denial where
  operation : Operation
  caller : CallSite
  argument : Argument
  deriving DecidableEq

def Denial.message (d : Denial) : String :=
  s!"access denied: {d.operation.name} by {d.caller.display} on '{d.argument.display}'"

structure Guard where
  policy : Policy
  workspace : Workspace
  resolver : CallerResolver
  selfDefense : Bool

namespace Guard

def inOwnStorage (g : Guard) (l : Path) : Bool :=
  l.normalize.startsWith g.workspace.directory.normalize

def touchesOwnStorage (g : Guard) (o : Operation) (argument : Argument) : Bool :=
  g.selfDefense && o.modifiesFiles &&
    match argument with
    | .path l => g.inOwnStorage l
    | _ => false

/-- The decision for a known caller; none for a call that no plugin made. -/
def decide (g : Guard) (o : Operation) (argument : Argument) (caller : Option CallSite) :
    Except Denial Unit :=
  match caller with
  | none => .ok ()
  | some site =>
    if g.touchesOwnStorage o argument then .error ⟨o, site, argument⟩
    else match g.policy.decide o (.concrete site) argument with
      | .allow => .ok ()
      | .deny => .error ⟨o, site, argument⟩

section Marks

variable {m : Type → Type} [Monad m] [MonadStateOf Thread m] [MonadFinally m]

/-- Runs the body as part of a check. However it ends, the mark is put back behind it. -/
def marked {α : Type} (body : m α) : m α := do
  let outer := (← getThe Thread).inCheck
  modifyThe Thread fun t => { t with inCheck := true }
  try body finally modifyThe Thread fun t => { t with inCheck := outer }

def guarded (g : Guard) (o : Operation) (argument : Argument) (caller : m (Option CallSite)) :
    m (Except Denial Unit) := do
  if (← getThe Thread).inCheck then return .ok ()
  else marked do return g.decide o argument (← caller)

def checkBy (g : Guard) (ownerOf : String → m (Option Plugin)) (o : Operation)
    (argument : Argument) (frames : List CallFrame) : m (Except Denial Unit) :=
  g.guarded o argument (g.resolver.callerBy ownerOf frames)

def checkCurrentBy (g : Guard) (ownerOf : String → m (Option Plugin)) (o : Operation)
    (argument : Argument) : m (Except Denial Unit) :=
  g.guarded o argument (g.resolver.currentBy ownerOf)

def internally {α : Type} (body : m α) : m α := marked body

end Marks

def check (g : Guard) (o : Operation) (argument : Argument) (frames : List CallFrame) :
    OnThread (Except Denial Unit) :=
  g.checkBy (fun className => return g.resolver.registry.byClass className) o argument frames

def checkCurrent (g : Guard) (o : Operation) (argument : Argument) :
    OnThread (Except Denial Unit) :=
  g.checkCurrentBy (fun className => return g.resolver.registry.byClass className) o argument

end Guard

end PluginGuard
