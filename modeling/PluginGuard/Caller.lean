import PluginGuard.Identity
import PluginGuard.Registry

/-!
# Callers

Which plugin a call comes from: frames are looked at from the innermost outwards
until one belongs to a plugin other than the host. A thread records the frames
that instrumented code has entered.
-/
namespace PluginGuard

structure CallFrame where
  className : String
  method : String
  deriving DecidableEq, Repr

structure CallerResolver where
  registry : PluginLookup
  /-- Display name of the plugin whose frames count as the host's own. -/
  host : Option String

namespace CallerResolver

/-- The call site of a frame in a class with this owner. A frame that lacks a field of its call site
is passed over. -/
def siteOf (r : CallerResolver) (f : CallFrame) (owner : Option Plugin) : Option CallSite :=
  match owner with
  | none => none
  | some p =>
    if r.host == some p.displayName then none
    else (CallSite.of p.jar.text p.displayName f.className f.method).toOption

def callerBy {m : Type → Type} [Monad m] (r : CallerResolver)
    (ownerOf : String → m (Option Plugin)) : List CallFrame → m (Option CallSite)
  | [] => return none
  | f :: outer => do
    let owner ← ownerOf f.className
    if let some site := r.siteOf f owner then return some site
    r.callerBy ownerOf outer

def site? (r : CallerResolver) (f : CallFrame) : Option CallSite :=
  r.siteOf f (r.registry.byClass f.className)

/-- The frames are given with the innermost first. -/
def caller? (r : CallerResolver) (frames : List CallFrame) : Option CallSite :=
  Id.run (r.callerBy (fun className => return r.registry.byClass className) frames)

end CallerResolver

/-- What one thread keeps: its recorded frames with the innermost first, and
whether a check is under way on it. -/
structure Thread where
  stack : List CallFrame
  inCheck : Bool

abbrev OnThread (α : Type) := StateM Thread α

namespace Thread

def fresh : Thread := ⟨[], false⟩

def depth (t : Thread) : Nat := t.stack.length

def push (f : CallFrame) : OnThread Unit := modify fun t => { t with stack := f :: t.stack }

def pop : OnThread (Option CallFrame) := do
  let t ← get
  match t.stack with
  | [] => return none
  | f :: rest => do
    set { t with stack := rest }
    return some f

def clear : OnThread Unit := modify fun t => { t with stack := [] }

def within {α : Type} (f : CallFrame) (body : OnThread α) : OnThread α := do
  push f
  let a ← body
  let _ ← pop
  return a

end Thread

def CallerResolver.currentBy {m : Type → Type} [Monad m] [MonadStateOf Thread m]
    (r : CallerResolver) (ownerOf : String → m (Option Plugin)) : m (Option CallSite) := do
  r.callerBy ownerOf (← getThe Thread).stack

def CallerResolver.current? (r : CallerResolver) : OnThread (Option CallSite) :=
  r.currentBy fun className => return r.registry.byClass className

end PluginGuard
