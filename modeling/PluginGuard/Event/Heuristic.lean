import PluginGuard.Event.Bus

/-!
# Forced privileges

A plugin that makes somebody an operator right after a chat message, a command
or a join looks like a backdoor that waits for its cue. The heuristic remembers
when each of the three was seen last and reports a grant that follows one of
them within its window.
-/
namespace PluginGuard

inductive Severity
  | low
  | medium
  | high
  deriving DecidableEq, Repr

def Severity.name : Severity → String
  | .low => "low"
  | .medium => "medium"
  | .high => "high"

structure Report where
  severity : Severity
  heuristic : String
  plugin : String
  className : String
  method : String
  message : String
  deriving DecidableEq, Repr

def Report.about (heuristic : String) (severity : Severity) (caller : Identity)
    (message : String) : Report :=
  let f := caller.fields
  ⟨severity, heuristic, f.plugin.getD "", f.className.getD "", f.method.getD "", message⟩

namespace ForcePrivilege

def name : String := "force-privilege"

/-- Milliseconds. -/
def defaultWindow : Nat := 1000

structure Memory where
  chat : Option Nat
  command : Option Nat
  join : Option Nat
  deriving DecidableEq, Repr

def Memory.blank : Memory := ⟨none, none, none⟩

def recent (window now : Nat) (seen : Option Nat) : Bool :=
  match seen with
  | some t => now - t ≤ window
  | none => false

def cue? (window now : Nat) (m : Memory) : Option EventKind :=
  if recent window now m.chat then some .chatMessage
  else if recent window now m.command then some .commandDispatch
  else if recent window now m.join then some .playerJoin
  else none

def message (caller : Identity) (target : String) (cue : EventKind) : String :=
  s!"{caller.display} granted operator status to {target} right after a {cue.name} event"

def step (window now : Nat) (m : Memory) : Event → Memory × Option Report
  | .chatMessage .. => ({ m with chat := some now }, none)
  | .commandDispatch .. => ({ m with command := some now }, none)
  | .playerJoin _ => ({ m with join := some now }, none)
  | .privilegeGrant target true (some caller) =>
    (m, (cue? window now m).map fun cue =>
      Report.about name .high caller (message caller target cue))
  | .privilegeGrant .. => (m, none)

end ForcePrivilege

/-- A clock in milliseconds, the memories of the heuristics, and the reports that
nobody has collected. -/
structure Watch where
  now : Nat
  memories : List ForcePrivilege.Memory
  reports : List Report

namespace Watch

def start (heuristics : Nat) : Watch := ⟨0, List.replicate heuristics .blank, []⟩

def advance (w : Watch) (ms : Nat) : Watch := { w with now := w.now + ms }

def submit (w : Watch) (r : Report) : Watch := { w with reports := w.reports ++ [r] }

def capacity : Nat := 64

def collect (w : Watch) : List Report × Watch :=
  let missed := w.reports.length - capacity
  if missed = 0 then (w.reports, { w with reports := [] })
  else ([], { w with reports := w.reports.drop missed })

end Watch

def ForcePrivilege.listener (place window : Nat) : Listener Watch where
  name := ForcePrivilege.name
  subscriptions := [.chatMessage, .commandDispatch, .playerJoin, .privilegeGrant]
  handle e := fun w =>
    let (m, report) := ForcePrivilege.step window w.now (w.memories.getD place .blank) e
    let w := { w with memories := w.memories.set place m }
    (.done, report.elim w w.submit)

end PluginGuard
