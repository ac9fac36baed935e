import PluginGuard.Identity

/-!
# The event bus

What instrumented code reports goes to every listener that asked for its kind,
in the order in which the listeners were registered. A listener that fails keeps
no other listener from its turn.
-/
namespace PluginGuard

inductive EventKind
  | chatMessage
  | commandDispatch
  | playerJoin
  | privilegeGrant
  deriving DecidableEq, Repr

namespace EventKind

def all : List EventKind := [chatMessage, commandDispatch, playerJoin, privilegeGrant]

def name : EventKind → String
  | chatMessage => "chat_message"
  | commandDispatch => "command_dispatch"
  | playerJoin => "player_join"
  | privilegeGrant => "privilege_grant"

end EventKind

inductive Event
  | chatMessage (player message : String)
  | commandDispatch (sender command : String) (caller : Option Identity)
  | playerJoin (player : String)
  | privilegeGrant (target : String) (granted : Bool) (caller : Option Identity)
  deriving DecidableEq, Repr

namespace Event

def kind : Event → EventKind
  | chatMessage .. => .chatMessage
  | commandDispatch .. => .commandDispatch
  | playerJoin _ => .playerJoin
  | privilegeGrant .. => .privilegeGrant

def written (e : Event) : Json :=
  let caller := fun (c : Option Identity) => Json.ofOption (c.map Identity.written)
  .object (("kind", .text e.kind.name) :: match e with
    | chatMessage player message => [("player", .text player), ("message", .text message)]
    | commandDispatch sender command c =>
      [("sender", .text sender), ("command", .text command), ("caller", caller c)]
    | playerJoin player => [("player", .text player)]
    | privilegeGrant target granted c =>
      [("target", .text target), ("granted", .bool granted), ("caller", caller c)])

end Event

inductive Handling
  | done
  | failed
  | panicked
  deriving DecidableEq, Repr

structure Listener (ω : Type) where
  name : String
  subscriptions : List EventKind
  handle : Event → StateM ω Handling

def Listener.onFirst {ω τ : Type} (l : Listener ω) : Listener (ω × τ) where
  name := l.name
  subscriptions := l.subscriptions
  handle e := fun w =>
    let (r, first) := (l.handle e).run w.1
    (r, first, w.2)

structure Topic (ω : Type) where
  kind : EventKind
  subscribers : List (Listener ω)

structure EventBus (ω : Type) where
  topics : List (Topic ω)

namespace EventBus

variable {ω : Type}

def subscribeIn (l : Listener ω) (kind : EventKind) : List (Topic ω) → List (Topic ω)
  | [] => [⟨kind, [l]⟩]
  | t :: ts =>
    if t.kind = kind then ⟨kind, t.subscribers ++ [l]⟩ :: ts else t :: subscribeIn l kind ts

def register (bus : EventBus ω) (l : Listener ω) : EventBus ω :=
  ⟨l.subscriptions.foldl (fun ts kind => subscribeIn l kind ts) bus.topics⟩

def ofListeners (ls : List (Listener ω)) : EventBus ω := ls.foldl register ⟨[]⟩

def subscribers (bus : EventBus ω) (kind : EventKind) : List (Listener ω) :=
  ((bus.topics.find? (·.kind == kind)).map (·.subscribers)).getD []

def deliver (e : Event) : List (Listener ω) → StateM ω Nat
  | [] => return 0
  | l :: ls => do
    let r ← l.handle e
    let n ← deliver e ls
    return if r = .done then n + 1 else n

def publish (bus : EventBus ω) (e : Event) : StateM ω Nat := deliver e (bus.subscribers e.kind)

end EventBus

end PluginGuard
