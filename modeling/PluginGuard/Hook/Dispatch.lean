import PluginGuard.Caller
import PluginGuard.Event.Bus
import PluginGuard.Hook.Builtin

/-!
# What hooks do

A hook call enters or leaves a frame of the recorded stack, or publishes an event
made from what the host knows about the call.
-/
namespace PluginGuard

inductive HookAction
  | publish (kind : EventKind)
  | enterFrame
  | exitFrame
  deriving DecidableEq, Repr

structure HookCall where
  /-- The player or command sender. -/
  subject : String
  /-- The message or command. -/
  detail : String
  /-- Whether a privilege is granted or taken. -/
  flag : Bool
  /-- The caller's frames with the innermost first; none for the recorded stack. -/
  frames : List CallFrame

inductive DispatchError
  | unknownHook (hook : Hook)
  | missingFrame (hook : Hook)
  deriving DecidableEq, Repr

def DispatchError.message : DispatchError → String
  | .unknownHook hook => s!"no action bound to hook {hook.display}"
  | .missingFrame hook => s!"hook {hook.display} needs the entered frame"

def HookAction.builtin : List (Hook × HookAction) :=
  [(.runtime "privilegeGrant", .publish .privilegeGrant),
    (.runtime "commandDispatch", .publish .commandDispatch),
    (.runtime "chatMessage", .publish .chatMessage),
    (.runtime "playerJoin", .publish .playerJoin),
    (.runtime "enterPlugin", .enterFrame),
    (.runtime "exitPlugin", .exitFrame)]

structure Dispatcher (ω : Type) where
  actions : List (Hook × HookAction)
  bus : EventBus ω
  resolver : CallerResolver

namespace Dispatcher

variable {ω : Type}

def ofBus (bus : EventBus ω) (resolver : CallerResolver) : Dispatcher ω :=
  ⟨HookAction.builtin, bus, resolver⟩

def bind (d : Dispatcher ω) (h : Hook) (a : HookAction) : Dispatcher ω :=
  { d with actions := (h, a) :: d.actions }

def action? (d : Dispatcher ω) (h : Hook) : Option HookAction :=
  (d.actions.find? (·.1 == h)).map (·.2)

def caller (d : Dispatcher ω) (call : HookCall) (t : Thread) : Option Identity :=
  let frames := if call.frames.isEmpty then t.stack else call.frames
  (d.resolver.caller? frames).map .concrete

def event (d : Dispatcher ω) (call : HookCall) (t : Thread) : EventKind → Event
  | .chatMessage => .chatMessage call.subject call.detail
  | .playerJoin => .playerJoin call.subject
  | .commandDispatch => .commandDispatch call.subject call.detail (d.caller call t)
  | .privilegeGrant => .privilegeGrant call.subject call.flag (d.caller call t)

def invoke (d : Dispatcher ω) (h : Hook) (call : HookCall) (t : Thread) (w : ω) :
    Except DispatchError Nat × Thread × ω :=
  match d.action? h with
  | none => (.error (.unknownHook h), t, w)
  | some .enterFrame =>
    match call.frames with
    | [] => (.error (.missingFrame h), t, w)
    | f :: _ => (.ok 0, ((Thread.push f).run t).2, w)
  | some .exitFrame => (.ok 0, (Thread.pop.run t).2, w)
  | some (.publish kind) =>
    let (n, w') := (d.bus.publish (d.event call t kind)).run w
    (.ok n, t, w')

end Dispatcher

end PluginGuard
