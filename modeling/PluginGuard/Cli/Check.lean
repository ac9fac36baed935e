import PluginGuard.Access.Guard
import PluginGuard.Workspace

/-!
# Asking for one decision

A question names an operation, its argument, and the caller by plugin, class or
both. Where only a plugin is named its first class speaks for it.
-/
namespace PluginGuard.Check

structure Question where
  operation : String
  plugin : Option String
  className : Option String
  method : Option String
  argument : String

structure Prepared where
  operation : Operation
  argument : Argument
  frames : List CallFrame

inductive Misuse
  | unknownOperation (text : String)
  | argument (operation : Operation) (cause : ArgumentError)
  | foreignClass (className plugin : String)
  | unknownPlugin (plugin : String)
  | noClasses (plugin : String)
  deriving DecidableEq, Repr

def Misuse.message : Misuse → String
  | .unknownOperation text => Operation.unknownMessage text
  | .argument operation cause => s!"invalid argument for {operation.name}: {cause.message}"
  | .foreignClass className plugin => s!"class {className} does not belong to plugin {plugin}"
  | .unknownPlugin plugin => s!"no indexed plugin named {plugin}"
  | .noClasses plugin => s!"plugin {plugin} ships no classes"

def unknownMethod : String := "<unknown>"

/-- The class that the caller is taken to be in; none for the host. -/
def callerClass (r : PluginLookup) : Option String → Option String → Except Misuse (Option String)
  | none, none => .ok none
  | none, some className => .ok (some className)
  | some plugin, some className =>
    if (r.byClass className).map (·.displayName) == some plugin then .ok (some className)
    else .error (.foreignClass className plugin)
  | some plugin, none =>
    match r.byName plugin with
    | none => .error (.unknownPlugin plugin)
    | some p =>
      match p.classNames with
      | [] => .error (.noClasses plugin)
      | c :: _ => .ok (some c)

def prepare (q : Question) (r : PluginLookup) (base : Path) : Except Misuse Prepared :=
  match Operation.ofName? q.operation with
  | none => .error (.unknownOperation q.operation)
  | some o => do
    let argument ← (Argument.parse o q.argument base).mapError (.argument o)
    let className ← callerClass r q.plugin q.className
    let method := q.method.getD unknownMethod
    return ⟨o, argument, (className.map fun c => ⟨c, method⟩).toList⟩

/-- Decided on a thread of its own, with targets looked up among the plugins that
the resolver knows. -/
def decide (d : Deployment) (workspace : Workspace) (resolver : CallerResolver) (p : Prepared) :
    Except Denial Unit :=
  let g : Guard :=
    { policy := .load d.settings.access (some resolver.registry), workspace, resolver,
      selfDefense := d.selfDefense }
  ((g.check p.operation p.argument p.frames).run Thread.fresh).1

end PluginGuard.Check
