import PluginGuard.Access.Rule
import PluginGuard.Caller
import PluginGuard.Config.Settings

/-!
# Access policies

For each configured operation a default and rules, of which the last one that
applies decides. Loading never fails: a line that is no rule is left out, and a
default that cannot be read denies.
-/
namespace PluginGuard

structure OperationPolicy where
  default : Ruling
  rules : List Rule
  deriving DecidableEq

namespace OperationPolicy

def permissive : OperationPolicy := ⟨.allow, []⟩

def decide (p : OperationPolicy) (caller : Identity) (argument : Argument) : Ruling :=
  match p.rules.reverse.find? (·.accepts caller argument) with
  | some rule => rule.ruling
  | none => p.default

end OperationPolicy

/-- Operations, each with its policy; the last one stored for an operation counts. -/
structure Policy where
  entries : List (Operation × OperationPolicy)
  deriving DecidableEq

namespace Policy

def empty : Policy := ⟨[]⟩

def find? (p : Policy) (o : Operation) : Option OperationPolicy :=
  (p.entries.find? (·.1 == o)).map (·.2)

def put (p : Policy) (o : Operation) (op : OperationPolicy) : Policy := ⟨(o, op) :: p.entries⟩

def decide (p : Policy) (o : Operation) (caller : Identity) (argument : Argument) : Ruling :=
  match p.find? o with
  | some op => op.decide caller argument
  | none => .allow

/-- A configured default. None stands for one that cannot be read. -/
def defaultOf : Option String → Option Ruling
  | none => some .allow
  | some text => Ruling.ofName? (Text.trim text)

def hasTarget (r : PluginLookup) : Subject → Bool
  | .all => true
  | .plugin name =>
    (r.byName name).isSome || r.plugins.any fun p => Text.Wildcard.covers name p.displayName
  | .source className _ =>
    (r.byClass className).isSome ||
      r.plugins.any fun p => p.classNames.any fun c => Text.Wildcard.covers className c

def keeps (registry : Option PluginLookup) (default : Option Ruling) (rule : Rule) : Bool :=
  default != some rule.ruling &&
    match registry with
    | none => true
    | some r => hasTarget r rule.subject

def ofOperation (registry : Option PluginLookup) (o : Operation) (s : OperationSettings) :
    OperationPolicy :=
  let default := defaultOf s.default
  let rules := s.rules.filterMap fun line => (Rule.parse o line).toOption
  ⟨default.getD .deny, rules.filter (keeps registry default)⟩

/-- Names that are no operation are passed over. -/
def load (s : AccessSettings) (registry : Option PluginLookup) : Policy :=
  s.entries.foldl
    (fun p (name, settings) =>
      match Operation.ofName? name with
      | some o => p.put o (ofOperation registry o settings)
      | none => p)
    empty

end Policy

end PluginGuard
