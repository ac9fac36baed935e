import PluginGuard.Access.Policy
import PluginGuard.Event.Heuristic
import PluginGuard.Json.Value

/-!
# Callers and rules for inspection

JSON forms of identities, plugins, rules and reports.
-/
namespace PluginGuard.Inspect

def optional (s : Option String) : Json := .ofOption (s.map .text)

def texts (ts : List String) : Json := .array (ts.map .text)

def identity (i : Identity) : Json :=
  let f := i.fields
  .object [("flavor", .text i.flavor), ("is_filter", .bool i.isFilter), ("file", optional f.file),
    ("plugin", optional f.plugin), ("class", optional f.className), ("method", optional f.method),
    ("display", .text i.display)]

def plugin (p : Plugin) : Json :=
  .object [("jar", .text p.jar.text), ("name", .text p.displayName),
    ("classes", texts p.classNames), ("hash", .text p.contentHash)]

def callFrame (f : CallFrame) : Json := texts [f.className, f.method]

def caller (c : Option CallSite) : Json := optional (c.map (·.display))

def kindName : ArgumentKind → String
  | .socket => "Socket"
  | .path => "Path"
  | .exitCode => "ExitCode"
  | .command => "Command"
  | .property => "Property"
  | .package => "Package"
  | .text => "Text"

def argument (a : Argument) : Json :=
  .object [("kind", .text (kindName a.kind)), ("text", .text a.display)]

def textPattern : TextPattern → Json
  | .wildcard p => texts ["wildcard", p]
  | .exact t => texts ["exact", t]

def pattern : ArgumentPattern → Json
  | .socket host port =>
    .array [.text "socket", textPattern host, (port.map fun p => .ofNat p.toNat).getD (.text "any")]
  | .exit code => .array [.text "exit", (code.map fun c => .ofInt c.toInt).getD (.text "any")]
  | .text p => .array [.text "text", textPattern p]

def subject : Subject → Json
  | .all => texts ["all"]
  | .plugin p => texts ["plugin", p]
  | .source c m => .array [.text "source", .text c, optional m]

def rule (r : Rule) : Json :=
  .object [("type", .text r.ruling.name), ("filter", subject r.subject),
    ("identity", .text (Identity.filter r.subject.filter).display),
    ("argument", pattern r.argument), ("line", .text r.line)]

def operationPolicy (p : Option OperationPolicy) : Json :=
  let shown := p.getD .permissive
  .object [("configured", .bool p.isSome), ("default", .text shown.default.name),
    ("rules", .array (shown.rules.map rule))]

def report (r : Report) : Json :=
  .object [("severity", .text r.severity.name), ("heuristic", .text r.heuristic),
    ("plugin", .text r.plugin), ("class", .text r.className), ("method", .text r.method),
    ("message", .text r.message)]

end PluginGuard.Inspect
