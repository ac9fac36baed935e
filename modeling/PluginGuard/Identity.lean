import PluginGuard.Json.Value
import PluginGuard.Text.Wildcard

/-!
# Identities

Who performs an operation: a call site, with every field known, or a filter over
call sites, whose unset fields leave a field open.
-/
namespace PluginGuard

structure CallSite where
  file : String
  plugin : String
  className : String
  method : String
  deriving DecidableEq, Repr

structure CallerFilter where
  file : Option String
  plugin : Option String
  className : Option String
  method : Option String
  deriving DecidableEq, Repr

inductive Identity
  | concrete (site : CallSite)
  | filter (fields : CallerFilter)
  deriving DecidableEq, Repr

inductive IdentityField
  | file
  | plugin
  | className
  | method
  deriving DecidableEq, Repr

def IdentityField.name : IdentityField → String
  | .file => "file_path"
  | .plugin => "plugin_name"
  | .className => "class_name"
  | .method => "method_name"

inductive IdentityError
  | incomplete (field : IdentityField)
  | role (receiver argument : String)
  deriving DecidableEq, Repr

def IdentityError.message : IdentityError → String
  | .incomplete field => s!"concrete identity is missing its {field.name} field"
  | .role receiver argument =>
    s!"identity role misuse: a {receiver} identity cannot match a {argument} identity"

/-- No field of a call site may be empty; the first empty one is reported. -/
def CallSite.of (file plugin className method : String) : Except IdentityError CallSite :=
  if file.isEmpty then .error (.incomplete .file)
  else if plugin.isEmpty then .error (.incomplete .plugin)
  else if className.isEmpty then .error (.incomplete .className)
  else if method.isEmpty then .error (.incomplete .method)
  else .ok ⟨file, plugin, className, method⟩

def CallSite.display (s : CallSite) : String :=
  s!"{s.plugin}[{s.file}] {s.className}#{s.method}"

namespace CallerFilter

def any : CallerFilter := ⟨none, none, none, none⟩

def admits (pattern : Option String) (value : String) : Bool :=
  match pattern with
  | none => true
  | some p => Text.Wildcard.covers p value

def accepts (f : CallerFilter) (s : CallSite) : Bool :=
  admits f.file s.file && admits f.plugin s.plugin && admits f.className s.className &&
    admits f.method s.method

end CallerFilter

namespace Identity

def flavor : Identity → String
  | .concrete _ => "concrete"
  | .filter _ => "filter"

def isFilter : Identity → Bool
  | .concrete _ => false
  | .filter _ => true

def fields : Identity → CallerFilter
  | .concrete s => ⟨some s.file, some s.plugin, some s.className, some s.method⟩
  | .filter f => f

def display (i : Identity) : String :=
  let shown := fun (v : Option String) => v.getD "*"
  let f := i.fields
  s!"{shown f.plugin}[{shown f.file}] {shown f.className}#{shown f.method}"

def written (i : Identity) : Json :=
  let shown := fun (v : Option String) => Json.ofOption (v.map .text)
  let f := i.fields
  .object [("flavor", .text i.flavor), ("file_path", shown f.file),
    ("plugin_name", shown f.plugin), ("class_name", shown f.className),
    ("method_name", shown f.method)]

/-- Only a filter can be asked, and only about a call site. -/
def accepts : Identity → Identity → Except IdentityError Bool
  | .filter f, .concrete s => .ok (f.accepts s)
  | receiver, argument => .error (.role receiver.flavor argument.flavor)

end Identity

end PluginGuard
