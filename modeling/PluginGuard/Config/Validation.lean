import PluginGuard.Config.Settings
import PluginGuard.Text.Character

/-!
# Validation

Findings about settings, each at the field it is about. Errors name settings
that will not work as written, warnings those that have no effect. No finding
stops anything.
-/
namespace PluginGuard

structure Finding where
  path : String
  message : String
  deriving DecidableEq, Repr

def Finding.display (f : Finding) : String :=
  s!"Config validation error at '{f.path}': {f.message}"

structure ValidationReport where
  errors : List Finding
  warnings : List Finding
  deriving DecidableEq, Repr

namespace ValidationReport

def empty : ValidationReport := ⟨[], []⟩

def isValid (r : ValidationReport) : Bool := r.errors.isEmpty

def error (path message : String) : ValidationReport := ⟨[⟨path, message⟩], []⟩

def warning (path message : String) : ValidationReport := ⟨[], [⟨path, message⟩]⟩

def append (a b : ValidationReport) : ValidationReport :=
  ⟨a.errors ++ b.errors, a.warnings ++ b.warnings⟩

def join (rs : List ValidationReport) : ValidationReport := rs.foldr append empty

def check {α : Type} (field : Option α) (good : α → Bool) (finding : α → ValidationReport) :
    ValidationReport :=
  match field with
  | some v => if good v then empty else finding v
  | none => empty

end ValidationReport

namespace Validation

open ValidationReport

def oneOf (words : List String) (text : String) : Bool :=
  words.any fun w => Text.Ascii.sameIgnoringCase w text

def isCountermeasure (text : String) : Bool := oneOf ["warn", "abort", "quarantine"] text

def isLogLevel (text : String) : Bool := oneOf ["trace", "debug", "info", "warn", "error"] text

def isVerdict (text : String) : Bool := oneOf ["allow", "deny"] text

/-- Self-defense covers the working directory, so plugins must not live in it. -/
def directories (s : GlobalSettings) : ValidationReport :=
  match s.workingDir, s.pluginsDir with
  | some working, some plugins =>
    if plugins.startsWith working then
      error "config.pluginsDir" (s!"'{plugins.text}' lies inside workingDir '{working.text}'; " ++
        "self-defense would deny every plugin write under it")
    else empty
  | _, _ => empty

def global (s : GlobalSettings) : ValidationReport :=
  join
    [check s.logLevel isLogLevel fun level =>
        warning "config.logLevel"
          s!"Unknown log level '{level}'; RUST_LOG-style directives are passed through",
      directories s,
      check s.hostPluginName (!Text.allBlank ·) fun _ =>
        error "config.hostPluginName" "hostPluginName cannot be empty"]

def scanner (name : String) (s : ScannerSettings) : ValidationReport :=
  check s.countermeasure isCountermeasure fun cm =>
    error s!"static-analysis.scanners.{name}.countermeasure" s!"Unknown countermeasure '{cm}'"

def exclusion (index : Nat) (p : Path) : ValidationReport :=
  if p.isAbsolute then empty
  else warning s!"static-analysis.exclusions[{index}]"
    s!"'{p.text}' is relative and will never match an absolute path"

def analysis (s : AnalysisSettings) : ValidationReport :=
  join
    [check s.cacheExpiryDays (· != 0) fun _ =>
        warning "static-analysis.cacheExpiryDays" "cacheExpiryDays is 0; every scan recomputes",
      check s.countermeasure isCountermeasure fun cm =>
        error "static-analysis.countermeasure"
          s!"Unknown countermeasure '{cm}'. Use 'warn', 'abort', or 'quarantine'",
      join (s.scanners.entries.map fun (name, sc) => scanner name sc),
      join (s.exclusions.zipIdx.map fun (p, i) => exclusion i p)]

def ruleLine (operation : String) (index : Nat) (line : String) : ValidationReport :=
  if Text.allBlank line then
    warning s!"dac.{operation}.rules[{index}]" "Empty rule line is ignored"
  else empty

def operation (name : String) (s : OperationSettings) : ValidationReport :=
  (check s.default isVerdict fun d =>
    error s!"dac.{name}.default" s!"Default must be ALLOW or DENY, got '{d}'").append
    (join (s.rules.zipIdx.map fun (line, i) => ruleLine name i line))

def access (s : AccessSettings) : ValidationReport :=
  join (s.entries.map fun (name, o) => operation name o)

end Validation

def Settings.validate (s : Settings) : ValidationReport :=
  .join [Validation.global s.global, Validation.analysis s.analysis, Validation.access s.access]

end PluginGuard
