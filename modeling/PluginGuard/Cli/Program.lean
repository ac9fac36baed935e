import PluginGuard.Cli.Arguments
import PluginGuard.Cli.Report
import PluginGuard.Config.Files
import PluginGuard.PluginIndex
import PluginGuard.Scan.Builtin

/-!
# The program

What each command does on a file system, what it prints and how it ends. Error
notes go to the error output and everything else to the standard output.
-/
namespace PluginGuard.Cli

open Terminal FileSystem

structure Surroundings where
  /-- The current directory. -/
  current : Path
  home : Option Path
  /-- The configuration directory that the environment names. -/
  configured : Option Path
  colored : Bool
  /-- Times and identifiers for the plugins of a scan. -/
  occasion : Nat → Occasion

namespace Surroundings

def configDir (s : Surroundings) : Path :=
  match s.configured, s.home with
  | some dir, _ => dir
  | none, some home => home.child ".warden"
  | none, none => ⟨".warden"⟩

def workspace (s : Surroundings) (d : Deployment) : Workspace := ⟨s.current.join d.workingDir⟩

def attended (s : Surroundings) (plugins : List Plugin) : List (Plugin × Occasion) :=
  plugins.zipIdx.map fun (p, n) => (p, s.occasion n)

end Surroundings

inductive Status
  | success
  | failure
  | usage
  /-- Startup is blocked, or a scan ended early. -/
  | aborted
  | denied
  /-- The place for the logs cannot be used. -/
  | crashed
  deriving DecidableEq, Repr

def Status.code : Status → UInt8
  | .success => 0
  | .failure => 1
  | .usage => 2
  | .aborted => 3
  | .denied => 4
  | .crashed => 101

structure Ending where
  status : Status
  output : String
  errors : String
  deriving DecidableEq, Repr

namespace Ending

def toErrors : Note → Bool
  | .error _ => true
  | _ => false

def ofNotes (colored : Bool) (status : Status) (notes : List Note) : Ending :=
  let lines := fun (ns : List Note) => String.join (ns.map (·.line colored))
  ⟨status, lines (notes.filter (!toErrors ·)), lines (notes.filter toErrors)⟩

def printedAfter (e : Ending) (text : String) : Ending := { e with output := text ++ e.output }

end Ending

inductive CommandError
  | settings (dir : Path) (cause : SettingsError)
  | logs (dir : Path) (cause : FileError)
  | index (dir : Path) (cause : FileError)
  | input (path : Path) (cause : FileError)
  | output (path : Path) (cause : FileError)
  | instrument (cause : SelfNamedError)
  | clear (dir : Path) (cause : AnalysisError)
  deriving DecidableEq, Repr

namespace CommandError

def message : CommandError → String
  | .settings dir cause => s!"load configuration from {dir.text}: {cause.message}"
  | .logs dir cause => s!"open logs in {dir.text}: {cause.message}"
  | .index dir cause => s!"index plugins in {dir.text}: read plugins dir: {cause.message}"
  | .input path cause => s!"read {path.text}: {cause.message}"
  | .output path cause => s!"write {path.text}: {cause.message}"
  | .instrument cause => cause.message
  | .clear dir cause => s!"clear {dir.text}: {cause.trace}"

def status : CommandError → Status
  | .logs .. => .crashed
  | _ => .failure

def ending (colored : Bool) (e : CommandError) : Ending :=
  .ofNotes colored e.status [.error e.message]

end CommandError

variable {m : Type → Type} [Monad m] [FileSystem m]

def orElse {α ε : Type} (asError : ε → CommandError) (request : m (Except ε α)) :
    ExceptT CommandError m α :=
  ExceptT.mk do return (← request).mapError asError

def deploy (dir : Path) : ExceptT CommandError m Deployment := do
  let settings ← orElse (.settings dir) (Settings.load dir)
  let d : Deployment := ⟨dir, settings⟩
  orElse (.logs d.logDir) (makeDirectory d.logDir)
  return d

def indexOf (dir : Path) : ExceptT CommandError m PluginIndex :=
  orElse (.index dir) (PluginIndex.discover dir)

/-! ### Commands -/

def expiryDays (d : Deployment) : UInt32 :=
  d.settings.analysis.cacheExpiryDays.getD Settings.defaultCacheExpiryDays

def analysis (d : Deployment) (w : Workspace) : Analysis :=
  ⟨Scan.Scanner.builtin, ⟨w.cache, expiryDays d, version⟩, d.settings.analysis, d.failurePolicy⟩

def scanEnding (colored : Bool) (heading : Note) :
    Except AnalysisError StartupReport → Ending
  | .error e =>
    .ofNotes colored .aborted [heading, .error s!"Static analysis aborted: {e.message}"]
  | .ok report =>
    let status := if report.mustAbort then Status.aborted else .success
    ((Ending.ofNotes colored status report.notes).printedAfter (report.tableText colored))
      |>.printedAfter (heading.line colored)

def scan (s : Surroundings) (d : Deployment) (asked : Option Path) :
    ExceptT CommandError m Ending := do
  let dir := d.pluginsDir asked
  let index ← indexOf dir
  let w := s.workspace d
  let pass : StartupScan := ⟨analysis d w, w.quarantine, index.unreadable⟩
  let report ← pass.run (m := m) (s.attended index.plugins)
  let heading := Note.info s!"Scanning {index.plugins.length} plugin(s) in {dir.text}"
  return scanEnding s.colored heading report

def checkEnding (colored : Bool) (p : Check.Prepared) : Except Denial Unit → Ending
  | .ok () =>
    .ofNotes colored .success [.success s!"ALLOW {p.operation.name} {p.argument.display}"]
  | .error denial => .ofNotes colored .denied [.error s!"DENY {denial.message}"]

def check (s : Surroundings) (d : Deployment) (q : Check.Question) (asked : Option Path) :
    ExceptT CommandError m Ending := do
  let index ← indexOf (d.pluginsDir asked)
  match Check.prepare q index s.current with
  | .error misuse => return .ofNotes s.colored .usage [.error misuse.message]
  | .ok p =>
    return checkEnding s.colored p (Check.decide d (s.workspace d) (d.resolver index) p)

def instrumentNote (name : String) (applied : List String) : Instrumented → Note
  | .changed _ => .success (name ++ ": applied " ++ ", ".intercalate applied)
  | .untouched => .info s!"{name}: no injection applies, copied unchanged"

def instrument (s : Surroundings) (d : Deployment) (input output : Path) :
    ExceptT CommandError m Ending := do
  let index ← indexOf (d.pluginsDir none)
  let bytes ← orElse (.input input) (read input)
  let (result, t) := index.transformer.instrumentSelfNamed bytes
  let (name, instrumented) ← orElse .instrument (pure result)
  orElse (.output output) (write output (instrumented.bytes bytes))
  let applied := (t.installed.filter (·.applied)).map (·.injection.id)
  return .ofNotes s.colored .success [instrumentNote name applied instrumented]

def clearCache (s : Surroundings) (d : Deployment) : ExceptT CommandError m Ending := do
  let c : Cache := ⟨d.workingDir.child "cache", expiryDays d, version⟩
  let removed ← orElse (.clear c.directory) c.clear
  return .ofNotes s.colored .success
    [.success s!"Removed {removed} cached inspection(s) from {c.directory.text}"]

def perform (s : Surroundings) (i : Invocation) : ExceptT CommandError m Ending := do
  let d ← deploy (i.configDir.getD s.configDir)
  match i.command with
  | .scan asked => scan s d asked
  | .check q asked => check s d q asked
  | .instrument input output => instrument s d input output
  | .clearCache => clearCache s d

def Stop.ending : Stop → Ending
  | .help t => ⟨.success, t.help, ""⟩
  | .helpOnHelp t => ⟨.success, t.helpOnHelp, ""⟩
  | .version => ⟨.success, versionText, ""⟩
  | .misuse t e => ⟨.usage, "", misuseText t e⟩

def run (s : Surroundings) (words : List String) : m Ending := do
  match parse words with
  | .error stop => return stop.ending
  | .ok i =>
    match ← (perform (m := m) s i).run with
    | .ok e => return e
    | .error e => return e.ending s.colored

end PluginGuard.Cli
