import PluginGuard.Cli.Terminal
import PluginGuard.Scan.Startup

/-!
# The report of a startup scan

A table with a row for every outcome, then notes about what was passed over, could
not be read or was moved away, and last whether the host may start.
-/
namespace PluginGuard.StartupReport

open Terminal

def headers : List String :=
  ["Plugin", "Scanner", "Verdict", "Confidence", "Result", "Countermeasure"]

def verdictStyle : Verdict → Style
  | .clean => .green
  | .suspicious => .yellow
  | .malicious => .red

def row (colored : Bool) (plugin : String) (o : ScanOutcome) : List String :=
  [plugin, o.scanner, paint colored (verdictStyle o.result.verdict) o.result.verdict.name,
    toString o.result.confidence.toNat, if o.fromCache then "cached" else "fresh",
    match o.countermeasure with
    | some c => c.name
    | none => "-"]

def rows (colored : Bool) (r : StartupReport) : List (List String) :=
  r.plugins.flatMap fun p => p.outcomes.map (row colored p.plugin)

def tableText (colored : Bool) (r : StartupReport) : String :=
  let rows := r.rows colored
  if rows.isEmpty then "" else table headers rows

def quarantineNotes (p : PluginReport) : List Note :=
  (p.enforcement.quarantinedTo.map fun target =>
    Note.warning s!"{p.plugin} quarantined to {target.text}").toList ++
  (p.enforcement.failure.map fun e =>
    Note.error s!"{p.plugin}: countermeasure failed: {e.message}").toList

def blockers (r : StartupReport) : List String :=
  r.blocking.map (·.plugin) ++ r.unreadable.map (·.1.text)

def conclusion (r : StartupReport) : Note :=
  if r.blockers.isEmpty then
    .success s!"{r.plugins.length} plugin(s) scanned, startup may proceed"
  else .error ("Startup blocked by: " ++ ", ".intercalate r.blockers)

def notes (r : StartupReport) : List Note :=
  r.excluded.map (fun p => .info s!"Excluded {p.text}") ++
    r.unreadable.map (fun (p, e) => .warning s!"Could not read {p.text}: {e.message}") ++
    r.plugins.flatMap quarantineNotes ++ [r.conclusion]

end PluginGuard.StartupReport
