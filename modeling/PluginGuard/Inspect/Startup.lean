import PluginGuard.Inspect.Plugin
import PluginGuard.PluginIndex
import PluginGuard.Scan.Startup

/-!
# Startup scans for inspection

JSON forms of plugin indexes and of reports about a startup, and runs of the whole
pass over a scratch directory.
-/
namespace PluginGuard.Inspect

def pluginIndex (i : PluginIndex) (classes names : List String) : Json :=
  let owner := fun (p : Option Plugin) => optional (p.map (·.displayName))
  .object [("plugins", .array (i.plugins.map plugin)),
    ("unreadable", texts (i.unreadable.map (·.1.text))),
    ("descriptors", .array (i.descriptors.values.map descriptor)),
    ("len", .ofNats [i.plugins.length, if i.plugins.isEmpty then 1 else 0]),
    ("dir", .text i.directory.text),
    ("by_class", .array (classes.map fun c => owner (i.byClass c))),
    ("by_name", .array (names.map fun n => optional ((i.byName n).map (·.jar.text)))),
    ("by_file", .array (i.plugins.map fun p => owner (i.byFile p.jar))),
    ("described", .array (names.map fun n => optional ((i.descriptors.find? n).map (·.main)))),
    ("rewriter", texts (i.transformer.injections.map (·.id)))]

def pluginReport (r : PluginReport) : Json :=
  .object [("plugin", .text r.plugin), ("jar", .text r.jar.text),
    ("outcomes", .array (r.outcomes.map outcome)), ("enforcement", enforcement r.enforcement)]

def startupReport (r : StartupReport) : Json :=
  .object [("plugins", .array (r.plugins.map pluginReport)),
    ("excluded", texts (r.excluded.map (·.text))),
    ("unreadable", .array (r.unreadable.map fun (path, e) => texts [path.text, e.message])),
    ("abort", .bool r.mustAbort), ("blocking", texts (r.blocking.map (·.plugin)))]

def attended (plugins : List Plugin) : List (Plugin × Occasion) :=
  plugins.zipIdx.map fun (p, n) => (p, occasion n)

def pluginsDir : Path := scratch.child "plugins"

def indexError (e : FileError) : Json := failure "Anyhow" s!"read plugins dir: {e.message}"

def startupPass (a : Analysis) (classes names : List String) (i : PluginIndex) : OnDisk Json := do
  let s : StartupScan := ⟨a, scratch.child "quarantine", i.unreadable⟩
  let report ← s.run (m := OnDisk) (attended i.plugins)
  let d ← get
  return .object [("index", pluginIndex i classes names),
    ("report", orAnalysisError startupReport report), ("tree", tree d), ("sidecars", sidecars d)]

def indexFor (kept : Option PluginIndex) : OnDisk (Answered PluginIndex) :=
  match kept with
  | some i => return .ok i
  | none => PluginIndex.discover pluginsDir

def startupPasses (a : Analysis) (classes names : List String) (stale : Bool) :
    Nat → Option PluginIndex → OnDisk (Except Json (List Json))
  | 0, _ => return .ok []
  | n + 1, kept => do
    match ← indexFor kept with
    | .error e => return .error (indexError e)
    | .ok i =>
      let answer ← startupPass a classes names i
      let rest ← startupPasses a classes names stale n (if stale then some i else none)
      return rest.map (answer :: ·)

end PluginGuard.Inspect
