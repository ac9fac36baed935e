import PluginGuard.Caller
import PluginGuard.Config.Settings

/-!
# The guard's own storage

Where results are cached and blocked archives are kept, below one directory.
-/
namespace PluginGuard

def version : String := "0.1.0"

structure Workspace where
  directory : Path
  deriving DecidableEq, Repr

namespace Workspace

def cache (w : Workspace) : Path := w.directory.child "cache"

def quarantine (w : Workspace) : Path := w.directory.child "quarantine"

/-- Components are compared as they are written. -/
def owns (w : Workspace) (p : Path) : Bool := p.startsWith w.directory

end Workspace

end PluginGuard

/-!
## Deployments

Settings together with the directory they come from, and what holds where a
setting is missing.
-/
namespace PluginGuard

structure Deployment where
  configDir : Path
  settings : Settings

namespace Deployment

def workingDir (d : Deployment) : Path :=
  d.settings.global.workingDir.getD (d.configDir.child "data")

def logDir (d : Deployment) : Path :=
  d.settings.global.logDir.getD (d.workingDir.child "logs")

def logLevel (d : Deployment) : String := d.settings.global.logLevel.getD "info"

def failurePolicy (d : Deployment) : FailurePolicy :=
  d.settings.global.failurePolicy.getD .carryOn

def selfDefense (d : Deployment) : Bool := d.settings.global.selfDefense.getD true

/-- A directory that is asked for goes before the configured one. -/
def pluginsDir (d : Deployment) (asked : Option Path) : Path :=
  match asked with
  | some p => p
  | none => d.settings.global.pluginsDir.getD (d.configDir.child "plugins")

def resolver (d : Deployment) (r : PluginLookup) : CallerResolver :=
  ⟨r, d.settings.global.hostPluginName⟩

end Deployment

end PluginGuard
