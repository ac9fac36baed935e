import PluginGuard.Path
import PluginGuard.Table

/-!
# Settings

What the three configuration documents hold. Every field may be left unset.
-/
namespace PluginGuard

inductive FailurePolicy
  | carryOn
  | shutdown
  deriving DecidableEq, Repr

def FailurePolicy.name : FailurePolicy → String
  | .carryOn => "continue"
  | .shutdown => "shutdown"

def FailurePolicy.ofName? : String → Option FailurePolicy
  | "continue" => some .carryOn
  | "shutdown" => some .shutdown
  | _ => none

structure GlobalSettings where
  workingDir : Option Path
  logLevel : Option String
  logDir : Option Path
  failurePolicy : Option FailurePolicy
  selfDefense : Option Bool
  hostPluginName : Option String
  pluginsDir : Option Path
  deriving DecidableEq, Repr

structure ScannerSettings where
  enabled : Option Bool
  countermeasure : Option String
  deriving DecidableEq, Repr

structure AnalysisSettings where
  enabled : Option Bool
  cacheExpiryDays : Option UInt32
  scanners : Table ScannerSettings
  /-- Archives that are never scanned. -/
  exclusions : List Path
  countermeasure : Option String
  deriving DecidableEq, Repr

structure OperationSettings where
  default : Option String
  rules : List String
  deriving DecidableEq, Repr

abbrev AccessSettings := Table OperationSettings

structure Settings where
  global : GlobalSettings
  analysis : AnalysisSettings
  access : AccessSettings
  deriving DecidableEq, Repr

def GlobalSettings.unset : GlobalSettings := ⟨none, none, none, none, none, none, none⟩

def ScannerSettings.unset : ScannerSettings := ⟨none, none⟩

def OperationSettings.unset : OperationSettings := ⟨none, []⟩

def Settings.unset : Settings := ⟨.unset, ⟨none, none, .empty, [], none⟩, .empty⟩

namespace AnalysisSettings

def unset : AnalysisSettings := ⟨none, none, .empty, [], none⟩

def scannerEnabled (s : AnalysisSettings) (name : String) : Bool :=
  ((s.scanners.find? name).bind (·.enabled)).getD true

def countermeasureFor (s : AnalysisSettings) (name : String) : Option String :=
  match (s.scanners.find? name).bind (·.countermeasure) with
  | some c => some c
  | none => s.countermeasure

end AnalysisSettings

/-! ### Defaults -/

namespace Settings

def defaultCacheExpiryDays : UInt32 := 30

/-- Directories that are not given lie below the configuration directory, and a
relative working directory is taken against it. -/
def GlobalSettings.withDefaults (s : GlobalSettings) (directory : Path) : GlobalSettings :=
  let workingDir := match s.workingDir with
    | some d => if d.isAbsolute then d else directory.join d
    | none => directory.child "data"
  { s with
    workingDir := some workingDir
    logLevel := some (s.logLevel.getD "info")
    logDir := some (s.logDir.getD (workingDir.child "logs"))
    failurePolicy := some (s.failurePolicy.getD .carryOn)
    selfDefense := some (s.selfDefense.getD true)
    pluginsDir := some (s.pluginsDir.getD (directory.child "plugins")) }

def AnalysisSettings.withDefaults (s : AnalysisSettings) : AnalysisSettings :=
  { s with
    enabled := some (s.enabled.getD true)
    cacheExpiryDays := some (s.cacheExpiryDays.getD defaultCacheExpiryDays) }

def withDefaults (s : Settings) (directory : Path) : Settings :=
  ⟨GlobalSettings.withDefaults s.global directory, AnalysisSettings.withDefaults s.analysis,
    s.access⟩

end Settings

end PluginGuard
