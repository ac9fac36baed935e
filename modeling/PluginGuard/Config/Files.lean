import PluginGuard.Config.Settings
import PluginGuard.FileSystem
import PluginGuard.Json.Value
import PluginGuard.Text.Character
import PluginGuard.Text.Utf8
import PluginGuard.Yaml.Format
import PluginGuard.Yaml.Written

/-!
# Files of settings

## Written settings

The value that stands for settings in a document: fields that are not set, and
lists and tables that are empty, are left out.
-/
namespace PluginGuard

namespace Json

def present (fields : List (String × Option Json)) : Json :=
  .object (fields.filterMap fun (k, v) => v.map fun v => (k, v))

def ofPath (p : Path) : Json := .text p.text

def ofTexts (ts : List String) : Option Json :=
  if ts.isEmpty then none else some (.array (ts.map .text))

def ofTable {α : Type} (write : α → Json) (t : Table α) : Json :=
  .object (t.entries.map fun (k, v) => (k, write v))

end Json

open Json

def GlobalSettings.written (s : GlobalSettings) : Json :=
  present
    [("workingDir", s.workingDir.map ofPath), ("logLevel", s.logLevel.map .text),
      ("logDir", s.logDir.map ofPath), ("failurePolicy", s.failurePolicy.map (.text ·.name)),
      ("selfDefense", s.selfDefense.map .bool), ("hostPluginName", s.hostPluginName.map .text),
      ("pluginsDir", s.pluginsDir.map ofPath)]

def ScannerSettings.written (s : ScannerSettings) : Json :=
  present [("enabled", s.enabled.map .bool), ("countermeasure", s.countermeasure.map .text)]

def AnalysisSettings.written (s : AnalysisSettings) : Json :=
  present
    [("enabled", s.enabled.map .bool),
      ("cacheExpiryDays", s.cacheExpiryDays.map fun n => ofNat n.toNat),
      ("scanners", if s.scanners.isEmpty then none
        else some (ofTable ScannerSettings.written s.scanners)),
      ("exclusions", ofTexts (s.exclusions.map (·.text))),
      ("countermeasure", s.countermeasure.map .text)]

def OperationSettings.written (s : OperationSettings) : Json :=
  present [("default", s.default.map .text), ("rules", ofTexts s.rules)]

def AccessSettings.written (s : AccessSettings) : Json := ofTable OperationSettings.written s

end PluginGuard

/-!
## Configuration files

The three files of a configuration directory. A file that is missing or blank
leaves its settings unset.
-/
namespace PluginGuard.Settings

def globalFile : String := "config.yml"
def analysisFile : String := "static-analysis.yml"
def accessFile : String := "dac.yml"

def document? {α : Type} (unset : α) (reader : {ν : Type} → DocumentFormat ν → ν → DocumentFormat.Reading α)
    (text : Option String) : Option α :=
  match text with
  | some t => if Text.allBlank t then some unset else Yaml.read? reader t
  | none => some unset

/-- The settings in files; `read` gives the text of those that are there. -/
def ofFiles? (read : String → Option String) : Option Settings := do
  return {
    global := ← document? .unset DocumentFormat.globalSettings (read globalFile)
    analysis := ← document? .unset DocumentFormat.analysisSettings (read analysisFile)
    access := ← document? .empty DocumentFormat.accessSettings (read accessFile) }

def files (s : Settings) : Table String :=
  .ofList
    [(globalFile, Yaml.Written.document s.global.written),
      (analysisFile, Yaml.Written.document s.analysis.written),
      (accessFile, Yaml.Written.document s.access.written)]

def survivesWriting (s : Settings) : Bool :=
  ofFiles? s.files.find? == some s

end PluginGuard.Settings

/-!
## Loading settings

The settings of a directory, with defaults for what its files leave unset.
-/
namespace PluginGuard

inductive SettingsError
  | file (path : Path) (error : FileError)
  | notText (path : Path)
  | notSettings (path : Path)
  deriving DecidableEq, Repr

def SettingsError.message : SettingsError → String
  | .file path error => s!"Failed to read config file: {path.text}: {error.message}"
  | .notText path =>
    s!"Failed to read config file: {path.text}: stream did not contain valid UTF-8"
  | .notSettings path => s!"Failed to parse config YAML at: {path.text}"

namespace Settings

def ofBytes {α : Type} (path : Path) (unset : α)
    (reader : {ν : Type} → DocumentFormat ν → ν → DocumentFormat.Reading α) (bytes : List UInt8) :
    Except SettingsError α :=
  match Text.Utf8.decode? bytes with
  | none => .error (.notText path)
  | some cs =>
    match document? unset reader (some (String.ofList cs)) with
    | none => .error (.notSettings path)
    | some settings => .ok settings

variable {m : Type → Type} [Monad m] [FileSystem m]

def loadFile {α : Type} (path : Path) (unset : α)
    (reader : {ν : Type} → DocumentFormat ν → ν → DocumentFormat.Reading α) : m (Except SettingsError α) := do
  if ← FileSystem.present path then
    match ← FileSystem.read path with
    | .error e => return .error (.file path e)
    | .ok bytes => return ofBytes path unset reader bytes
  else return .ok unset

def load (directory : Path) : m (Except SettingsError Settings) := do
  let global ← loadFile (directory.child globalFile) .unset DocumentFormat.globalSettings
  let analysis ← loadFile (directory.child analysisFile) .unset DocumentFormat.analysisSettings
  let access ← loadFile (directory.child accessFile) .empty DocumentFormat.accessSettings
  return do return (⟨← global, ← analysis, ← access⟩ : Settings).withDefaults directory

end Settings

end PluginGuard
