import PluginGuard.Config.Files
import PluginGuard.Config.Validation
import PluginGuard.Inspect.Access

/-!
# Settings for inspection

JSON forms of settings, of findings about them and of what they lead to.
-/
namespace PluginGuard.Inspect

def settings (s : Settings) : Json :=
  .object [("global", s.global.written), ("static_analysis", s.analysis.written),
    ("dac", s.access.written)]

def finding (f : Finding) : Json := texts [f.path, f.message, f.display]

def configuration (s : Settings) (directory : Path) (names : List String) : Json :=
  let full := s.withDefaults directory
  let report := full.validate
  let scanner := fun name => Json.array
    [.bool (full.analysis.scannerEnabled name), optional (full.analysis.countermeasureFor name)]
  .object [("loaded", settings s), ("full", settings full), ("valid", .bool report.isValid),
    ("errors", .array (report.errors.map finding)),
    ("warnings", .array (report.warnings.map finding)),
    ("scanners", .array (names.map scanner)), ("files", texts s.files.keys),
    ("round_trip", .bool s.survivesWriting)]

end PluginGuard.Inspect
