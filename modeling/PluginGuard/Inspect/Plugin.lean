import PluginGuard.Descriptor
import PluginGuard.Archive.Open
import PluginGuard.Inspect.Analysis

/-!
# Plugins for inspection

JSON forms of descriptors and archives.
-/
namespace PluginGuard.Inspect

def descriptor (d : Descriptor) : Json :=
  .object [("name", .text d.name), ("main", .text d.main), ("version", optional d.version),
    ("description", optional d.description), ("author", optional d.author),
    ("authors", texts d.authors), ("depend", texts d.depend)]

def descriptorError : DescriptorError → Json
  | .unreadable => .object [("error", .text "Yaml")]
  | e => failure "Descriptor" e.message

def archive (a : Archive) : Json :=
  .object [("name", optional a.name), ("display_name", .text a.displayName),
    ("descriptor", optional a.descriptor), ("hash", .text a.contentHash),
    ("unreadable", .array (a.unreadable.map unread)),
    ("classes", .array (a.classes.map fun c =>
      .array [.text c.entry, .text c.className, bytes c.bytes]))]

def opened : Except AnalysisError Archive → Json
  | .ok a => archive a
  | .error e => .object [("error", .text (analysisErrorKind e))]

end PluginGuard.Inspect
