import PluginGuard.Descriptor
import PluginGuard.Text.Cut

/-!
# Plugin archives

What the guard looks at in a plugin's archive: its classes, its descriptor and
the entries that cannot be read.
-/
namespace PluginGuard

structure ClassEntry where
  entry : String
  bytes : List UInt8
  deriving DecidableEq

/-- The dotted name that the entry's place in the archive stands for. -/
def ClassEntry.className (e : ClassEntry) : String :=
  Text.swapChar '/' '.' (String.ofList (Text.dropRepeatedEnd ".class".toList e.entry.toList))

structure Unread where
  entry : String
  reason : String
  deriving DecidableEq, Repr

structure Archive where
  path : Path
  /-- The name in the descriptor, where it has one. -/
  name : Option String
  /-- The text of the descriptor. -/
  descriptor : Option String
  classes : List ClassEntry
  unreadable : List Unread
  contentHash : String
  deriving DecidableEq

def Archive.displayName (a : Archive) : String :=
  match a.name with
  | some n => n
  | none =>
    match a.path.fileName? with
    | some n => (Path.splitExtension n).1
    | none => ""

end PluginGuard
