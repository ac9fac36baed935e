import PluginGuard.Archive.Open
import PluginGuard.Hook.Transformer
import PluginGuard.Registry
import PluginGuard.Text.Character

/-!
# The index of plugins

The plugins of one directory with their descriptors. A plugin goes by the name in
its descriptor, or by that of its archive where the descriptor is missing or
faulty. Archives that cannot be opened are kept with the reason.
-/
namespace PluginGuard

structure PluginIndex where
  directory : Path
  plugins : List Plugin
  /-- Each class with the place of its owner among the plugins. -/
  owners : List (String × Nat)
  /-- By the name of the plugin; of several under one name the last one stays. -/
  descriptors : Table Descriptor
  unreadable : List (Path × AnalysisError)

namespace PluginIndex

def empty (directory : Path) : PluginIndex := ⟨directory, [], [], .empty, []⟩

def descriptor? (a : Archive) : Option Descriptor :=
  a.descriptor.bind fun text => (Descriptor.parse text).toOption

def displayName (a : Archive) : String :=
  match descriptor? a with
  | some d => d.name
  | none => a.displayName

def plugin (a : Archive) : Plugin :=
  ⟨a.path, displayName a, NameSet.ofList (a.classes.map (·.className)), a.contentHash⟩

def describe (descriptors : Table Descriptor) (a : Archive) : Table Descriptor :=
  match descriptor? a with
  | some d => descriptors.insert d.name d
  | none => descriptors

def add (i : PluginIndex) (a : Archive) : PluginIndex :=
  let p := plugin a
  { i with
    plugins := i.plugins ++ [p]
    owners := p.classNames.foldl (Registry.claim i.plugins.length) i.owners
    descriptors := describe i.descriptors a }

def ofArchives (directory : Path) (archives : List Archive) : PluginIndex :=
  archives.foldl add (empty directory)

def missed (i : PluginIndex) (path : Path) (e : AnalysisError) : PluginIndex :=
  { i with unreadable := i.unreadable ++ [(path, e)] }

def byClass (i : PluginIndex) (className : String) : Option Plugin :=
  (i.owners.find? (·.1 == className)).bind fun e => i.plugins[e.2]?

def byFile (i : PluginIndex) (file : Path) : Option Plugin := i.plugins.find? (·.jar.same file)

def byName (i : PluginIndex) (name : String) : Option Plugin :=
  i.plugins.find? (·.displayName == name)

def lookup (i : PluginIndex) : PluginLookup := ⟨i.byClass, i.byFile, i.byName, i.plugins⟩

instance : Coe PluginIndex PluginLookup := ⟨lookup⟩

def mainClasses (i : PluginIndex) : List String := i.descriptors.values.map (·.main)

def transformer (i : PluginIndex) : Transformer :=
  .ofList (Injection.builtin ++ Injection.frames i.mainClasses)

/-! ### Discovery -/

def isArchiveName (name : String) : Bool :=
  match (Path.splitExtension name).2 with
  | some ext => Text.Ascii.sameIgnoringCase ext "jar"
  | none => false

variable {m : Type → Type} [Monad m] [FileSystem m]

open FileSystem

def addNamed (i : PluginIndex) : List String → m PluginIndex
  | [] => return i
  | name :: rest => do
    let path := i.directory.child name
    if isArchiveName name && (← isFile path) then
      match ← Archive.open_ path with
      | .ok a => (i.add a).addNamed rest
      | .error e => (i.missed path e).addNamed rest
    else i.addNamed rest

/-- The index of the archives directly in a directory. One that is missing has none. -/
def discover (directory : Path) : m (Answered PluginIndex) := do
  if ← present directory then
    match ← names directory with
    | .ok ns => return .ok (← (empty directory).addNamed ns)
    | .error e => return .error e
  else return .ok (empty directory)

end PluginIndex

end PluginGuard
