import PluginGuard.Archive
import PluginGuard.Archive.Zip.Content
import PluginGuard.Archive.Zip.Directory
import PluginGuard.Digest
import PluginGuard.FileSystem

/-!
# Opening archives

An archive from the bytes of a file: its classes in the order of their entries,
its descriptor, and what cannot be read of either.
-/
namespace PluginGuard.Archive

def entryLimit : Nat := 16777216

def nameOnly {ν : Type} (f : DocumentFormat ν) (node : ν) :
    DocumentFormat.Reading (Option String) := do
  f.setting (← f.record ["name"] node) "name" f.text

def nameIn? (descriptor : String) : Option String :=
  match Yaml.read? nameOnly descriptor with
  | some (some name) => if Text.allBlank name then none else some (Text.trim name)
  | _ => none

def isClassName (name : String) : Bool := Text.endsWith ".class".toList name.toList

def take (d : Zip.Data) (a : Archive) (index : Nat) (e : Zip.Entry) : Archive :=
  match e.obstacle? d with
  | some err => { a with unreadable := a.unreadable ++ [⟨s!"#{index}", err.message⟩] }
  | none =>
    if e.isDirectory || !(isClassName e.name || e.name == Descriptor.fileName) then a
    else
      match e.read d entryLimit with
      | .error err => { a with unreadable := a.unreadable ++ [⟨e.name, err.message⟩] }
      | .ok bytes =>
        if isClassName e.name then { a with classes := a.classes ++ [⟨e.name, bytes⟩] }
        else
          let text := Text.Utf8.decodeLenient bytes
          { a with name := nameIn? text, descriptor := some text }

def unreadBefore (a b : Unread) : Bool :=
  a.entry < b.entry || (a.entry == b.entry && !(b.reason < a.reason))

def sorted (a : Archive) : Archive :=
  { a with
    classes := a.classes.mergeSort fun x y => !(y.entry < x.entry)
    unreadable := a.unreadable.mergeSort unreadBefore }

def ofBytes? (path : Path) (bytes : List UInt8) : Option Archive :=
  let d := bytes.toArray
  (Zip.entries? d).map fun es =>
    let start : Archive := ⟨path, none, none, [], [], Digest.Sha256.hex bytes⟩
    sorted (es.zipIdx.foldl (fun a (e, i) => take d a i e) start)

def noArchive : String := "invalid Zip archive"

variable {m : Type → Type} [Monad m] [FileSystem m]

def open_ (path : Path) : m (Except AnalysisError Archive) := do
  match ← AnalysisError.about path (FileSystem.read path) with
  | .error e => return .error e
  | .ok bytes =>
    match ofBytes? path bytes with
    | some a => return .ok a
    | none => return .error (.archive path noArchive)

end PluginGuard.Archive
