import PluginGuard.Cli.Program
import Std.Time.DateTime.Timestamp

/-!
# The command line program

The file system of the machine, its clock and its environment, given to the
program.
-/
namespace PluginGuard.Machine

def fileError : IO.Error → FileError
  | .noFileOrDirectory .. => .notFound
  | .alreadyExists .. => .exists
  | .unsatisfiedConstraints .. => .notEmpty
  | .inappropriateType _ code _ =>
    if code = 20 then .notDirectory else if code = 21 then .isDirectory else .notRegular
  | e => .other (toString e)

def answered {α : Type} (act : IO α) : IO (Answered α) := do
  try return .ok (← act)
  catch e => return .error (fileError e)

def entry (p : Path) : IO.FS.DirEntry := { root := p.text, fileName := "" }

def kind (p : Path) : IO (Option FileKind) := do
  match ← answered (entry p).root.metadata with
  | .ok found =>
    return match found.type with
      | .file => some .file
      | .dir => some .directory
      | _ => none
  | .error _ => return none

def names (p : Path) : IO (List String) := do
  let entries ← (entry p).root.readDir
  return (entries.toList.map (·.fileName)).mergeSort fun a b => !(b < a)

def copy (source target : Path) : IO Unit := do
  IO.FS.writeBinFile target.text (← IO.FS.readBinFile source.text)

instance : FileSystem IO where
  read p := answered do return (← IO.FS.readBinFile p.text).toList
  write p bytes := answered (IO.FS.writeBinFile p.text ⟨bytes.toArray⟩)
  rename p q := answered (IO.FS.rename p.text q.text)
  copy p q := answered (copy p q)
  remove p := answered (IO.FS.removeFile p.text)
  makeDirectory p := answered (IO.FS.createDirAll p.text)
  names p := answered (names p)
  kind p := kind p

/-- An identifier of the fourth version from the first of some random bytes. -/
def recordId (random : List UInt8) : RecordId :=
  let marked := (random.take 16).zipIdx.map fun (b, i) =>
    if i = 6 then (b &&& 0x0f) ||| 0x40 else if i = 8 then (b &&& 0x3f) ||| 0x80 else b
  ⟨Text.Hex.encode marked⟩

def now : IO Instant := do
  return .ofNanosSince1970 (← Std.Time.Timestamp.now).toNanosecondsSinceUnixEpoch.val.toNat

def occasion (now : Instant) (random : List UInt8) (n : Nat) : Occasion :=
  ⟨now, now, recordId (Digest.Sha256.digest (random ++ Text.Utf8.encode (toString n)))⟩

/-- Colour is for terminals that understand it, unless it is not wanted. -/
def colored : IO Bool := do
  let refused := (← IO.getEnv "NO_COLOR").isSome
  let rich := (← IO.getEnv "COLORTERM").isSome
  let able := (← IO.getEnv "TERM").any (· != "dumb")
  return !refused && (rich || able)

def surroundings : IO Cli.Surroundings := do
  let current := (← IO.currentDir).toString
  let home ← IO.getEnv "HOME"
  let configured ← IO.getEnv "WARDEN_CONFIG_DIR"
  return ⟨⟨current⟩, home.map Path.mk, configured.map Path.mk, ← colored,
    occasion (← now) (← IO.getRandomBytes 32).toList⟩

end PluginGuard.Machine

open PluginGuard in
def main (words : List String) : IO UInt32 := do
  let ending ← Cli.run (m := IO) (← Machine.surroundings) words
  IO.print ending.output
  IO.eprint ending.errors
  return ending.status.code.toUInt32
