import PluginGuard.Path

/-!
# File systems

What the guard asks of the place where it finds archives and keeps its records.
Every request may fail with the reason that the system gives.
-/
namespace PluginGuard

inductive FileError
  | notFound
  | notDirectory
  | isDirectory
  | exists
  | notEmpty
  | notRegular
  | busy
  | intoItself
  | nameTooLong
  /-- No name has a zero character in it. -/
  | zeroInName
  /-- The request failed and changed nothing. -/
  | refused
  | other (message : String)
  deriving DecidableEq, Repr

def FileError.message : FileError → String
  | .notFound => "No such file or directory (os error 2)"
  | .notDirectory => "Not a directory (os error 20)"
  | .isDirectory => "Is a directory (os error 21)"
  | .exists => "File exists (os error 17)"
  | .notEmpty => "Directory not empty (os error 39)"
  | .notRegular => "the source path is neither a regular file nor a symlink to a regular file"
  | .busy => "Device or resource busy (os error 16)"
  | .intoItself => "Invalid argument (os error 22)"
  | .nameTooLong => "File name too long (os error 36)"
  | .zeroInName => "file name contained an unexpected NUL byte"
  | .refused => "Input/output error (os error 5)"
  | .other message => message

inductive FileKind
  | file
  | directory
  deriving DecidableEq, Repr

abbrev Answered (α : Type) := Except FileError α

class FileSystem (m : Type → Type) where
  read : Path → m (Answered (List UInt8))
  write : Path → List UInt8 → m (Answered Unit)
  rename : (source target : Path) → m (Answered Unit)
  copy : (source target : Path) → m (Answered Unit)
  /-- Removes a file. -/
  remove : Path → m (Answered Unit)
  /-- Makes a directory and those above it. -/
  makeDirectory : Path → m (Answered Unit)
  /-- The names in a directory, in order. -/
  names : Path → m (Answered (List String))
  /-- What is at a path, where there is anything. -/
  kind : Path → m (Option FileKind)

namespace FileSystem

variable {m : Type → Type} [Monad m] [FileSystem m]

def isFile (p : Path) : m Bool := do return (← kind p) == some .file

def present (p : Path) : m Bool := do return (← kind p).isSome

def andThen {α β : Type} (first : m (Answered α)) (next : α → m (Answered β)) : m (Answered β) := do
  match ← first with
  | .ok a => next a
  | .error e => return .error e

end FileSystem

/-! ### What goes wrong in an analysis -/

inductive AnalysisError
  /-- The file is no archive. -/
  | archive (path : Path) (reason : String)
  | file (path : Path) (error : FileError)
  | scanner (name plugin message : String)
  deriving DecidableEq, Repr

namespace AnalysisError

def message : AnalysisError → String
  | .archive path reason => s!"failed to read plugin archive {path.text}: {reason}"
  | .file path error => s!"I/O error on {path.text}: {error.message}"
  | .scanner name plugin message =>
    s!"scanner '{name}' failed on plugin '{plugin}': {message}"

def cause? : AnalysisError → Option String
  | .archive _ reason => some reason
  | .file _ error => some error.message
  | .scanner .. => none

def trace (e : AnalysisError) : String := ": ".intercalate (e.message :: e.cause?.toList)

def about {m : Type → Type} [Monad m] {α : Type} (p : Path) (request : m (Answered α)) :
    m (Except AnalysisError α) := do
  match ← request with
  | .ok a => return .ok a
  | .error e => return .error (.file p e)

end AnalysisError

end PluginGuard
