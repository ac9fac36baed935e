import PluginGuard.Text.Cut

/-!
# Paths

A path is kept as it was written. Its components decide equality and what lies
below what; empty components and dots inside a path do not count. Resolving the
components without looking at any directory gives the location that a path
denotes.
-/
namespace PluginGuard

structure Path where
  text : String
  deriving DecidableEq, Repr, Inhabited

namespace Path

inductive Component
  | root
  /-- A dot that a relative path begins with. -/
  | current
  | parent
  | name (text : String)
  deriving DecidableEq, Repr

def ofPiece : List Char → List Component
  | [] => []
  | ['.'] => []
  | ['.', '.'] => [.parent]
  | cs => [.name (String.ofList cs)]

def start (cs : List Char) : List Component :=
  match cs with
  | '/' :: _ => [.root]
  | ['.'] => [.current]
  | '.' :: '/' :: _ => [.current]
  | _ => []

def components (p : Path) : List Component :=
  let cs := p.text.toList
  start cs ++ (Text.pieces (· == '/') cs).flatMap ofPiece

def isAbsolute (p : Path) : Bool := p.text.toList.head? == some '/'

def same (p q : Path) : Bool := p.components == q.components

def startsWith (p base : Path) : Bool := base.components.isPrefixOf p.components

/-- An absolute path replaces the base. -/
def join (base p : Path) : Path :=
  if p.isAbsolute || base.text.isEmpty then p
  else if base.text.toList.getLast? == some '/' then ⟨base.text ++ p.text⟩
  else ⟨base.text ++ "/" ++ p.text⟩

def child (base : Path) (name : String) : Path := base.join ⟨name⟩

/-! ### Locations -/

structure Location where
  rooted : Bool
  names : List String
  deriving DecidableEq, Repr

/-- Leaving the root, or a relative start, stays there. -/
def Location.step (l : Location) : Component → Location
  | .root => ⟨true, []⟩
  | .current => l
  | .parent => ⟨l.rooted, l.names.dropLast⟩
  | .name n => ⟨l.rooted, l.names ++ [n]⟩

def location (p : Path) : Location := p.components.foldl Location.step ⟨false, []⟩

def Location.text (l : Location) : String :=
  (if l.rooted then "/" else "") ++ "/".intercalate l.names

def normalize (p : Path) : Path := ⟨p.location.text⟩

def resolveAgainst (base p : Path) : Path := (if p.isAbsolute then p else base.join p).normalize

/-! ### File names -/

def fileName? (p : Path) : Option String :=
  match p.components.getLast? with
  | some (.name n) => some n
  | _ => none

/-- Both sides of the last dot of a file name, unless it begins the name. -/
def splitExtension (name : String) : String × Option String :=
  match Text.cutLast? '.' name.toList with
  | some (b :: before, after) => (String.ofList (b :: before), some (String.ofList after))
  | _ => (name, none)

def Component.text : Component → String
  | .root => "/"
  | .current => "."
  | .parent => ".."
  | .name n => n

def ofComponents (cs : List Component) : Path :=
  cs.foldl (fun p c => p.child c.text) ⟨""⟩

def parent (p : Path) : Path := ofComponents p.components.dropLast

end Path

end PluginGuard
