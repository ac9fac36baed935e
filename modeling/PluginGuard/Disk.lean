import PluginGuard.FileSystem
import PluginGuard.Table

/-!
# Disks

A file system as a value: what is at each place, and a plan of which of the
requests to come fail. A path is walked name by name from the current directory or
the root, and two dots lead to the directory above the one that has been reached. So
a path whose way is blocked leads nowhere, even where dots would take it back.
-/
namespace PluginGuard

inductive DiskNode
  | file (bytes : List UInt8)
  | directory
  deriving DecidableEq

def DiskNode.kind : DiskNode → FileKind
  | .file _ => .file
  | .directory => .directory

structure Disk where
  current : Path
  /-- By the text of the absolute path without dots that leads there. -/
  nodes : Table DiskNode
  /-- Whether the next request fails, and those after it; beyond the plan none does. -/
  failures : List Bool
  deriving DecidableEq

namespace Disk

def node? (d : Disk) (place : String) : Option DiskNode :=
  if place = "/" then some .directory else d.nodes.find? place

def put (d : Disk) (place : String) (n : DiskNode) : Disk :=
  { d with nodes := d.nodes.insert place n }

def drop (d : Disk) (place : String) : Disk := { d with nodes := d.nodes.erase place }

def enclosing (place : String) : String := (Path.mk place).parent.text

def below (dir : String) (name : List Char) : String :=
  ((Path.mk dir).child (String.ofList name)).text

/-- What follows a directory in the text of a place below it. -/
def under? (dir place : String) : Option (List Char) :=
  let lead := if dir = "/" then "/" else dir ++ "/"
  Text.after? lead.toList place.toList

def isEmptyDirectory (d : Disk) (place : String) : Bool :=
  d.nodes.keys.all fun k => (under? place k).isNone

/-! ### Walks -/

def longestName : Nat := 255

def longestPath : Nat := 4095

def isTooLong (name : List Char) : Bool := longestName < (String.ofList name).utf8ByteSize

def isDots (piece : List Char) : Bool := piece == ['.'] || piece == ['.', '.']

def pieces (p : Path) : Answered (List (List Char)) :=
  if p.text.toList.contains '\x00' then .error .zeroInName
  else if p.text.isEmpty then .error .notFound
  else if longestPath < p.text.utf8ByteSize then .error .nameTooLong
  else .ok (Text.pieces (· == '/') p.text.toList)

def start (d : Disk) (p : Path) : String := if p.isAbsolute then "/" else d.current.text

def step (d : Disk) (dir : String) (piece : List Char) : Answered String :=
  match piece with
  | [] => .ok dir
  | ['.'] => .ok dir
  | ['.', '.'] => .ok (enclosing dir)
  | name =>
    if isTooLong name then .error .nameTooLong
    else
      match d.node? (below dir name) with
      | some .directory => .ok (below dir name)
      | some (.file _) => .error .notDirectory
      | none => .error .notFound

inductive Target
  /-- A directory that the path does not name at its end. -/
  | entered (place : String)
  /-- A name in a directory, with a slash behind it or not. -/
  | named (place : String) (slashed : Bool)
  deriving DecidableEq

/-- Only the directory in which the last name stands has to exist. -/
def target (d : Disk) (p : Path) : Answered Target := do
  let names := (← pieces p).filter (!·.isEmpty)
  let dir ← names.dropLast.foldlM d.step (d.start p)
  match names.getLast? with
  | none => return .entered dir
  | some last =>
    if isDots last then return .entered (← d.step dir last)
    else if isTooLong last then throw .nameTooLong
    else return .named (below dir last) (p.text.toList.getLast? == some '/')

def find (d : Disk) (p : Path) : Answered (String × DiskNode) :=
  match d.target p with
  | .error e => .error e
  | .ok (.entered place) => .ok (place, .directory)
  | .ok (.named place slashed) =>
    match d.node? place with
    | none => .error .notFound
    | some .directory => .ok (place, .directory)
    | some (.file bytes) => if slashed then .error .notDirectory else .ok (place, .file bytes)

end Disk

end PluginGuard
