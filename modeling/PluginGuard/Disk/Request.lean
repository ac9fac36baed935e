import PluginGuard.Disk

/-!
# Requests to a disk

What becomes of a request and of the disk, and programs that run on a disk. A
request that fails changes nothing, save that directories which were made before
the way was blocked stay.
-/
namespace PluginGuard

namespace Disk

def read (d : Disk) (p : Path) : Answered (List UInt8) :=
  match d.find p with
  | .ok (_, .file bytes) => .ok bytes
  | .ok (_, .directory) => .error .isDirectory
  | .error e => .error e

def write (d : Disk) (p : Path) (bytes : List UInt8) : Answered Disk :=
  match d.target p with
  | .error e => .error e
  | .ok (.entered _) => .error .isDirectory
  | .ok (.named place slashed) =>
    if slashed || d.node? place == some .directory then .error .isDirectory
    else .ok (d.put place (.file bytes))

def moved (d : Disk) (source target : String) : Disk :=
  let entries := d.nodes.entries.map fun (k, n) =>
    if k = source then (target, n)
    else
      match under? source k with
      | some rest => (target ++ "/" ++ String.ofList rest, n)
      | none => (k, n)
  { d with nodes := Table.ofList entries }

def moveFile (d : Disk) (source : String) (bytes : List UInt8) (target : String) :
    Answered Disk :=
  if source = target then .ok d
  else if d.node? target = some .directory then .error .isDirectory
  else .ok ((d.drop source).put target (.file bytes))

def moveDirectory (d : Disk) (source target : String) : Answered Disk :=
  if source = target then .ok d
  else if (under? source target).isSome then .error .intoItself
  else
    match d.node? target with
    | some (.file _) => .error .notDirectory
    | some .directory =>
      if d.isEmptyDirectory target then .ok ((d.drop target).moved source target)
      else .error .notEmpty
    | none => .ok (d.moved source target)

def rename (d : Disk) (p q : Path) : Answered Disk :=
  match d.target p, d.target q with
  | .error e, _ => .error e
  | .ok _, .error e => .error e
  | .ok (.named source _), .ok (.named target slashed) =>
    match d.find p with
    | .error e => .error e
    | .ok (_, .directory) => d.moveDirectory source target
    | .ok (_, .file bytes) =>
      if slashed then .error .notDirectory else d.moveFile source bytes target
  | .ok _, .ok _ => .error .busy

def copy (d : Disk) (p q : Path) : Answered Disk :=
  match d.find p with
  | .ok (_, .file bytes) => d.write q bytes
  | .ok (_, .directory) => .error .notRegular
  | .error e => .error e

def remove (d : Disk) (p : Path) : Answered Disk :=
  match d.find p with
  | .ok (place, .file _) => .ok (d.drop place)
  | .ok (_, .directory) => .error .isDirectory
  | .error e => .error e

/-- Follows the pieces from a directory and makes those that are missing. What was made
before the way is blocked stays. -/
def makeAlong (d : Disk) (dir : String) : List (List Char) → Answered Unit × Disk
  | [] => (.ok (), d)
  | piece :: rest =>
    match d.step dir piece with
    | .ok next => d.makeAlong next rest
    | .error .notFound => (d.put (below dir piece) .directory).makeAlong (below dir piece) rest
    | .error .notDirectory => (.error (if rest.isEmpty then .exists else .notDirectory), d)
    | .error e => (.error e, d)

def makeDirectory (d : Disk) (p : Path) : Answered Unit × Disk :=
  if p.text.isEmpty then (.ok (), d)
  else
    match pieces p with
    | .ok names => d.makeAlong (d.start p) names
    | .error e => (.error e, d)

def childName? (dir place : String) : Option String :=
  (under? dir place).bind fun rest =>
    if rest.contains '/' || rest.isEmpty then none else some (String.ofList rest)

def names (d : Disk) (p : Path) : Answered (List String) :=
  match d.find p with
  | .ok (place, .directory) => .ok (d.nodes.keys.filterMap (childName? place))
  | .ok (_, .file _) => .error .notDirectory
  | .error e => .error e

def kind (d : Disk) (p : Path) : Option FileKind :=
  match d.find p with
  | .ok (_, n) => some n.kind
  | .error _ => none

def settle (d : Disk) : Answered Disk → Answered Unit × Disk
  | .ok after => (.ok (), after)
  | .error e => (.error e, d)

end Disk

theorem run_bind {σ α β : Type} (x : StateM σ α) (f : α → StateM σ β) (s : σ) :
    (x >>= f).run s = (f (x.run s).1).run (x.run s).2 := rfl

abbrev OnDisk := StateM Disk

namespace OnDisk

def request (change : Disk → Answered Unit × Disk) : OnDisk (Answered Unit) := fun d =>
  let d' := { d with failures := d.failures.tail }
  if d.failures.head? = some true then (.error .refused, d') else change d'

instance : FileSystem OnDisk where
  read p d := (d.read p, d)
  write p bytes := request fun d => d.settle (d.write p bytes)
  rename p q := request fun d => d.settle (d.rename p q)
  copy p q := request fun d => d.settle (d.copy p q)
  remove p := request fun d => d.settle (d.remove p)
  makeDirectory p := request (·.makeDirectory p)
  names p d := (d.names p, d)
  kind p d := (d.kind p, d)

end OnDisk

namespace Disk

def adding (d : Disk) (p : Path) : Option (List UInt8) → Disk
  | none => (d.makeDirectory p).2
  | some bytes =>
    let d := (d.makeDirectory p.parent).2
    (d.settle (d.write p bytes)).2

def ofFiles (current : Path) (files : List (Path × Option (List UInt8))) : Disk :=
  let empty := (Disk.mk current .empty []).adding current none
  files.foldl (fun d (p, content) => d.adding p content) empty

def directories (relative : List Char) : List String :=
  let names := (Text.pieces (· == '/') relative).dropLast
  (List.range names.length).map fun n =>
    String.ofList (List.intercalate ['/'] (names.take (n + 1)))

def filesUnder (d : Disk) (dir : String) (enter : String → Bool) : List String :=
  d.nodes.entries.filterMap fun (k, n) =>
    match n with
    | .directory => none
    | .file _ =>
      (under? dir k).bind fun rest =>
        if (directories rest).all enter then some (String.ofList rest) else none

end Disk

end PluginGuard
