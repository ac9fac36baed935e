import PluginGuard.FileSystem
import PluginGuard.Scan.Record

/-!
# The cache of inspections

One file for each content hash. A record is used only if it is about that hash,
comes from the same version, was not made in the future and is not too old. One
that cannot be what it claims is deleted.
-/
namespace PluginGuard

structure Cache where
  directory : Path
  expiryDays : UInt32
  version : String
  deriving DecidableEq, Repr

namespace Cache

inductive Miss
  | absent
  | expired
  | otherVersion (version : String)
  | unreadable
  | otherHash (hash : String)
  | future (created : Instant)
  deriving DecidableEq, Repr

namespace Miss

def isCorrupt : Miss → Bool
  | .unreadable => true
  | .otherHash _ => true
  | .future _ => true
  | _ => false

end Miss

def longestHash : Nat := 128

def isHash (hash : String) : Bool :=
  let cs := hash.toList
  !cs.isEmpty && cs.length ≤ longestHash && cs.all Text.Hex.isDigit

def recordPath (c : Cache) (hash : String) : Path := c.directory.child (hash ++ ".json")

def draftPath (c : Cache) (hash : String) : Path := c.directory.child (hash ++ ".json.tmp")

def refusal? (c : Cache) (hash : String) (now : Instant) (r : InspectionRecord) : Option Miss :=
  if r.contentHash ≠ hash then some (.otherHash r.contentHash)
  else if r.version ≠ c.version then some (.otherVersion r.version)
  else if now.before r.created then some (.future r.created)
  else if Instant.nanosOfDays c.expiryDays.toNat < now.since r.created then some .expired
  else none

def accept (c : Cache) (hash : String) (now : Instant) (bytes : List UInt8) :
    Except Miss InspectionRecord :=
  match InspectionRecord.ofBytes? bytes with
  | none => .error .unreadable
  | some r =>
    match c.refusal? hash now r with
    | some miss => .error miss
    | none => .ok r

variable {m : Type → Type} [Monad m] [FileSystem m]

open FileSystem AnalysisError

def find (c : Cache) (hash : String) (now : Instant) : m (Except Miss InspectionRecord) := do
  if isHash hash then
    match ← read (c.recordPath hash) with
    | .ok bytes => return c.accept hash now bytes
    | .error .notFound => return .error .absent
    | .error _ => return .error .unreadable
  else return .error .absent

structure Loaded where
  record : InspectionRecord
  miss : Option Miss
  deriving DecidableEq, Repr

def load (c : Cache) (hash : String) (now : Instant) : m Loaded := do
  match ← c.find hash now with
  | .ok r => return ⟨r, none⟩
  | .error miss => do
    if miss.isCorrupt then
      let _ : Answered Unit ← remove (c.recordPath hash)
    return ⟨.fresh hash c.version now, some miss⟩

def notHex : FileError := .other "content hash is not hex"

def persist (c : Cache) (r : InspectionRecord) : m (Except AnalysisError Unit) := do
  if isHash r.contentHash then
    let draft := c.draftPath r.contentHash
    let path := c.recordPath r.contentHash
    match ← about c.directory (makeDirectory c.directory) with
    | .error e => return .error e
    | .ok () =>
      match ← about draft (write draft r.toBytes) with
      | .error e => return .error e
      | .ok () => about path (rename draft path)
  else return .error (.file c.directory notHex)

def forget (c : Cache) (hash : String) : m (Except AnalysisError Bool) := do
  let path := c.recordPath hash
  match ← remove path with
  | .ok () => return .ok true
  | .error .notFound => return .ok false
  | .error e => return .error (.file path e)

def isRecordName (name : String) : Bool :=
  match (Path.splitExtension name).2 with
  | some ext => ext == "json" || ext == "tmp"
  | none => false

def removeAll (c : Cache) : List String → m (Except AnalysisError Nat)
  | [] => return .ok 0
  | name :: rest => do
    let path := c.directory.child name
    match ← about path (remove path) with
    | .error e => return .error e
    | .ok () => return (← c.removeAll rest).map (· + 1)

def clear (c : Cache) : m (Except AnalysisError Nat) := do
  match ← names c.directory with
  | .ok ns => c.removeAll (ns.filter isRecordName)
  | .error .notFound => return .ok 0
  | .error e => return .error (.file c.directory e)

end Cache

end PluginGuard
