import PluginGuard.Scan.Analysis

/-!
# Quarantine

The strongest countermeasure among the outcomes for a plugin is the one in force.
A quarantined archive is moved away, under a name that is not taken, and a note
beside it says why. A quarantine that fails still blocks the start.
-/
namespace PluginGuard

/-- The identifier of a quarantine: 32 hexadecimal digits. -/
structure RecordId where
  digits : String
  deriving DecidableEq, Repr

namespace RecordId

def short (id : RecordId) : String := String.ofList (id.digits.toList.take 8)

def text (id : RecordId) : String :=
  let group := fun start n => String.ofList ((id.digits.toList.drop start).take n)
  String.intercalate "-" [group 0 8, group 8 4, group 12 4, group 16 4, group 20 12]

end RecordId

structure QuarantineNote where
  id : RecordId
  plugin : String
  contentHash : String
  scanner : String
  verdict : Verdict
  details : List String
  time : Instant
  path : Path
  deriving DecidableEq, Repr

def QuarantineNote.written (n : QuarantineNote) : Json :=
  .object [("id", .text n.id.text), ("plugin", .text n.plugin),
    ("contentHash", .text n.contentHash), ("scanner", .text n.scanner),
    ("verdict", .text n.verdict.name), ("details", .array (n.details.map .text)),
    ("quarantinedAt", .text n.time.written), ("originalPath", .text n.path.text)]

structure Enforcement where
  plugin : String
  countermeasure : Option Countermeasure
  /-- The scanners whose outcomes carry the countermeasure in force. -/
  triggeredBy : List String
  quarantinedTo : Option Path
  failure : Option AnalysisError
  deriving DecidableEq, Repr

def Enforcement.blocksStartup (e : Enforcement) : Bool :=
  (e.countermeasure.map (·.blocksStartup)).getD false

/-- When a plugin is analysed, when a note on it is made, and the identifier of that note. -/
structure Occasion where
  analysed : Instant
  noted : Instant
  id : RecordId
  deriving DecidableEq, Repr

namespace Quarantine

def noteName (name : String) : String := name ++ ".quarantine.json"

def tagged (name tag : String) : String :=
  match Path.splitExtension name with
  | (stem, some ext) => s!"{stem}-{tag}.{ext}"
  | (stem, none) => s!"{stem}-{tag}"

def hashTag (contentHash : String) : String := String.ofList (contentHash.toList.take 12)

variable {m : Type → Type} [Monad m] [FileSystem m]

open FileSystem AnalysisError

/-- A file has the name, or the note of another one would have it. -/
def taken (dir : Path) (name : String) : m Bool := do
  if ← present (dir.child name) then return true
  else present (dir.child (noteName name))

/-- The name itself, else with the hash, else with the identifier as well. -/
def freeName (dir : Path) (name contentHash : String) (id : RecordId) : m String := do
  let tag := hashTag contentHash
  if !(← taken dir name) then return name
  else if !(← taken dir (tagged name tag)) then return tagged name tag
  else return tagged name s!"{tag}-{id.short}"

def moveFile (source target : Path) : m (Except AnalysisError Unit) := do
  match ← rename source target with
  | .ok () => return .ok ()
  | .error _ =>
    match ← about target (copy source target) with
    | .error e => return .error e
    | .ok () => about source (remove source)

def note (a : Archive) (o : ScanOutcome) (occasion : Occasion) : QuarantineNote :=
  ⟨occasion.id, a.displayName, a.contentHash, o.scanner, o.result.verdict, o.result.details,
    occasion.noted, a.path⟩

def noFileName : FileError := .other "archive path has no file name"

def quarantine (dir : Path) (a : Archive) (o : ScanOutcome) (occasion : Occasion) :
    m (Except AnalysisError Path) := do
  match a.path.fileName? with
  | none => return .error (.file a.path noFileName)
  | some fileName =>
    match ← about dir (makeDirectory dir) with
    | .error e => return .error e
    | .ok () =>
      let name ← freeName dir fileName a.contentHash occasion.id
      let target := dir.child name
      match ← moveFile a.path target with
      | .error e => return .error e
      | .ok () =>
        let notePath := dir.child (noteName name)
        let bytes := Text.Utf8.encode (note a o occasion).written.pretty
        return (← about notePath (write notePath bytes)).map fun _ => target

/-- Carries out the strongest countermeasure of the outcomes. A quarantine is put
down to the first scanner that asks for one. -/
def enforce (dir : Path) (a : Archive) (outcomes : List ScanOutcome) (occasion : Occasion) :
    m Enforcement := do
  let strongest := Countermeasure.strongest? (outcomes.filterMap (·.countermeasure))
  let carried := fun (o : ScanOutcome) => strongest.isSome && o.countermeasure == strongest
  let done : Enforcement :=
    ⟨a.displayName, strongest, (outcomes.filter carried).map (·.scanner), none, none⟩
  match strongest, outcomes.find? carried with
  | some .quarantine, some culprit =>
    match ← quarantine dir a culprit occasion with
    | .ok target => return { done with quarantinedTo := some target }
    | .error e => return { done with failure := some e }
  | _, _ => return done

end Quarantine

end PluginGuard
