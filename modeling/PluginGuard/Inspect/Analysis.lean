import PluginGuard.Inspect.Scan
import PluginGuard.Inspect.Scratch
import PluginGuard.Scan.Quarantine

/-!
# Analyses for inspection

JSON forms of cached records, and of what goes wrong with files.
-/
namespace PluginGuard.Inspect

def analysisErrorKind : AnalysisError → String
  | .archive .. => "Archive"
  | .file .. => "Io"
  | .scanner .. => "ScannerFailed"

def analysisError (e : AnalysisError) : Json := failure (analysisErrorKind e) e.message

def orAnalysisError {α : Type} (shown : α → Json) : Except AnalysisError α → Json
  | .ok a => shown a
  | .error e => analysisError e

def miss : Cache.Miss → Json
  | .absent => texts ["Absent"]
  | .expired => texts ["Expired"]
  | .otherVersion v => texts ["VersionMismatch", v]
  | .unreadable => texts ["Corrupt"]
  | .otherHash h => texts ["Corrupt", s!"record claims hash {h}"]
  | .future t => texts ["Corrupt", s!"created in the future ({t.display})"]

def loaded (l : Cache.Loaded) : Json :=
  .object [("cache", l.record.written), ("miss", .ofOption (l.miss.map miss))]

def document (bytes : List UInt8) : Json :=
  .ofOption (Json.parse? bytes)

def cacheStep (c : Cache) (s : Json) : OnDisk Json := do
  let hash := s.textAt "hash"
  match s.textAt "do" with
  | "load" =>
    match Instant.parse? (s.textAt "now") with
    | some now => return loaded (← c.load hash now)
    | none => return .null
  | "persist" =>
    match (s.get "record").read? DocumentFormat.inspectionRecord with
    | some r => return orAnalysisError (fun _ => .text "ok") (← c.persist r)
    | none => return .object [("error", .text "Json")]
  | "remove" => return orAnalysisError .bool (← c.forget hash)
  | "clear" => return orAnalysisError .ofNat (← c.clear)
  | "read" => return .ofOption (((← get).read (c.recordPath hash)).toOption.map document)
  | _ => return tree (← get)

/-! ### Outcomes -/

def outcome (o : ScanOutcome) : Json :=
  .object [("scanner", .text o.scanner), ("result", o.result.written),
    ("from_cache", .bool o.fromCache),
    ("countermeasure", optional (o.countermeasure.map (·.name)))]

def enforcement (e : Enforcement) : Json :=
  .object [("plugin", .text e.plugin),
    ("countermeasure", optional (e.countermeasure.map (·.name))),
    ("triggered_by", texts e.triggeredBy),
    ("quarantined_to", optional (e.quarantinedTo.map (·.text))),
    ("failed", .bool e.failure.isSome), ("blocks", .bool e.blocksStartup)]

def sidecars (d : Disk) : Json :=
  let notes := (d.filesUnder scratch.text fun _ => true).filter fun name =>
    Text.endsWith (Quarantine.noteName "").toList name.toList
  .object (notes.map fun name =>
    (name, (document ((stored d name).getD [])).without ["id", "quarantinedAt"]))

/-- Stands for the digits of an identifier that a name may end in. -/
def idMark : String := "########"

def occasion (n : Nat) : Occasion :=
  let now := (Instant.parse? "2026-01-01T00:00:00Z").getD ⟨0, 0, 0⟩
  ⟨now, now, ⟨idMark ++ Text.Hex.padded 24 n⟩⟩

def analysisStep (a : Analysis) (archives : List Archive) (s : Json) :
    StateT (List ScanOutcome) OnDisk Json := do
  match s.textAt "do", archives[s.natAt "archive"]? with
  | "analyze", some archive =>
    let answer ← a.analyze (m := OnDisk) archive (occasion 0).analysed
    match answer with
    | .ok outcomes => do
      set outcomes
      return .array (outcomes.map outcome)
    | .error e => return analysisError e
  | "enforce", some archive =>
    let e ← Quarantine.enforce (m := OnDisk) (scratch.child "quarantine") archive (← get)
      (occasion (s.natAt "archive"))
    return enforcement e
  | "forget", _ =>
    let answer ← a.cache.forget (m := OnDisk) (s.textAt "hash")
    return orAnalysisError .bool answer
  | _, _ => return .array [.bool a.isEnabled, .ofNat a.settings.exclusions.length]

end PluginGuard.Inspect
