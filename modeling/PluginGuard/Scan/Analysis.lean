import PluginGuard.Config.Settings
import PluginGuard.Scan.Builtin
import PluginGuard.Scan.Cache

/-!
# Analyses

Every enabled scanner over one archive. A result that the cache holds is used
again; after each new one the record is stored before the next scanner runs. A
record that cannot be stored costs nothing but a later scan, and a scanner that
fails leaves no result.
-/
namespace PluginGuard

structure ScanOutcome where
  scanner : String
  result : ScanResult
  fromCache : Bool
  countermeasure : Option Countermeasure
  deriving DecidableEq, Repr

structure Analysis where
  scanners : List Scan.Scanner
  cache : Cache
  settings : AnalysisSettings
  failurePolicy : FailurePolicy

namespace Analysis

open Scan

def isEnabled (a : Analysis) : Bool := a.settings.enabled.getD true

def override? (a : Analysis) (scanner : String) : Option Countermeasure :=
  (a.settings.countermeasureFor scanner).bind Countermeasure.ofSetting?

def countermeasure? (a : Analysis) (scanner : String) (r : ScanResult) : Option Countermeasure :=
  if r.verdict = .clean then none
  else
    match a.override? scanner with
    | some c => some c
    | none => r.recommended

def outcome (a : Analysis) (scanner : String) (r : ScanResult) (fromCache : Bool) : ScanOutcome :=
  ⟨scanner, r, fromCache, a.countermeasure? scanner r⟩

structure Progress where
  record : InspectionRecord
  /-- No attempt to store the record has failed. -/
  storing : Bool
  outcomes : List ScanOutcome
  deriving DecidableEq, Repr

namespace Progress

def add (p : Progress) (o : ScanOutcome) : Progress := { p with outcomes := p.outcomes ++ [o] }

def keep (p : Progress) (scanner : String) (r : ScanResult) : Progress :=
  { p with record := { p.record with results := p.record.results.insert scanner r } }

end Progress

variable {m : Type → Type} [Monad m] [FileSystem m]

def store (a : Analysis) (p : Progress) : m Progress := do
  if p.storing then
    match ← a.cache.persist p.record with
    | .ok () => return p
    | .error _ => return { p with storing := false }
  else return p

def runScanner (a : Analysis) (contents : Contents) (s : Scanner) (p : Progress) :
    m (Except AnalysisError Progress) := do
  match p.record.results.find? s.name with
  | some r => return .ok (p.add (a.outcome s.name r true))
  | none =>
    match s.run contents with
    | .ok r =>
      let p ← a.store (p.keep s.name r)
      return .ok (p.add (a.outcome s.name r false))
    | .error message =>
      match a.failurePolicy with
      | .carryOn => return .ok p
      | .shutdown => return .error (.scanner s.name contents.plugin message)

def runScanners (a : Analysis) (contents : Contents) :
    List Scanner → Progress → m (Except AnalysisError Progress)
  | [], p => return .ok p
  | s :: rest, p => do
    match ← a.runScanner contents s p with
    | .ok p => a.runScanners contents rest p
    | .error e => return .error e

def enabledScanners (a : Analysis) : List Scanner :=
  a.scanners.filter fun s => a.settings.scannerEnabled s.name

def analyze (a : Analysis) (archive : Archive) (now : Instant) :
    m (Except AnalysisError (List ScanOutcome)) := do
  let loaded ← a.cache.load archive.contentHash now
  let p ← a.runScanners (Contents.ofArchive archive) a.enabledScanners ⟨loaded.record, true, []⟩
  return p.map (·.outcomes)

end Analysis

end PluginGuard
