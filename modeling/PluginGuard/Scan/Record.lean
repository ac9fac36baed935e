import PluginGuard.Instant
import PluginGuard.Json.Document
import PluginGuard.Json.Fields
import PluginGuard.Json.Value
import PluginGuard.Scan.Verdict
import PluginGuard.Table
import PluginGuard.Text.Utf8

/-!
# Inspection records

What scanners said about an archive, kept under the hash of its content. A record
says which version of the guard made it and when. A countermeasure is written where
one is recommended.
-/
namespace PluginGuard.ScanResult

def written (r : ScanResult) : Json :=
  .object ([("verdict", .text r.verdict.name), ("confidence", .ofNat r.confidence.toNat),
    ("details", .array (r.details.map .text))] ++
    match r.recommended with
    | some c => [("recommendedCountermeasure", .text c.name)]
    | none => [])

end PluginGuard.ScanResult

namespace PluginGuard

structure InspectionRecord where
  created : Instant
  version : String
  contentHash : String
  /-- By the names of the scanners. -/
  results : Table ScanResult
  deriving DecidableEq, Repr

namespace DocumentFormat

variable {ν : Type}

def confidence (f : DocumentFormat ν) (node : ν) : Reading UInt8 := do
  let n ← f.count node
  if n < 256 then return n.toUInt8 else .refuse

def instant (f : DocumentFormat ν) (node : ν) : Reading Instant := do
  Instant.parse? (← f.text node)

def scanResult (f : DocumentFormat ν) (node : ν) : Reading ScanResult := do
  let fs ← f.record ["verdict", "confidence", "details", "recommendedCountermeasure"] node
  return {
    verdict := ← required fs "verdict" (f.named Verdict.ofName?)
    confidence := ← required fs "confidence" f.confidence
    details := ← required fs "details" (f.listOf f.text)
    recommended := ← f.setting fs "recommendedCountermeasure" (f.named Countermeasure.ofName?) }

def inspectionRecord (f : DocumentFormat ν) (node : ν) : Reading InspectionRecord := do
  let fs ← f.record ["creationTimestamp", "toolVersion", "contentHash", "results"] node
  return {
    created := ← required fs "creationTimestamp" f.instant
    version := ← required fs "toolVersion" f.text
    contentHash := ← required fs "contentHash" f.text
    results := ← required fs "results" (f.tableOf f.scanResult) }

end DocumentFormat

namespace InspectionRecord

def fresh (contentHash version : String) (now : Instant) : InspectionRecord :=
  ⟨now, version, contentHash, .empty⟩

def written (r : InspectionRecord) : Json :=
  .object [("creationTimestamp", .text r.created.written), ("toolVersion", .text r.version),
    ("contentHash", .text r.contentHash),
    ("results", .object (r.results.entries.map fun (name, s) => (name, s.written)))]

def toBytes (r : InspectionRecord) : List UInt8 := Text.Utf8.encode r.written.pretty

def ofBytes? (bytes : List UInt8) : Option InspectionRecord :=
  (RawJson.parse? bytes).bind (·.read? DocumentFormat.inspectionRecord)

end InspectionRecord

end PluginGuard
