import PluginGuard.Config.Settings

/-!
# Settings from documents

How a document of some format is read as settings. A format says which of its
nodes are texts, flags, counts, lists and tables; the documents say which fields
there are. Unknown fields are passed over, a field given twice is an error. A
node may be a reference to another one; a reading follows no more references than
it is allowed to.
-/
namespace PluginGuard

namespace DocumentFormat

/-- The state counts the references that may still be followed. -/
abbrev Reading := StateT Nat Option

def Reading.finish? {α : Type} (r : Reading α) (references : Nat) : Option α :=
  (r.run references).map (·.1)

def Reading.refuse {α : Type} : Reading α := fun _ => none

end DocumentFormat

open DocumentFormat

structure DocumentFormat (ν : Type) where
  /-- The node that a reference stands for; any other node is itself. -/
  entered : ν → Reading ν
  /-- The node, which is no reference, stands for a field that is not set. -/
  isUnset : ν → Reading Bool
  text : ν → Reading String
  /-- One of a fixed set of words. -/
  word : ν → Reading String
  flag : ν → Reading Bool
  count : ν → Reading UInt32
  items : ν → Reading (List ν)
  fields : ν → Reading (List (String × ν))
  /-- A list may give the fields of a record in their order. -/
  recordsInLists : Bool

namespace DocumentFormat

variable {ν α : Type}

def optional (f : DocumentFormat ν) (read : ν → Reading α) (node : ν) : Reading (Option α) := do
  let node ← f.entered node
  if ← f.isUnset node then return none else return some (← read node)

def field (fields : List (String × ν)) (name : String) (absent : α) (read : ν → Reading α) :
    Reading α :=
  match fields.filter (·.1 == name) with
  | [] => return absent
  | [(_, node)] => read node
  | _ => .refuse

def required (fields : List (String × ν)) (name : String) (read : ν → Reading α) : Reading α :=
  match fields.filter (·.1 == name) with
  | [(_, node)] => read node
  | _ => .refuse

def setting (f : DocumentFormat ν) (fields : List (String × ν)) (name : String)
    (read : ν → Reading α) : Reading (Option α) :=
  field fields name none (f.optional read)

def orElse (a b : Reading α) : Reading α := fun n =>
  match a n with
  | some r => some r
  | none => b n

def record (f : DocumentFormat ν) (names : List String) (node : ν) :
    Reading (List (String × ν)) := do
  let node ← f.entered node
  orElse (f.fields node) do
    let is ← f.items node
    if f.recordsInLists && is.length ≤ names.length then return names.zip is else .refuse

def path (f : DocumentFormat ν) (node : ν) : Reading Path := return ⟨← f.text node⟩

def named (f : DocumentFormat ν) (ofName? : String → Option α) (node : ν) : Reading α := do
  ofName? (← f.word node)

def listOf (f : DocumentFormat ν) (read : ν → Reading α) (node : ν) : Reading (List α) := do
  (← f.items node).mapM read

def tableOf (f : DocumentFormat ν) (read : ν → Reading α) (node : ν) : Reading (Table α) := do
  return Table.ofList (← (← f.fields node).mapM fun (k, v) => do return (k, ← read v))

def globalSettings (f : DocumentFormat ν) (node : ν) : Reading GlobalSettings := do
  let fs ← f.record ["workingDir", "logLevel", "logDir", "failurePolicy", "selfDefense",
    "hostPluginName", "pluginsDir"] node
  return {
    workingDir := ← f.setting fs "workingDir" f.path
    logLevel := ← f.setting fs "logLevel" f.text
    logDir := ← f.setting fs "logDir" f.path
    failurePolicy := ← f.setting fs "failurePolicy" (f.named FailurePolicy.ofName?)
    selfDefense := ← f.setting fs "selfDefense" f.flag
    hostPluginName := ← f.setting fs "hostPluginName" f.text
    pluginsDir := ← f.setting fs "pluginsDir" f.path }

def scannerSettings (f : DocumentFormat ν) (node : ν) : Reading ScannerSettings := do
  let fs ← f.record ["enabled", "countermeasure"] node
  return {
    enabled := ← f.setting fs "enabled" f.flag
    countermeasure := ← f.setting fs "countermeasure" f.text }

def analysisSettings (f : DocumentFormat ν) (node : ν) : Reading AnalysisSettings := do
  let fs ← f.record ["enabled", "cacheExpiryDays", "scanners", "exclusions", "countermeasure"] node
  return {
    enabled := ← f.setting fs "enabled" f.flag
    cacheExpiryDays := ← f.setting fs "cacheExpiryDays" f.count
    scanners := ← field fs "scanners" Table.empty (f.tableOf f.scannerSettings)
    exclusions := ← field fs "exclusions" [] (f.listOf f.path)
    countermeasure := ← f.setting fs "countermeasure" f.text }

def operationSettings (f : DocumentFormat ν) (node : ν) : Reading OperationSettings := do
  let fs ← f.record ["default", "rules"] node
  return {
    default := ← f.setting fs "default" f.text
    rules := ← field fs "rules" [] (f.listOf f.text) }

def accessSettings (f : DocumentFormat ν) (node : ν) : Reading AccessSettings :=
  f.tableOf f.operationSettings node

end DocumentFormat

end PluginGuard
