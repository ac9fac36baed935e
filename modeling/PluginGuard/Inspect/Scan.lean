import PluginGuard.Inspect.Access
import PluginGuard.Inspect.Class
import PluginGuard.Scan.Builtin
import PluginGuard.Scan.Record

/-!
# Scans for inspection

JSON forms of what scanners see and say, and a scanner that records its visits.
-/
namespace PluginGuard.Inspect

open Scan

def weigh (level : String) (f : Findings) (detail : String) : Except Overflow Findings :=
  match level with
  | "malicious" => f.condemn detail
  | "suspicious" => f.suspect detail
  | _ => .ok (f.note detail)

def weighTimes (level : String) (f : Findings) (n : Nat) (detail : String) :
    Except Overflow Findings :=
  match level with
  | "malicious" => f.condemnTimes n detail
  | "suspicious" => f.suspectTimes n detail
  | _ => .ok (f.recordTimes n detail)

def Visit.label : Visit → String
  | .ofClass c => s!"class {c.name}"
  | .ofField _ f => s!"field {f.name} {f.descriptor} {f.access}"
  | .ofMethod _ m => s!"method {m.name} {m.descriptor} {m.access} {m.instructions.length}"

/-- Records every visit; at one visit it may end the walk, at one it may fail. -/
def recorder (name level : String) (endAt failAt : Option String) (response : Response) :
    Scanner where
  name := name
  response := response
  visit v f :=
    let label := Visit.label v
    if failAt = some label then
      .failed (if level = "malicious" then "fixed text" else s!"at {label}")
    else match weigh level f label with
      | .ok f => if endAt = some label then .last f else .next f
      | .error o => .failed o.message

def givenResponse (j : Json) : Response :=
  let at_ := fun k d => ((j.item k).asText |> Countermeasure.ofName?).getD d
  ⟨at_ 0 .warn, at_ 1 .abort⟩

def givenScanner (j : Json) : Scanner :=
  match j with
  | .text name => (Scanner.builtin? name).getD (recorder name "note" none none .standard)
  | j => recorder (j.textAt "name") (j.textAt "level") (j.textAt? "break_at") (j.textAt? "panic_at")
      (givenResponse (j.get "defaults"))

def givenScanners : Json → List Scanner
  | .array js => js.map givenScanner
  | _ => Scanner.builtin

def unread (u : Unread) : Json := texts [u.entry, u.reason]

def method (m : MethodView) : Json :=
  .array [.text m.name, .bool m.isNative, .ofNat m.instructions.length,
    optional (m.bodyFault?.map (·.message))]

def classView (c : ClassView) : Json :=
  .object [("entry", .text c.entry), ("name", .text c.name),
    ("methods", .array (c.methods.map method)), ("strings", texts c.strings)]

def scanned (contents : Contents) (s : Scanner) : Json :=
  .array [.text s.name, .bool (Scanner.isBuiltin s.name),
    match s.run contents with
    | .ok r => r.written
    | .error message => failure "Panic" message]

def scan (a : Archive) (scanners : List Scanner) : Json :=
  let contents := Contents.ofArchive a
  .object [("plugin", .text contents.plugin), ("class_names", texts (a.classes.map (·.className))),
    ("classes", .array (contents.classes.map classView)),
    ("unparsed", .array (contents.unparsed.map unread)),
    ("results", .array (scanners.map (scanned contents)))]

abbrev Recorded := Except Overflow Findings

def Recorded.empty : Recorded := .ok .empty

def find (recorded : Recorded) (j : Json) : Recorded := do
  let f ← recorded
  let kind := (j.item 0).asText
  let times := match j.item 2 with
    | .null => 1
    | n => n.asNat
  let by_ := match j.item 3 with
    | .null => 1
    | n => n.asNat
  if kind = "bump" then
    times.fold (fun _ _ recorded => recorded.bind (·.bump "key" (UInt64.ofNat by_))) (.ok f)
  else weighTimes kind f times (j.item 1).asText

def countermeasure (setting : String) : Json :=
  match Countermeasure.ofSetting? setting with
  | some c => .array [.text c.name, .bool c.blocksStartup]
  | none => failure "UnknownCountermeasure" (Countermeasure.unknownMessage setting)

def findings (recorded : Recorded) (response : Response) (settings : List String) : Json :=
  let concluded := do
    let f ← recorded
    return (f, ← f.result response)
  match concluded with
  | .error _ => .object [("error", .text "panic")]
  | .ok (f, r) =>
    .object [("counts", .ofNats [f.suspicious.toNat, f.malicious.toNat, (f.counter "key").toNat,
        (f.counter "other").toNat]),
      ("verdict", .text f.verdict.name), ("clean", .bool (r = ScanResult.clean)),
      ("result", r.written), ("countermeasures", .array (settings.map countermeasure))]

end PluginGuard.Inspect
