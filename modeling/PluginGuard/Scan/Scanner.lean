import PluginGuard.Scan.Contents
import PluginGuard.Scan.Findings

/-!
# Scanners

A scanner visits every class of a plugin, after each class its fields and then
its methods, and collects findings. Any visit may end the walk, and any may fail,
as may the conclusion from what was found.
-/
namespace PluginGuard.Scan

inductive Visit
  | ofClass (c : ClassView)
  | ofField (c : ClassView) (f : FieldView)
  | ofMethod (c : ClassView) (m : MethodView)

inductive Step
  | next (f : Findings)
  /-- The walk ends here. -/
  | last (f : Findings)
  | failed (message : String)
  deriving DecidableEq, Repr

namespace Step

def of : Except Overflow Findings → Step
  | .ok f => .next f
  | .error o => .failed o.message

def andThen (s : Step) (k : Findings → Step) : Step :=
  match s with
  | .next f => k f
  | s => s

end Step

structure Scanner where
  name : String
  response : Response
  visit : Visit → Findings → Step
  /-- What is said once the walk is over. -/
  conclude : Findings → Except String ScanResult :=
    fun f => (f.result response).mapError (·.message)

namespace Scanner

def each (s : Scanner) {α : Type} (place : α → Visit) : List α → Findings → Step
  | [], f => .next f
  | a :: rest, f => (s.visit (place a) f).andThen (s.each place rest)

def walkClass (s : Scanner) (c : ClassView) (f : Findings) : Step :=
  (s.visit (.ofClass c) f).andThen fun f =>
    (s.each (.ofField c) c.fields f).andThen fun f => s.each (.ofMethod c) c.methods f

def walk (s : Scanner) : List ClassView → Findings → Step
  | [], f => .next f
  | c :: rest, f => (s.walkClass c f).andThen (s.walk rest)

/-- Findings start with a note on every entry that could not be looked at. -/
def noted (contents : Contents) : Findings :=
  contents.unparsed.foldl
    (fun f u => f.note s!"{u.entry}: not analysed ({u.reason})") Findings.empty

def run (s : Scanner) (contents : Contents) : Except String ScanResult :=
  match s.walk contents.classes (noted contents) with
  | .next f => s.conclude f
  | .last f => s.conclude f
  | .failed message => .error message

def ofClasses (name : String) (response : Response)
    (look : ClassView → Findings → Except Overflow Findings) : Scanner where
  name := name
  response := response
  visit v f := match v with
    | .ofClass c => .of (look c f)
    | _ => .next f

end Scanner

def Contents.visits (contents : Contents) : List Visit :=
  contents.classes.flatMap fun c =>
    .ofClass c :: (c.fields.map (.ofField c) ++ c.methods.map (.ofMethod c))

end PluginGuard.Scan
