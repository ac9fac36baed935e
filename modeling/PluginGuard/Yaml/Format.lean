import PluginGuard.Config.Document
import PluginGuard.Text.Character
import PluginGuard.Text.Numeral
import PluginGuard.Yaml.Node

/-!
# YAML as a document format

Any scalar is a text; flags, counts and fields that are not set are recognised
by the spelling of a plain scalar. A value that is not written is an empty list
or table. How many references a reading follows is bounded by the length of the
document.
-/
namespace PluginGuard.Yaml

namespace Spelling

def isNull (s : String) : Bool := ["null", "Null", "NULL", "~"].contains s

def isVoid (s : String) : Bool := s.isEmpty || isNull s

def flag? (s : String) : Option Bool :=
  if ["true", "True", "TRUE"].contains s then some true
  else if ["false", "False", "FALSE"].contains s then some false
  else none

def digit? (base : Nat) (c : Char) : Option Nat :=
  (Text.Hex.value? c).bind fun d => if d < base then some d else none

def digits? (base : Nat) (cs : List Char) : Option Nat :=
  if cs.isEmpty then none
  else cs.foldlM (fun n c => (digit? base c).map fun d => n * base + d) 0

/-- A number in base ten, which has no leading zero, or in base 16, 8 or 2. -/
def natural? (s : String) : Option Nat :=
  let cs := match s.toList with
    | '+' :: cs => cs
    | cs => cs
  match cs with
  | '0' :: 'x' :: ds => digits? 16 ds
  | '0' :: 'o' :: ds => digits? 8 ds
  | '0' :: 'b' :: ds => digits? 2 ds
  | ['0'] => some 0
  | '0' :: _ => none
  | ds => digits? 10 ds

end Spelling

namespace Document

def entered (d : Document) : Node → DocumentFormat.Reading Node
  | .reference mark => do
    match ← get with
    | 0 => .refuse
    | n + 1 => do
      set n
      return ((d.marked.find? (·.1 == mark)).map (·.2)).getD .absent
  | n => return n

def tagOf (kind : String) : Tag := Text.Utf8.encode ("tag:yaml.org,2002:" ++ kind)

/-- A plain scalar, or a literal one whose tag says what it is. -/
def bare? (kind : String) : Node → Option String
  | .scalar tag style text =>
    if style = .plain ∨ (style = .literal ∧ tag = some (tagOf kind)) then some text else none
  | _ => none

def unset? : Node → Option Bool
  | .scalar tag .plain text =>
    match tag with
    | some t =>
      if t == tagOf "null" then (if Spelling.isNull text then some true else none) else some false
    | none => some (Spelling.isVoid text)
  | _ => some false

def text? : Node → Option String
  | .scalar _ _ text => some text
  | _ => none

def tagName? : Option Tag → Option String
  | some (0x21 :: name) => (Text.Utf8.decode? name).map String.ofList
  | _ => none

/-- A word may also be given as the tag of an empty value. -/
def word? : Node → Option String
  | .scalar tag style text =>
    match tagName? tag with
    | some name => if style = .plain ∧ Spelling.isVoid text then some name else none
    | none => some text
  | _ => none

def count? (n : Node) : Option UInt32 := do
  let v ← Spelling.natural? (← bare? "int" n)
  if v < 4294967296 then some (UInt32.ofNat v) else none

def isAbsent : Node → Bool
  | .scalar _ .plain text => text.isEmpty
  | _ => false

def items? : Node → Option (List Node)
  | .list items => some items
  | n => if isAbsent n then some [] else none

def entries? : Node → Option (List (Node × Node))
  | .table entries => some entries
  | n => if isAbsent n then some [] else none

def format (d : Document) : DocumentFormat Node where
  entered := d.entered
  isUnset := fun n => unset? n
  text := fun n => do text? (← d.entered n)
  word := fun n => do word? (← d.entered n)
  flag := fun n => do (bare? "bool" (← d.entered n)).bind Spelling.flag?
  count := fun n => do count? (← d.entered n)
  items := fun n => do items? (← d.entered n)
  fields := fun n => do
    (← entries? (← d.entered n)).mapM fun (k, v) => do return (← text? (← d.entered k), v)
  recordsInLists := false

/-- A reading may follow so many references for each part of the document. -/
def referencesPerPart : Nat := 100

end Document

def read? {α : Type} (reader : {ν : Type} → DocumentFormat ν → ν → DocumentFormat.Reading α)
    (text : String) : Option α := do
  let d ← Document.parse? text
  (reader d.format d.root).finish? (Document.referencesPerPart * d.root.parts)

end PluginGuard.Yaml
