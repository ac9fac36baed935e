import PluginGuard.Json.Value
import PluginGuard.Text.Numeral

/-!
# Fields of a value

What a value holds, with a plain answer where it holds nothing of the kind: the
empty text, zero, the empty list. A field that is null counts as absent.
-/
namespace PluginGuard.Json

def present? (j : Json) (key : String) : Option Json :=
  match j.field? key with
  | some .null => none
  | v => v

def get (j : Json) (key : String) : Json := (j.present? key).getD .null

def asText : Json → String
  | .text s => s
  | _ => ""

def asInt : Json → Int
  | .number lexeme =>
    let whole := lexeme.toList.takeWhile fun c => Text.Ascii.isDigit c || c == '-'
    (Text.Numeral.integer? whole).getD 0
  | _ => 0

def asNat (j : Json) : Nat := j.asInt.toNat

def asBool : Json → Bool
  | .bool b => b
  | _ => false

def asList : Json → List Json
  | .array items => items
  | _ => []

def item (j : Json) (index : Nat) : Json := j.asList.getD index .null

def textAt (j : Json) (key : String) : String := (j.get key).asText

def natAt (j : Json) (key : String) : Nat := (j.get key).asNat

def boolAt (j : Json) (key : String) : Bool := (j.get key).asBool

def listAt (j : Json) (key : String) : List Json := (j.get key).asList

def textsAt (j : Json) (key : String) : List String := (j.listAt key).map asText

def textAt? (j : Json) (key : String) : Option String := (j.present? key).map asText

end PluginGuard.Json
