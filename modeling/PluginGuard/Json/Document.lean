import PluginGuard.Config.Document
import PluginGuard.Json.Parse
import PluginGuard.Text.Numeral

/-!
# JSON as a document format

Every kind of field has a kind of value of its own; nothing is converted.
-/
namespace PluginGuard.Json

def isUnset : Json → Bool
  | .null => true
  | _ => false

def text? : Json → Option String
  | .text s => some s
  | _ => none

def word? : Json → Option String
  | .text s => some s
  | .object [(name, .null)] => some name
  | _ => none

def flag? : Json → Option Bool
  | .bool b => some b
  | _ => none

/-- A number that is spelled as digits only. -/
def natural? : Json → Option Nat
  | .number lexeme => Text.Numeral.digits? lexeme.toList
  | _ => none

def count? (j : Json) : Option UInt32 :=
  match j.natural? with
  | some n => if n < 4294967296 then some (UInt32.ofNat n) else none
  | none => none

def items? : Json → Option (List Json)
  | .array items => some items
  | _ => none

def fields? : Json → Option (List (String × Json))
  | .object fields => some fields
  | _ => none

def format : DocumentFormat Json where
  entered := pure
  isUnset := fun j => return j.isUnset
  text := fun j => j.text?
  word := fun j => j.word?
  flag := fun j => j.flag?
  count := fun j => j.count?
  items := fun j => j.items?
  fields := fun j => j.fields?
  recordsInLists := true

def read? {α : Type} (j : Json) (reader : DocumentFormat Json → Json → DocumentFormat.Reading α) :
    Option α :=
  (reader format j).finish? 0

end PluginGuard.Json

namespace PluginGuard.RawJson

def isUnset : RawJson → Bool
  | .null => true
  | _ => false

def word? : RawJson → Option String
  | .object [(name, .null)] => decode? name
  | r => r.scalar?.bind Json.text?

def items? : RawJson → Option (List RawJson)
  | .array items => some items
  | _ => none

def fields? : RawJson → Option (List (String × RawJson))
  | .object fields => fields.mapM fun (k, r) => (decode? k).map fun k => (k, r)
  | _ => none

/-- Like values that are decoded, save that only what is asked for is decoded. -/
def format : DocumentFormat RawJson where
  entered := pure
  isUnset := fun r => return r.isUnset
  text := fun r => r.scalar?.bind Json.text?
  word := fun r => r.word?
  flag := fun r => r.scalar?.bind Json.flag?
  count := fun r => r.scalar?.bind Json.count?
  items := fun r => r.items?
  fields := fun r => r.fields?
  recordsInLists := true

def read? {α : Type} (r : RawJson)
    (reader : DocumentFormat RawJson → RawJson → DocumentFormat.Reading α) : Option α :=
  (reader format r).finish? 0

end PluginGuard.RawJson
