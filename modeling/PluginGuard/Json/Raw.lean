import PluginGuard.Json.Number
import PluginGuard.Json.Value
import PluginGuard.Text.Utf8

/-!
# JSON as it is spelled

A value whose texts are still the bytes between their quotes, each as the
character of its number. What nobody asks for is never decoded, so a text that
stands for nothing does no harm there.
-/
namespace PluginGuard

inductive RawJson
  | null
  | bool (b : Bool)
  | number (lexeme : String)
  | text (spelling : List Char)
  | array (items : List RawJson)
  | object (fields : List (List Char × RawJson))
  deriving Repr

namespace RawJson

/-! ### Texts -/

def byteOf (c : Char) : UInt8 := UInt8.ofNat c.toNat

def unit? (cs : List Char) : Option (Nat × List Char) :=
  match cs with
  | a :: b :: c :: d :: rest => do
    let w ← Text.Hex.value? a
    let x ← Text.Hex.value? b
    let y ← Text.Hex.value? c
    let z ← Text.Hex.value? d
    return (((w * 16 + x) * 16 + y) * 16 + z, rest)
  | _ => none

/-- The character of a unit escape; a high surrogate needs its low partner. -/
def unicode? (cs : List Char) : Option (Char × List Char) := do
  let (u, rest) ← unit? cs
  if 0xDC00 ≤ u && u ≤ 0xDFFF then none
  else if 0xD800 ≤ u && u ≤ 0xDBFF then
    match rest with
    | '\\' :: 'u' :: rest => do
      let (v, rest) ← unit? rest
      if 0xDC00 ≤ v && v ≤ 0xDFFF then
        return (Char.ofNat (0x10000 + (u - 0xD800) * 1024 + (v - 0xDC00)), rest)
      else none
    | _ => none
  else return (Char.ofNat u, rest)

def short? (c : Char) : Option UInt8 :=
  match c with
  | '"' => some 0x22
  | '\\' => some 0x5C
  | '/' => some 0x2F
  | 'b' => some 8
  | 'f' => some 12
  | 'n' => some 10
  | 'r' => some 13
  | 't' => some 9
  | _ => none

def bytesInto : Nat → List UInt8 → List Char → Option (List UInt8)
  | 0, _, _ => none
  | fuel + 1, acc, cs =>
    match cs with
    | [] => some acc.reverse
    | '\\' :: 'u' :: rest =>
      match unicode? rest with
      | some (c, rest) => bytesInto fuel ((Text.Utf8.encodeChar c).reverse ++ acc) rest
      | none => none
    | '\\' :: c :: rest =>
      match short? c with
      | some b => bytesInto fuel (b :: acc) rest
      | none => none
    | c :: rest => bytesInto fuel (byteOf c :: acc) rest

def decode? (spelling : List Char) : Option String := do
  let bytes ← bytesInto (spelling.length + 1) [] spelling
  return String.ofList (← Text.Utf8.decode? bytes)

/-! ### Values -/

mutual

def json? : RawJson → Option Json
  | .null => some .null
  | .bool b => some (.bool b)
  | .number lexeme => (Json.Number.written? lexeme).map .number
  | .text spelling => (decode? spelling).map .text
  | .array items => (itemsOf? items).map .array
  | .object fields => (fieldsOf? fields).map .object

def itemsOf? : List RawJson → Option (List Json)
  | [] => some []
  | r :: rs => do return (← json? r) :: (← itemsOf? rs)

def fieldsOf? : List (List Char × RawJson) → Option (List (String × Json))
  | [] => some []
  | (k, r) :: fs => do return (← decode? k, ← json? r) :: (← fieldsOf? fs)

end

def scalar? : RawJson → Option Json
  | .array _ => none
  | .object _ => none
  | r => r.json?

end RawJson

end PluginGuard
