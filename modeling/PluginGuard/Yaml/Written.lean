import PluginGuard.Json.Value
import PluginGuard.Text.Numeral

/-!
# Written documents

The text of a value as a document: tables and lists in blocks, a line for each
entry, and every text between double quotes. A long key gets a line of its own.
-/
namespace PluginGuard.Yaml.Written

def needsEscape (c : Char) : Bool :=
  let n := c.toNat
  n < 0x20 || (0x7F ≤ n && n < 0xA0) || n == 0x2028 || n == 0x2029 || n == 0xFEFF ||
    n == 0xFFFE || n == 0xFFFF

def escaped (c : Char) : List Char :=
  if c == '"' || c == '\\' then ['\\', c]
  else if needsEscape c then '\\' :: 'u' :: (Text.Hex.padded 4 c.toNat).toList
  else [c]

def quoted (s : String) : String :=
  String.ofList ('"' :: s.toList.flatMap escaped ++ ['"'])

def longestKey : Nat := 128

def inline? : Json → Option String
  | .array [] => some "[]"
  | .object [] => some "\x7b\x7d"
  | .array _ => none
  | .object _ => none
  | .text s => some (quoted s)
  | .number n => some n
  | .bool b => some (if b then "true" else "false")
  | .null => some "null"

def indented (line : String) : String := "  " ++ line

def placed (lead : String) (inline : Option String) (lines : List String) : List String :=
  match inline with
  | some text => [lead ++ " " ++ text]
  | none => lead :: lines.map indented

def pairLines (key : String) (inline : Option String) (lines : List String) : List String :=
  let k := quoted key
  if longestKey < k.length then ("? " ++ k) :: placed ":" inline lines
  else placed (k ++ ":") inline lines

mutual

def lines : Json → List String
  | .object fields => fieldLines fields
  | .array items => itemLines items
  | _ => []

def fieldLines : List (String × Json) → List String
  | [] => []
  | (key, v) :: fields => pairLines key (inline? v) (lines v) ++ fieldLines fields

def itemLines : List Json → List String
  | [] => []
  | v :: items => placed "-" (inline? v) (lines v) ++ itemLines items

end

def document (j : Json) : String :=
  let ls := match inline? j with
    | some text => [text]
    | none => lines j
  String.join (ls.map (· ++ "\n"))

end PluginGuard.Yaml.Written
