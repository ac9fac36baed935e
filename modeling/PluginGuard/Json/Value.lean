import PluginGuard.Text.Numeral

/-!
# JSON values

Values with their fields in written order and numbers as they are spelled, and
how a value is written in lines with two blanks for each level.
-/
namespace PluginGuard

inductive Json
  | null
  | bool (b : Bool)
  | number (lexeme : String)
  | text (s : String)
  | array (items : List Json)
  | object (fields : List (String × Json))
  deriving Repr, Inhabited

namespace Json

def ofNat (n : Nat) : Json := .number (toString n)

def ofInt (n : Int) : Json := .number (toString n)

def ofNats (ns : List Nat) : Json := .array (ns.map ofNat)

def ofOption (o : Option Json) : Json := o.getD .null

def field? (key : String) : Json → Option Json
  | .object fields => (fields.find? (·.1 == key)).map (·.2)
  | _ => none

def without (keys : List String) : Json → Json
  | .object fields => .object (fields.filter fun f => !keys.contains f.1)
  | j => j

mutual

def depth : Json → Nat
  | .array items => depthOfItems items + 1
  | .object fields => depthOfFields fields + 1
  | _ => 0

def depthOfItems : List Json → Nat
  | [] => 0
  | j :: rest => max (depth j) (depthOfItems rest)

def depthOfFields : List (String × Json) → Nat
  | [] => 0
  | (_, j) :: rest => max (depth j) (depthOfFields rest)

end

/-! ### Writing -/

def escape (c : Char) : List Char :=
  match c with
  | '"' => ['\\', '"']
  | '\\' => ['\\', '\\']
  | '\n' => ['\\', 'n']
  | '\r' => ['\\', 'r']
  | '\t' => ['\\', 't']
  | '\x08' => ['\\', 'b']
  | '\x0c' => ['\\', 'f']
  | c => if c.toNat < 32 then '\\' :: 'u' :: (Text.Hex.padded 4 c.toNat).toList else [c]

def quoted (s : String) : String := String.ofList ('"' :: s.toList.flatMap escape ++ ['"'])

def lineBreak (level : Nat) : String := "\n" ++ String.ofList (List.replicate (2 * level) ' ')

def bracketed (opening closing : String) (level : Nat) (parts : List String) : String :=
  if parts.isEmpty then opening ++ closing
  else opening ++ ",".intercalate (parts.map (lineBreak (level + 1) ++ ·)) ++ lineBreak level ++
    closing

mutual

def render (level : Nat) : Json → String
  | .null => "null"
  | .bool true => "true"
  | .bool false => "false"
  | .number lexeme => lexeme
  | .text s => quoted s
  | .array items => bracketed "[" "]" level (renderItems (level + 1) items)
  | .object fields => bracketed "\x7b" "\x7d" level (renderFields (level + 1) fields)

def renderItems (level : Nat) : List Json → List String
  | [] => []
  | j :: js => render level j :: renderItems level js

def renderFields (level : Nat) : List (String × Json) → List String
  | [] => []
  | (k, j) :: fs => (quoted k ++ ": " ++ render level j) :: renderFields level fs

end

def pretty (j : Json) : String := render 0 j

mutual

def compact : Json → String
  | .null => "null"
  | .bool true => "true"
  | .bool false => "false"
  | .number lexeme => lexeme
  | .text s => quoted s
  | .array items => "[" ++ ",".intercalate (compactItems items) ++ "]"
  | .object fields => "\x7b" ++ ",".intercalate (compactFields fields) ++ "\x7d"

def compactItems : List Json → List String
  | [] => []
  | j :: js => compact j :: compactItems js

def compactFields : List (String × Json) → List String
  | [] => []
  | (k, j) :: fs => (quoted k ++ ":" ++ compact j) :: compactFields fs

end

end Json

end PluginGuard
