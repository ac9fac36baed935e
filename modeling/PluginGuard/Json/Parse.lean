import PluginGuard.Json.Raw
import PluginGuard.Text.Character

/-!
# Reading JSON

A value of the standard grammar, with nothing but blanks around it, read from
bytes as the characters of their numbers. Each reader gives what it read and the
rest; readers that call one another take a number of steps that the length of the
text bounds.
-/
namespace PluginGuard

namespace Json.Grammar

abbrev Rest := List Char

def isSpace (c : Char) : Bool := c == ' ' || c == '\n' || c == '\t' || c == '\r'

def skipSpace (cs : Rest) : Rest := cs.dropWhile isSpace

/-! ### Numbers -/

def digits? (cs : Rest) : Option (List Char × Rest) :=
  match cs.takeWhile Text.Ascii.isDigit with
  | [] => none
  | ds => some (ds, cs.dropWhile Text.Ascii.isDigit)

/-- No zero stands in front of other digits. -/
def whole? (cs : Rest) : Option (List Char × Rest) :=
  match cs with
  | '0' :: rest =>
    match rest with
    | c :: _ => if Text.Ascii.isDigit c then none else some (['0'], rest)
    | [] => some (['0'], rest)
  | _ => digits? cs

def fraction? (cs : Rest) : Option (List Char × Rest) :=
  match cs with
  | '.' :: rest => (digits? rest).map fun (ds, r) => ('.' :: ds, r)
  | _ => some ([], cs)

def exponent? (cs : Rest) : Option (List Char × Rest) :=
  match cs with
  | e :: rest =>
    if e == 'e' || e == 'E' then
      match rest with
      | '+' :: r => (digits? r).map fun (ds, r') => (e :: '+' :: ds, r')
      | '-' :: r => (digits? r).map fun (ds, r') => (e :: '-' :: ds, r')
      | r => (digits? r).map fun (ds, r') => (e :: ds, r')
    else some ([], cs)
  | [] => some ([], cs)

def number? (cs : Rest) : Option (String × Rest) := do
  let (sign, cs) := match cs with
    | '-' :: rest => (['-'], rest)
    | _ => ([], cs)
  let (w, cs) ← whole? cs
  let (f, cs) ← fraction? cs
  let (e, cs) ← exponent? cs
  return (String.ofList (sign ++ w ++ f ++ e), cs)

/-! ### Texts -/

def escape? (cs : Rest) : Option (List Char × Rest) :=
  match cs with
  | 'u' :: rest => (RawJson.unit? rest).map fun (_, r) => ('u' :: rest.take 4, r)
  | c :: rest => if (RawJson.short? c).isSome then some ([c], rest) else none
  | [] => none

def textInto : Nat → List Char → Rest → Option (List Char × Rest)
  | 0, _, _ => none
  | fuel + 1, acc, cs =>
    match cs with
    | [] => none
    | '"' :: rest => some (acc.reverse, rest)
    | '\\' :: rest =>
      match escape? rest with
      | some (e, rest) => textInto fuel (e.reverse ++ '\\' :: acc) rest
      | none => none
    | c :: rest => if c.toNat < 32 then none else textInto fuel (c :: acc) rest

def literal? (word : String) (value : RawJson) (cs : Rest) : Option (RawJson × Rest) :=
  let w := word.toList
  if w.isPrefixOf cs then some (value, cs.drop w.length) else none

/-! ### Values -/

mutual

def value? (fuel : Nat) (cs : Rest) : Option (RawJson × Rest) :=
  match fuel with
  | 0 => none
  | n + 1 =>
    match skipSpace cs with
    | 'n' :: rest => literal? "null" .null ('n' :: rest)
    | 't' :: rest => literal? "true" (.bool true) ('t' :: rest)
    | 'f' :: rest => literal? "false" (.bool false) ('f' :: rest)
    | '"' :: rest => (textInto n [] rest).map fun (s, r) => (.text s, r)
    | '[' :: rest =>
      match skipSpace rest with
      | ']' :: r => some (.array [], r)
      | r => items? n [] r
    | '\x7b' :: rest =>
      match skipSpace rest with
      | '\x7d' :: r => some (.object [], r)
      | r => fields? n [] r
    | r => (number? r).map fun (s, r') => (.number s, r')

def items? (fuel : Nat) (acc : List RawJson) (cs : Rest) : Option (RawJson × Rest) :=
  match fuel with
  | 0 => none
  | n + 1 =>
    match value? n cs with
    | none => none
    | some (v, rest) =>
      match skipSpace rest with
      | ',' :: r => items? n (v :: acc) r
      | ']' :: r => some (.array (v :: acc).reverse, r)
      | _ => none

def fields? (fuel : Nat) (acc : List (List Char × RawJson)) (cs : Rest) : Option (RawJson × Rest) :=
  match fuel with
  | 0 => none
  | n + 1 =>
    match skipSpace cs with
    | '"' :: rest =>
      match textInto n [] rest with
      | none => none
      | some (key, rest) =>
        match skipSpace rest with
        | ':' :: r =>
          match value? n r with
          | none => none
          | some (v, rest) =>
            match skipSpace rest with
            | ',' :: r => fields? n ((key, v) :: acc) r
            | '\x7d' :: r => some (.object ((key, v) :: acc).reverse, r)
            | _ => none
        | _ => none
    | _ => none

end

def parse? (cs : Rest) : Option RawJson :=
  match value? (2 * cs.length + 1) cs with
  | some (v, rest) => if (skipSpace rest).isEmpty then some v else none
  | none => none

end Json.Grammar

def RawJson.parse? (bytes : List UInt8) : Option RawJson :=
  Json.Grammar.parse? (bytes.map fun b => Char.ofNat b.toNat)

/-- How deep a value may be nested. -/
def Json.depthLimit : Nat := 127

def Json.parse? (bytes : List UInt8) : Option Json := do
  let j ← (← RawJson.parse? bytes).json?
  if j.depth ≤ depthLimit then some j else none

end PluginGuard
