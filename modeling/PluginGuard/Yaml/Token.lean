import PluginGuard.Text.Utf8
import PluginGuard.Yaml.Scalar

/-!
# Tokens of a document

What a document consists of before it has a structure: indicators, names, tags
and scalars. Directives stand in front of a document.
-/
namespace PluginGuard.Yaml

inductive Style
  | plain
  | quoted
  | literal
  | folded
  deriving DecidableEq, Repr

abbrev Tag := List UInt8

inductive Token
  | version (major minor : Nat)
  | tagShort (handle : String) (meaning : Tag)
  | documentStart
  | documentEnd
  | sequenceStart
  | mappingStart
  /-- The end of a sequence or mapping in a block. -/
  | blockEnd
  | listOpen
  | listClose
  | tableOpen
  | tableClose
  | dash
  | comma
  | key
  | value
  | alias (name : String)
  | anchor (name : String)
  /-- No handle means that the suffix is the tag. -/
  | tag (handle : String) (suffix : Tag)
  | scalar (style : Style) (text : String)
  deriving DecidableEq, Repr

namespace Token

/-! ### Names and tags -/

def name? (p : Place) : Option (String × Place) :=
  let (name, p) := p.takeWhile isNameChar
  let closed := atGap p.rest || (p.rest.head?.map ("?:,]\x7d%@\x60".toList.contains ·)).getD false
  if name.isEmpty || !closed then none else some (String.ofList name, p)

def isTagChar (verbatim : Bool) (c : Char) : Bool :=
  isNameChar c || ";/?:@&=+$.!~*'()".toList.contains c || (verbatim && ",[]".toList.contains c)

def coded? (cs : List Char) : Option UInt8 :=
  match cs with
  | '%' :: a :: b :: _ => do
    let x ← Text.Hex.value? a
    let y ← Text.Hex.value? b
    return UInt8.ofNat (x * 16 + y)
  | _ => none

def width? (b : UInt8) : Option Nat :=
  if b &&& 0x80 == 0 then some 1
  else if b &&& 0xE0 == 0xC0 then some 2
  else if b &&& 0xF0 == 0xE0 then some 3
  else if b &&& 0xF8 == 0xF0 then some 4
  else none

def isTrailing (b : UInt8) : Bool := b &&& 0xC0 == 0x80

/-- Bytes that are spelled one by one, as many as the first of them calls for. -/
def codedBytes? (cs : List Char) : Option (List UInt8) := do
  let lead ← coded? cs
  let trail ← (List.range ((← width? lead) - 1)).mapM fun k => coded? (cs.drop (3 * k + 3))
  if trail.all isTrailing then return lead :: trail else none

def tagBytes (verbatim : Bool) : Nat → List UInt8 → Place → Option (List UInt8 × Place)
  | 0, _, _ => none
  | fuel + 1, acc, p =>
    match p.rest with
    | '%' :: _ => do
      let bs ← codedBytes? p.rest
      tagBytes verbatim fuel (bs.reverse ++ acc) (p.skips (3 * bs.length))
    | c :: _ =>
      if isTagChar verbatim c then tagBytes verbatim fuel (UInt8.ofNat c.toNat :: acc) p.skip
      else some (acc, p)
    | [] => some (acc, p)

/-- A tag ends before a byte that is zero, however much more is spelled. -/
def tagText? (verbatim : Bool) (p : Place) : Option (Tag × Place) :=
  (tagBytes verbatim p.room [] p).map fun (bs, p) => (bs.reverse.takeWhile (· != 0), p)

/-- A handle is a name between exclamation marks; the last mark may be missing. -/
def handle (p : Place) : List Char × Bool × Place :=
  let (name, p) := p.skip.takeWhile isNameChar
  if p.rest.head? == some '!' then (name, true, p.skip) else (name, false, p)

def anyTag : Tag := [0x21]

def tag? (inFlow : Bool) (p : Place) : Option (Token × Place) := do
  let (token, p) ←
    if p.starts "!<" then do
      let start := p.skips 2
      let (suffix, p) ← tagText? true start
      if p.index = start.index || p.rest.head? != some '>' then none
      else some (Token.tag "" suffix, p.skip)
    else do
      let (name, closed, start) := handle p
      let (suffix, p) ← tagText? false start
      if closed then
        if p.index = start.index then none
        else some (Token.tag (String.ofList ('!' :: name ++ ['!'])) suffix, p)
      else
        let suffix := Text.Utf8.encode (String.ofList name) ++ suffix
        some (if suffix.isEmpty then Token.tag "" anyTag else Token.tag "!" suffix, p)
  if atGap p.rest || (inFlow && p.rest.head? == some ',') then some (token, p) else none

/-! ### Directives -/

def number? (p : Place) : Option (Nat × Place) :=
  let (ds, p) := p.takeWhile Char.isDigit
  if ds.isEmpty || 9 < ds.length then none
  else some (ds.foldl (fun n d => n * 10 + (d.toNat - 48)) 0, p)

def versionOf? (p : Place) : Option (Token × Place) := do
  let (major, p) ← number? (p.skipWhile isGap)
  if p.rest.head? != some '.' then none
  let (minor, p) ← number? p.skip
  return (.version major minor, p)

def tagShortOf? (p : Place) : Option (Token × Place) := do
  let p := p.skipWhile isGap
  if p.rest.head? != some '!' then none
  let (name, closed, p) := handle p
  if !closed && !name.isEmpty then none
  if !(p.rest.head?.map isGap).getD false then none
  let start := p.skipWhile isGap
  let (meaning, p) ← tagText? true start
  if p.index = start.index || !atGap p.rest then none
  let short := '!' :: name ++ (if closed then ['!'] else [])
  return (.tagShort (String.ofList short) meaning, p)

def directive? (p : Place) : Option (Token × Place) := do
  let (name, p) := p.skip.takeWhile isNameChar
  if name.isEmpty || !atGap p.rest then none
  let (token, p) ←
    if name = "YAML".toList then versionOf? p
    else if name = "TAG".toList then tagShortOf? p
    else none
  return (token, ← Block.endLine? p)

end Token

end PluginGuard.Yaml
