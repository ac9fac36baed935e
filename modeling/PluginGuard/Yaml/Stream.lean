import PluginGuard.Yaml.Token

/-!
# The tokens of a text

Structure that the text only implies gets tokens of its own: a deeper column
opens a sequence or a mapping and a smaller one closes it, and what turns out to
stand before a colon gets a key token put in front of it. Such a key lies on one
line and is at most 1024 bytes long.
-/
namespace PluginGuard.Yaml

/-- A place that becomes a key if a colon follows on its line. -/
structure PossibleKey where
  /-- How many tokens stand before it. -/
  number : Nat
  index : Nat
  line : Nat
  column : Nat
  /-- Nothing but a key can stand at this column. -/
  required : Bool

structure Scan where
  place : Place
  /-- Newest first. -/
  tokens : List Token
  count : Nat
  /-- Columns of the open blocks, innermost first. -/
  columns : List Nat
  /-- The possible key of the current collection. -/
  key : Option PossibleKey
  /-- Those of the flow collections around it, and of the block around them. -/
  outer : List (Option PossibleKey)
  keyAllowed : Bool

namespace Scan

def start (cs : List Char) : Scan := ⟨.start cs, [], 0, [], none, [], true⟩

def inFlow (s : Scan) : Bool := !s.outer.isEmpty

def emit (s : Scan) (t : Token) : Scan :=
  { s with tokens := t :: s.tokens, count := s.count + 1 }

/-- Puts tokens in where only `number` tokens stand before them. -/
def emitAt (s : Scan) (number : Nat) (ts : List Token) : Scan :=
  let (newer, older) := s.tokens.splitAt (s.count - number)
  { s with tokens := newer ++ (ts.reverse ++ older), count := s.count + ts.length }

def isDeeper (s : Scan) (column : Nat) : Bool :=
  !s.inFlow && match s.columns.head? with
    | some c => decide (c < column)
    | none => true

def openBlock (s : Scan) (t : Token) : Scan :=
  let column := s.place.column
  if s.isDeeper column then { s.emit t with columns := column :: s.columns } else s

def closeBlocks (s : Scan) (keep : Nat → Bool) : Scan :=
  if s.inFlow then s
  else
    let closed := s.columns.takeWhile (!keep ·)
    { s with
      tokens := closed.map (fun _ => Token.blockEnd) ++ s.tokens
      count := s.count + closed.length
      columns := s.columns.drop closed.length }

def dropKey? (s : Scan) : Option Scan :=
  match s.key with
  | some k => if k.required then none else some { s with key := none }
  | none => some s

def noteKey? (s : Scan) : Option Scan :=
  if s.keyAllowed then do
    let p := s.place
    let required := !s.inFlow && s.columns.head? == some p.column
    let s ← s.dropKey?
    return { s with key := some ⟨s.count, p.index, p.line, p.column, required⟩ }
  else some s

def isStale (p : Place) (k : PossibleKey) : Bool := k.line < p.line || k.index + 1024 < p.index

/-- Forgets a key that the text has gone too far beyond. Those around the current
collection are looked at when it is closed. -/
def forgetStale? (s : Scan) : Option Scan :=
  match s.key with
  | some k => if isStale s.place k then s.dropKey? else some s
  | none => some s

/-- Past gaps, comments and breaks. A tab may not stand where a key may start. -/
def toToken (fuel : Nat) (s : Scan) : Scan :=
  match fuel with
  | 0 => s
  | fuel + 1 =>
    let p := s.place
    let p := if p.column == 0 && p.rest.head? == some '\ufeff' then p.skip else p
    let p := p.skipWhile fun c => c == ' ' || (c == '\t' && (s.inFlow || !s.keyAllowed))
    let p := if p.rest.head? == some '#' then p.skipLine else p
    if !p.rest.isEmpty && atBreak p.rest then
      toToken fuel { s with place := p.skipBreak, keyAllowed := s.keyAllowed || !s.inFlow }
    else { s with place := p }

/-! ### One token -/

def skip (s : Scan) (n : Nat) : Scan := { s with place := s.place.skips n }

def outside? (s : Scan) : Option Scan := do
  let s ← (s.closeBlocks fun _ => false).dropKey?
  return { s with keyAllowed := false }

def marker? (s : Scan) (t : Token) : Option Scan := do
  return ((← s.outside?).emit t).skip 3

def directive? (s : Scan) : Option Scan := do
  let s ← s.outside?
  let (t, p) ← Token.directive? s.place
  return { s.emit t with place := p }

def openFlow? (s : Scan) (t : Token) : Option Scan := do
  let s ← s.noteKey?
  return ({ s.emit t with key := none, outer := s.key :: s.outer, keyAllowed := true }).skip 1

def closeFlow? (s : Scan) (t : Token) : Option Scan := do
  let s ← s.dropKey?
  let s := match s.outer with
    | k :: ks => { s with key := k, outer := ks }
    | [] => s
  return ({ s.emit t with keyAllowed := false }).skip 1

def comma? (s : Scan) : Option Scan := do
  let s ← s.dropKey?
  return ({ s.emit .comma with keyAllowed := true }).skip 1

def dash? (s : Scan) : Option Scan := do
  if !s.inFlow && !s.keyAllowed then none
  let s ← (s.openBlock .sequenceStart).dropKey?
  return ({ s.emit .dash with keyAllowed := true }).skip 1

def key? (s : Scan) : Option Scan := do
  if !s.inFlow && !s.keyAllowed then none
  let s ← (s.openBlock .mappingStart).dropKey?
  return ({ s.emit .key with keyAllowed := !s.inFlow }).skip 1

def value? (s : Scan) : Option Scan :=
  match s.key with
  | some k =>
    let opened := s.isDeeper k.column
    let s := s.emitAt k.number (if opened then [.mappingStart, .key] else [.key])
    let s := if opened then { s with columns := k.column :: s.columns } else s
    some (({ s.emit .value with key := none, keyAllowed := false }).skip 1)
  | none =>
    if !s.inFlow && !s.keyAllowed then none
    else
      let s := s.openBlock .mappingStart
      some (({ s.emit .value with keyAllowed := !s.inFlow }).skip 1)

def content? (s : Scan) (read : Place → Option (Token × Place)) : Option Scan := do
  let s ← s.noteKey?
  let (t, p) ← read s.place
  return { s.emit t with place := p, keyAllowed := false }

def block? (s : Scan) (style : Style) : Option Scan := do
  let s ← s.dropKey?
  let (text, p) ← Block.scan (style == .literal) s.columns.head? s.place.skip
  return { s.emit (.scalar style text) with place := p, keyAllowed := true }

def quoted? (s : Scan) (quote : Char) : Option Scan :=
  s.content? fun p =>
    (Quoted.scan quote p.room [] p.skip).map fun (t, p) => (.scalar .quoted t, p)

def plain? (s : Scan) : Option Scan := do
  let s ← s.noteKey?
  let indent := match s.columns.head? with
    | some c => c + 1
    | none => 0
  let w ← Plain.scan s.inFlow indent s.place.room [] .none s.place
  return { s.emit (.scalar .plain w.text) with place := w.place, keyAllowed := w.lineEnded }

/-- Plain text cannot start with an indicator, save three of them that touch what
follows. -/
def startsPlain (inFlow : Bool) (c : Char) (rest : List Char) : Bool :=
  !(isGap c || "-?:,[]\x7b\x7d#&*!|>'\"%@\x60".toList.contains c) ||
    (c == '-' && !(rest.head?.map isGap).getD false) ||
    (!inFlow && (c == '?' || c == ':') && !atGap rest)

def named? (s : Scan) (make : String → Token) : Option Scan :=
  s.content? fun p => (Token.name? p.skip).map fun (n, p) => (make n, p)

def token? (s : Scan) (c : Char) (rest : List Char) : Option Scan :=
  let indicates := s.inFlow || atGap rest
  if s.place.column == 0 && c == '%' then s.directive?
  else if s.place.atMarker then s.marker? (if c == '-' then .documentStart else .documentEnd)
  else
    match c with
    | '[' => s.openFlow? .listOpen
    | '\x7b' => s.openFlow? .tableOpen
    | ']' => s.closeFlow? .listClose
    | '\x7d' => s.closeFlow? .tableClose
    | ',' => s.comma?
    | '*' => s.named? .alias
    | '&' => s.named? .anchor
    | '!' => s.content? (Token.tag? s.inFlow)
    | '\'' => s.quoted? '\''
    | '"' => s.quoted? '"'
    | c =>
      if c == '-' && atGap rest then s.dash?
      else if c == '?' && indicates then s.key?
      else if c == ':' && indicates then s.value?
      else if c == '|' && !s.inFlow then s.block? .literal
      else if c == '>' && !s.inFlow then s.block? .folded
      else if startsPlain s.inFlow c rest then s.plain?
      else none

def finish? (s : Scan) : Option (List Token) := do
  let s ← (s.closeBlocks fun _ => false).dropKey?
  return s.tokens.reverse

def run : Nat → Scan → Option (List Token)
  | 0, _ => none
  | fuel + 1, s => do
    let s ← (s.toToken s.place.room).forgetStale?
    let s := s.closeBlocks (· ≤ s.place.column)
    match s.place.rest with
    | [] => s.finish?
    | c :: rest => run fuel (← s.token? c rest)

end Scan

def tokens? (text : String) : Option (List Token) :=
  let cs := match text.toList with
    | '\ufeff' :: cs => cs
    | cs => cs
  if cs.all isAllowed then (Scan.start cs).run (cs.length + 1) else none

end PluginGuard.Yaml
