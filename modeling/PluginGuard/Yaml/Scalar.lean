import PluginGuard.Text.Numeral
import PluginGuard.Yaml.Place

/-!
# Scalars

Plain text, text in quotes and text in a block. A single break between two lines
is folded into a space; further breaks are kept. Each reader gives the text and
the place after it.
-/
namespace PluginGuard.Yaml

/-- Breaks that were passed: the first one, then the others. -/
structure Breaks where
  first : List Char
  others : List Char

namespace Breaks

def none : Breaks := ⟨[], []⟩

def folded (b : Breaks) : List Char :=
  if b.first = ['\n'] then (if b.others.isEmpty then [' '] else b.others)
  else b.first ++ b.others

end Breaks

structure Spacing where
  gaps : List Char
  breaks : Option Breaks

namespace Spacing

def none : Spacing := ⟨[], .none⟩

def folded (s : Spacing) : List Char :=
  match s.breaks with
  | some b => b.folded
  | Option.none => s.gaps

def gap (s : Spacing) (c : Char) : Spacing :=
  match s.breaks with
  | some _ => s
  | Option.none => { s with gaps := s.gaps ++ [c] }

def lineBreak (s : Spacing) (b : List Char) : Spacing :=
  match s.breaks with
  | some bs => { s with breaks := some { bs with others := bs.others ++ b } }
  | Option.none => ⟨[], some ⟨b, []⟩⟩

end Spacing

/-- Gaps and breaks up to the next word; `allowed` says where a gap may stand
once a line has ended. -/
def spacing (allowed : Place → Bool) : Nat → Spacing → Place → Option (Spacing × Place)
  | 0, _, _ => none
  | fuel + 1, s, p =>
    match p.rest with
    | [] => some (s, p)
    | c :: _ =>
      if isGap c then
        if s.breaks.isSome && !allowed p then none else spacing allowed fuel (s.gap c) p.skip
      else if isBreak c then
        let (b, p') := p.takeBreak
        spacing allowed fuel (s.lineBreak b) p'
      else some (s, p)

/-! ### Quoted text -/

namespace Quoted

def hexDigits? (n : Nat) (cs : List Char) : Option Nat :=
  let ds := cs.take n
  if ds.length = n then
    ds.foldlM (fun v d => (Text.Hex.value? d).map fun x => v * 16 + x) 0
  else none

def codePoint? (n : Nat) : Option Char :=
  if n < 0xD800 ∨ (0xE000 ≤ n ∧ n < 0x110000) then some (Char.ofNat n) else none

def escaped? (cs : List Char) : Option (Char × Nat) :=
  let coded := fun n => ((hexDigits? n (cs.drop 1)).bind codePoint?).map fun c => (c, n + 1)
  match cs with
  | '0' :: _ => some ('\x00', 1)
  | 'a' :: _ => some ('\x07', 1)
  | 'b' :: _ => some ('\x08', 1)
  | 't' :: _ => some ('\t', 1)
  | '\t' :: _ => some ('\t', 1)
  | 'n' :: _ => some ('\n', 1)
  | 'v' :: _ => some ('\x0b', 1)
  | 'f' :: _ => some ('\x0c', 1)
  | 'r' :: _ => some ('\r', 1)
  | 'e' :: _ => some ('\x1b', 1)
  | ' ' :: _ => some (' ', 1)
  | '"' :: _ => some ('"', 1)
  | '/' :: _ => some ('/', 1)
  | '\\' :: _ => some ('\\', 1)
  | 'N' :: _ => some ('\x85', 1)
  | '_' :: _ => some ('\xa0', 1)
  | 'L' :: _ => some ('\u2028', 1)
  | 'P' :: _ => some ('\u2029', 1)
  | 'x' :: _ => coded 2
  | 'u' :: _ => coded 4
  | 'U' :: _ => coded 8
  | _ => none

structure Word where
  text : List Char
  place : Place
  /-- A backslash ended the line. -/
  joined : Bool

def word (quote : Char) : Nat → List Char → Place → Option Word
  | 0, _, _ => none
  | fuel + 1, acc, p =>
    match p.rest with
    | [] => some ⟨acc, p, false⟩
    | c :: rest =>
      if isGap c || isBreak c then some ⟨acc, p, false⟩
      else if c == quote then
        if quote == '\'' && rest.head? == some '\'' then word quote fuel ('\'' :: acc) (p.skips 2)
        else some ⟨acc, p, false⟩
      else if quote == '"' && c == '\\' then
        match rest with
        | [] => none
        | e :: _ =>
          if isBreak e then some ⟨acc, p.skip.skipBreak, true⟩
          else
            match escaped? rest with
            | some (x, n) => word quote fuel (x :: acc) (p.skips (n + 1))
            | none => none
      else word quote fuel (c :: acc) p.skip

def scan (quote : Char) : Nat → List Char → Place → Option (String × Place)
  | 0, _, _ => none
  | fuel + 1, acc, p =>
    if p.atMarker || p.rest.isEmpty then none
    else
      match word quote p.room acc p with
      | none => none
      | some w =>
        if w.place.rest.head? == some quote then
          some (String.ofList w.text.reverse, w.place.skip)
        else
          let before : Spacing := ⟨[], if w.joined then some .none else none⟩
          match spacing (fun _ => true) w.place.room before w.place with
          | none => none
          | some (s, p') => scan quote fuel (s.folded.reverse ++ w.text) p'

end Quoted

/-! ### Plain text -/

namespace Plain

/-- In a flow collection a colon must not touch one of the flow characters. -/
def colonTouches (inFlow : Bool) (c : Char) (rest : List Char) : Bool :=
  inFlow && c == ':' && (rest.head?.map (",?[]{}".toList.contains ·)).getD false

def ends (inFlow : Bool) (c : Char) (rest : List Char) : Bool :=
  (c == ':' && atGap rest) || (inFlow && ",[]{}".toList.contains c)

def word (inFlow : Bool) : Nat → List Char → Place → Option (List Char × Place)
  | 0, _, _ => none
  | fuel + 1, acc, p =>
    match p.rest with
    | [] => some (acc, p)
    | c :: rest =>
      if isGap c || isBreak c then some (acc, p)
      else if colonTouches inFlow c rest then none
      else if ends inFlow c rest then some (acc, p)
      else word inFlow fuel (c :: acc) p.skip

structure Scanned where
  text : String
  place : Place
  /-- A line ended after the last word. -/
  lineEnded : Bool

/-- Plain text; in a block it goes on over lines that are indented to `indent`. -/
def scan (inFlow : Bool) (indent : Nat) : Nat → List Char → Spacing → Place → Option Scanned
  | 0, _, _, _ => none
  | fuel + 1, acc, before, p =>
    let done : Scanned := ⟨String.ofList acc.reverse, p, before.breaks.isSome⟩
    if p.atMarker || p.rest.head? == some '#' then some done
    else
      match word inFlow p.room [] p with
      | none => none
      | some ([], _) => some done
      | some (w, p') =>
        let acc := w ++ before.folded.reverse ++ acc
        match spacing (fun q => indent ≤ q.column || q.rest.head? != some '\t')
            p'.room .none p' with
        | none => none
        | some (s, q) =>
          if s.gaps.isEmpty && s.breaks.isNone || (!inFlow && q.column < indent) then
            some ⟨String.ofList acc.reverse, q, s.breaks.isSome⟩
          else scan inFlow indent fuel acc s q

end Plain

/-! ### Text in a block -/

namespace Block

inductive Chomping
  | strip
  | clip
  | keep
  deriving DecidableEq

structure Header where
  chomping : Chomping
  /-- How much deeper than its surroundings the text lies, where that is given. -/
  increment : Option Nat

def chomping? : Char → Option Chomping
  | '+' => some .keep
  | '-' => some .strip
  | _ => none

/-- The indicators after `|` or `>`, in either order. -/
def header? (p : Place) : Option (Header × Place) :=
  let digit? := fun c : Char => if c.isDigit then some (c.toNat - 48) else none
  let sound := fun (h : Header) q => if h.increment == some 0 then none else some (h, q)
  match p.rest with
  | a :: b :: _ =>
    match chomping? a, digit? a with
    | some ch, _ =>
      match digit? b with
      | some n => sound ⟨ch, some n⟩ (p.skips 2)
      | none => some (⟨ch, none⟩, p.skip)
    | none, some n =>
      match chomping? b with
      | some ch => sound ⟨ch, some n⟩ (p.skips 2)
      | none => sound ⟨.clip, some n⟩ p.skip
    | none, none => some (⟨.clip, none⟩, p)
  | [a] =>
    match chomping? a, digit? a with
    | some ch, _ => some (⟨ch, none⟩, p.skip)
    | none, some n => sound ⟨.clip, some n⟩ p.skip
    | none, none => some (⟨.clip, none⟩, p)
  | [] => some (⟨.clip, none⟩, p)

def endLine? (p : Place) : Option Place :=
  let p := p.skipWhile isGap
  let p := if p.rest.head? == some '#' then p.skipLine else p
  if atBreak p.rest then some p.skipBreak else none

structure Margin where
  breaks : List Char
  /-- The greatest column seen. -/
  widest : Nat
  place : Place

/-- Empty lines and the indentation of the next line; no tab may stand in the
indentation. -/
def margin (indent : Option Nat) : Nat → List Char → Nat → Place → Option Margin
  | 0, _, _, _ => none
  | fuel + 1, breaks, widest, p =>
    let inside := fun n : Nat => match indent with
      | some i => n < i
      | none => true
    let spaces := (p.rest.takeWhile (· == ' ')).length
    let p := p.skips (match indent with
      | some i => min spaces (i - p.column)
      | none => spaces)
    let widest := max widest p.column
    if inside p.column && p.rest.head? == some '\t' then none
    else if !p.rest.isEmpty && atBreak p.rest then
      let (b, p') := p.takeBreak
      margin indent fuel (breaks ++ b) widest p'
    else some ⟨breaks, widest, p⟩

structure Body where
  text : List Char
  lastBreak : List Char
  breaks : List Char
  place : Place

/-- The lines that stand at the indentation; `text` is newest first. -/
def lines (literal : Bool) (indent : Nat) : Nat → (afterBlank : Bool) → Body → Option Body
  | 0, _, _ => none
  | fuel + 1, afterBlank, b =>
    if b.place.column = indent ∧ !b.place.rest.isEmpty then
      let blank := (b.place.rest.head?.map isGap).getD false
      let lead :=
        if !literal && b.lastBreak == ['\n'] && !afterBlank && !blank then
          (if b.breaks.isEmpty then [' '] else [])
        else b.lastBreak
      let (line, p) := b.place.takeWhile (!isBreak ·)
      let text := line.reverse ++ (b.breaks.reverse ++ (lead.reverse ++ b.text))
      let (br, p) := p.takeBreak
      match margin (some indent) p.room [] 0 p with
      | none => none
      | some m => lines literal indent fuel blank ⟨text, br, m.breaks, m.place⟩
    else some b

/-- `outer` is the column of the surrounding block; the indicator is passed. -/
def scan (literal : Bool) (outer : Option Nat) (p : Place) : Option (String × Place) := do
  let (h, p) ← header? p
  let p ← endLine? p
  let given := h.increment.map fun n => (outer.getD 0) + n
  let m ← margin given p.room [] 0 p
  let least := max 1 (match outer with
    | some i => i + 1
    | none => 0)
  let indent := given.getD (max m.widest least)
  let b ← lines literal indent m.place.room false ⟨[], [], m.breaks, m.place⟩
  let tail := match h.chomping with
    | .strip => []
    | .clip => b.lastBreak
    | .keep => b.lastBreak ++ b.breaks
  return (String.ofList (b.text.reverse ++ tail), b.place)

end Block

end PluginGuard.Yaml
