/-!
# Places in a document

Lines and columns decide the structure of a document, so its text is read from
places that know where they are. A line ends at a carriage return, a line feed,
both together, or one of three further break characters.
-/
namespace PluginGuard.Yaml

def isAllowed (c : Char) : Bool :=
  let n := c.toNat
  n == 9 || n == 10 || n == 13 || (0x20 ≤ n && n ≤ 0x7E) || n == 0x85 ||
    (0xA0 ≤ n && n ≤ 0xFFFD) || 0x10000 ≤ n

def isBreak (c : Char) : Bool :=
  c == '\n' || c == '\r' || c == '\x85' || c == '\u2028' || c == '\u2029'

def isGap (c : Char) : Bool := c == ' ' || c == '\t'

def isNameChar (c : Char) : Bool := c.isAlphanum || c == '_' || c == '-'

def atGap : List Char → Bool
  | [] => true
  | c :: _ => isGap c || isBreak c

def atBreak : List Char → Bool
  | [] => true
  | c :: _ => isBreak c

def size (cs : List Char) : Nat := cs.foldl (fun n c => n + c.utf8Size) 0

structure Place where
  rest : List Char
  /-- How many bytes stand before it. -/
  index : Nat
  line : Nat
  column : Nat
  /-- More than all characters of the text; no reading takes so many steps. -/
  room : Nat

namespace Place

def start (cs : List Char) : Place := ⟨cs, 0, 0, 0, cs.length + 1⟩

def skip (p : Place) : Place :=
  { p with rest := p.rest.tail, index := p.index + size (p.rest.take 1), column := p.column + 1 }

def skips (p : Place) (n : Nat) : Place :=
  { p with rest := p.rest.drop n, index := p.index + size (p.rest.take n), column := p.column + n }

def takeBreak (p : Place) : List Char × Place :=
  match p.rest with
  | '\r' :: '\n' :: rest => (['\n'], ⟨rest, p.index + 2, p.line + 1, 0, p.room⟩)
  | c :: rest =>
    if isBreak c then
      (if c == '\u2028' || c == '\u2029' then [c] else ['\n'],
        ⟨rest, p.index + c.utf8Size, p.line + 1, 0, p.room⟩)
    else ([], p)
  | [] => ([], p)

def skipBreak (p : Place) : Place := p.takeBreak.2

def takeWhile (p : Place) (test : Char → Bool) : List Char × Place :=
  let taken := p.rest.takeWhile test
  (taken, p.skips taken.length)

def skipWhile (p : Place) (test : Char → Bool) : Place := (p.takeWhile test).2

def skipLine (p : Place) : Place := p.skipWhile (!isBreak ·)

def starts (p : Place) (lead : String) : Bool := lead.toList.isPrefixOf p.rest

def atMarker (p : Place) : Bool :=
  p.column == 0 && (p.starts "---" || p.starts "...") && atGap (p.rest.drop 3)

end Place

end PluginGuard.Yaml
