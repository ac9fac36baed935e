import PluginGuard.Text.Character
import PluginGuard.Text.Letter

/-!
# Text patterns

Patterns over characters with runs, alternatives and word boundaries. The spots
at which a pattern can end are listed with the preferred one first: longer runs
before shorter ones, and earlier alternatives before later ones. Searching goes
from left to right.
-/
namespace PluginGuard.Text

inductive Pattern
  | one (test : Char → Bool)
  /-- As many characters as there are, down to `min`. -/
  | run (min : Nat) (test : Char → Bool)
  | both (first second : Pattern)
  | either (first second : Pattern)
  | boundary
  | nothing

namespace Pattern

def exactly (s : String) : Pattern :=
  s.toList.foldr (fun c p => both (one (· == c)) p) nothing

def sequence (ps : List Pattern) : Pattern := ps.foldr both nothing

def optional (p : Pattern) : Pattern := either p nothing

def anyOf (ps : List Pattern) : Pattern :=
  match ps with
  | [] => nothing
  | [p] => p
  | p :: rest => either p (anyOf rest)

/-- A letter in either case, with the long s and the Kelvin sign among the forms
of s and k. -/
def isLetterOf (l c : Char) : Bool :=
  c == l || c.toNat + 32 == l.toNat || (l == 's' && c == '\u017f') || (l == 'k' && c == '\u212a')

/-- A text of small letters and other characters, its letters in either case. -/
def word (s : String) : Pattern :=
  sequence (s.toList.map fun c => one (if Ascii.isLetter c then isLetterOf c else (· == c)))

end Pattern

/-- A place in a text: the character before it, and the text from it on. -/
structure Spot where
  before : Option Char
  rest : List Char

namespace Spot

def start (cs : List Char) : Spot := ⟨none, cs⟩

def upTo (s t : Spot) : Nat := s.rest.length - t.rest.length

def isWordChar (c : Option Char) : Bool := (c.map Letter.isWord).getD false

def atBoundary (s : Spot) : Bool := isWordChar s.before != isWordChar s.rest.head?

end Spot

namespace Pattern

def runEnds (test : Char → Bool) (min : Nat) (others : List Spot) (before : Option Char) :
    List Char → List Spot
  | [] => if min = 0 then ⟨before, []⟩ :: others else others
  | c :: cs =>
    let others := if min = 0 then ⟨before, c :: cs⟩ :: others else others
    if test c then runEnds test (min - 1) others (some c) cs else others

def ends : Pattern → Spot → List Spot
  | one test, s =>
    match s.rest with
    | c :: cs => if test c then [⟨some c, cs⟩] else []
    | [] => []
  | run min test, s => runEnds test min [] s.before s.rest
  | both p q, s => (ends p s).flatMap (ends q)
  | either p q, s => ends p s ++ ends q s
  | boundary, s => if s.atBoundary then [s] else []
  | nothing, s => [s]

def occursFrom (p : Pattern) (before : Option Char) : List Char → Bool
  | [] => !(p.ends ⟨before, []⟩).isEmpty
  | c :: cs => !(p.ends ⟨before, c :: cs⟩).isEmpty || occursFrom p (some c) cs

def occurs (p : Pattern) (cs : List Char) : Bool := p.occursFrom none cs

end Pattern

end PluginGuard.Text
