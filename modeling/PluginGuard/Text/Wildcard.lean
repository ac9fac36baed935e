/-!
# Wildcard patterns

A star stands for any run of characters and a question mark for any single
character. The matcher keeps only the last star to fall back to: on a mismatch
that star takes one more character and matching resumes behind it.
-/
namespace PluginGuard.Text.Wildcard

def onlyStars : List Char → Bool
  | [] => true
  | c :: cs => c == '*' && onlyStars cs

/-- Where matching resumes on a mismatch: what follows the last star, and the
input from the first character that the star has not taken. -/
abbrev Fallback := Option (List Char × List Char)

inductive Step
  | advance (p s : List Char)
  | star (p : List Char)
  | retry

/-- A character that equals the pattern's own is taken before a star is seen in
it. -/
def step (p : List Char) (c : Char) (s : List Char) : Step :=
  match p with
  | [] => .retry
  | q :: p' => if q = '?' ∨ q = c then .advance p' s else if q = '*' then .star p' else .retry

def run (fuel : Nat) (p s : List Char) (last : Fallback) : Bool :=
  match fuel, s with
  | _, [] => onlyStars p
  | 0, _ :: _ => false
  | n + 1, c :: s' =>
    match step p c s' with
    | .advance p' s'' => run n p' s'' last
    | .star p' => run n p' (c :: s') (some (p', c :: s'))
    | .retry =>
      match last with
      | some (q, _ :: t) => run n q t (some (q, t))
      | _ => false

/-- The fallback only moves forward through the input, and between two
mismatches each step uses up a pattern character. -/
def enough (p s : List Char) : Nat := (s.length + 1) * (p.length + 2)

def accepts (p s : List Char) : Bool := run (enough p s) p s none

def covers (pattern input : String) : Bool := accepts pattern.toList input.toList

def isLiteral (pattern : String) : Bool :=
  pattern.toList.all fun c => c != '*' && c != '?'

end PluginGuard.Text.Wildcard
