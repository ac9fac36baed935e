import PluginGuard.Json.Double
import PluginGuard.Text.Numeral

/-!
# Numbers in JSON

A whole number of 64 bits stands for itself; every other number, and zero with a
minus sign, stands for a double. Digits for which 64 bits have no room are dropped
before the double is made.
-/
namespace PluginGuard.Json.Number

structure Parts where
  negative : Bool
  whole : List Char
  fraction : List Char
  power : List Char

def isMark (c : Char) : Bool := c == 'e' || c == 'E'

def Parts.ofText (lexeme : String) : Parts :=
  let negative := lexeme.toList.head? == some '-'
  let cs := if negative then lexeme.toList.drop 1 else lexeme.toList
  let mantissa := cs.takeWhile (!isMark ·)
  ⟨negative, mantissa.takeWhile (· != '.'), (mantissa.dropWhile (· != '.')).drop 1,
    (cs.dropWhile (!isMark ·)).drop 1⟩

def room : Nat := 1 <<< 64

def leading (n : Nat) : List Char → Nat × Nat
  | [] => (n, 0)
  | c :: cs =>
    let n' := n * 10 + (c.toNat - 48)
    if n' < room then leading n' cs else (n, cs.length + 1)

def Parts.double? (p : Parts) : Option Double :=
  let (n, left) := leading 0 p.whole
  let (n, right) := leading n p.fraction
  let power := (Text.Numeral.integer? p.power).getD 0
  Double.ofDecimal? n (left - (p.fraction.length - right : Nat) + power)

/-- The number itself, where it is whole and 64 bits hold it with its sign. -/
def Parts.isWhole (p : Parts) : Bool :=
  let n := (Text.Numeral.digits? p.whole).getD 0
  p.fraction.isEmpty && p.power.isEmpty &&
    if p.negative then n ≠ 0 && n ≤ room / 2 else n < room

def written? (lexeme : String) : Option String :=
  let p := Parts.ofText lexeme
  if p.isWhole then some lexeme
  else p.double?.map fun d => (if p.negative then "-" else "") ++ d.text

end PluginGuard.Json.Number
