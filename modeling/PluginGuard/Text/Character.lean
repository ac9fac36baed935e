/-!
# Characters

## Letters without regard to case

Only the twenty-six Latin letters change case; every other character is its own
lower-case form.
-/
namespace PluginGuard.Text.Ascii

def lowerChar (c : Char) : Char :=
  if 'A' ≤ c ∧ c ≤ 'Z' then Char.ofNat (c.toNat + 32) else c

def lowerChars (cs : List Char) : List Char := cs.map lowerChar

def lower (s : String) : String := String.ofList (lowerChars s.toList)

def sameIgnoringCase (a b : String) : Bool :=
  lowerChars a.toList == lowerChars b.toList

def isDigit (c : Char) : Bool := '0' ≤ c && c ≤ '9'

def isLetter (c : Char) : Bool := ('a' ≤ c && c ≤ 'z') || ('A' ≤ c && c ≤ 'Z')

end PluginGuard.Text.Ascii

/-!
## Blank characters

The characters with the White_Space property, and trimming by them.
-/
namespace PluginGuard.Text

def isBlank (c : Char) : Bool :=
  let n := c.toNat
  (9 ≤ n && n ≤ 13) || n == 0x20 || n == 0x85 || n == 0xA0 || n == 0x1680 ||
    (0x2000 ≤ n && n ≤ 0x200A) || n == 0x2028 || n == 0x2029 || n == 0x202F ||
    n == 0x205F || n == 0x3000

def trimStartChars (cs : List Char) : List Char := cs.dropWhile isBlank

def trimEndChars (cs : List Char) : List Char := (cs.reverse.dropWhile isBlank).reverse

def trimChars (cs : List Char) : List Char := trimEndChars (trimStartChars cs)

def trim (s : String) : String := String.ofList (trimChars s.toList)

def trimEnd (s : String) : String := String.ofList (trimEndChars s.toList)

def allBlank (s : String) : Bool := s.toList.all isBlank

end PluginGuard.Text
