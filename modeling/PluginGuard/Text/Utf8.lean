/-!
# UTF-8

One decoding step reads a character or names how many bytes of an ill-formed
sequence belong together. Strict decoding stops at the first ill-formed
sequence, lenient decoding puts one replacement character for each.
-/
namespace PluginGuard.Text.Utf8

def replacement : Char := '\ufffd'

def isTail (b : UInt8) : Bool := 0x80 ≤ b && b ≤ 0xBF

def bits (b : UInt8) : Nat := b.toNat % 64

/-- Bounds of the second byte after a given first byte; the first byte also
fixes how many bytes follow. -/
def second (lead : UInt8) : Option (Nat × UInt8 × UInt8) :=
  if 0xC2 ≤ lead && lead ≤ 0xDF then some (1, 0x80, 0xBF)
  else if lead == 0xE0 then some (2, 0xA0, 0xBF)
  else if lead == 0xED then some (2, 0x80, 0x9F)
  else if 0xE1 ≤ lead && lead ≤ 0xEF then some (2, 0x80, 0xBF)
  else if lead == 0xF0 then some (3, 0x90, 0xBF)
  else if 0xF1 ≤ lead && lead ≤ 0xF3 then some (3, 0x80, 0xBF)
  else if lead == 0xF4 then some (3, 0x80, 0x8F)
  else none

inductive Next
  | char (c : Char) (rest : List UInt8)
  | illFormed (rest : List UInt8)

def next (lead : UInt8) (tail : List UInt8) : Next :=
  if lead < 0x80 then .char (Char.ofNat lead.toNat) tail
  else match second lead with
    | none => .illFormed tail
    | some (more, lo, hi) =>
      match tail with
      | [] => .illFormed []
      | b :: r1 =>
        if !(lo ≤ b && b ≤ hi) then .illFormed (b :: r1)
        else if more = 1 then .char (Char.ofNat ((lead.toNat % 32) * 64 + bits b)) r1
        else match r1 with
          | [] => .illFormed []
          | c :: r2 =>
            if !isTail c then .illFormed (c :: r2)
            else if more = 2 then
              .char (Char.ofNat ((lead.toNat % 16) * 4096 + bits b * 64 + bits c)) r2
            else match r2 with
              | [] => .illFormed []
              | d :: r3 =>
                if !isTail d then .illFormed (d :: r3)
                else .char (Char.ofNat ((lead.toNat % 8) * 262144 + bits b * 4096 +
                  bits c * 64 + bits d)) r3

def Next.rest : Next → List UInt8
  | .char _ r => r
  | .illFormed r => r

theorem next_rest_length (lead : UInt8) (tail : List UInt8) :
    (next lead tail).rest.length ≤ tail.length := by
  unfold next
  repeat' split
  all_goals simp [Next.rest]
  all_goals omega

def decodeInto (acc : List Char) : List UInt8 → Option (List Char)
  | [] => some acc.reverse
  | b :: tail =>
    have := next_rest_length b tail
    match _h : next b tail with
    | .char c rest => decodeInto (c :: acc) rest
    | .illFormed _ => none
termination_by bytes => bytes.length
decreasing_by simp [_h, Next.rest] at this; simp; omega

def decode? (bytes : List UInt8) : Option (List Char) := decodeInto [] bytes

def decodeLenientInto (acc : List Char) : List UInt8 → List Char
  | [] => acc.reverse
  | b :: tail =>
    have := next_rest_length b tail
    match _h : next b tail with
    | .char c rest => decodeLenientInto (c :: acc) rest
    | .illFormed rest => decodeLenientInto (replacement :: acc) rest
termination_by bytes => bytes.length
decreasing_by all_goals (simp [_h, Next.rest] at this; simp; omega)

def decodeLenient (bytes : List UInt8) : String := String.ofList (decodeLenientInto [] bytes)

def encodeChar (c : Char) : List UInt8 :=
  let n := c.toNat
  if n < 0x80 then [UInt8.ofNat n]
  else if n < 0x800 then [UInt8.ofNat (0xC0 + n / 64), UInt8.ofNat (0x80 + n % 64)]
  else if n < 0x10000 then
    [UInt8.ofNat (0xE0 + n / 4096), UInt8.ofNat (0x80 + n / 64 % 64), UInt8.ofNat (0x80 + n % 64)]
  else
    [UInt8.ofNat (0xF0 + n / 262144), UInt8.ofNat (0x80 + n / 4096 % 64),
      UInt8.ofNat (0x80 + n / 64 % 64), UInt8.ofNat (0x80 + n % 64)]

def encode (s : String) : List UInt8 := s.toList.flatMap encodeChar

end PluginGuard.Text.Utf8
