import PluginGuard.Text.Utf8

/-!
# Modified UTF-8

The form in which class files store text: each UTF-16 unit is written on its
own, so a supplementary character takes two three-byte sequences, and NUL takes
two bytes. Reading never fails; what is no sequence becomes the replacement
character. Ordinary UTF-8 without surrogate sequences is read as such.
-/
namespace PluginGuard.Text.ModifiedUtf8

def unitsOf (c : Char) : List UInt16 :=
  let n := c.toNat
  if n < 0x10000 then [UInt16.ofNat n]
  else [UInt16.ofNat (0xD800 + (n - 0x10000) / 1024), UInt16.ofNat (0xDC00 + (n - 0x10000) % 1024)]

def isHigh (u : UInt16) : Bool := 0xD800 ≤ u && u ≤ 0xDBFF

def isLow (u : UInt16) : Bool := 0xDC00 ≤ u && u ≤ 0xDFFF

def join (high low : UInt16) : Char :=
  Char.ofNat (0x10000 + (high.toNat - 0xD800) * 1024 + (low.toNat - 0xDC00))

/-- A surrogate without its partner becomes the replacement character. -/
def charsInto (acc : List Char) : List UInt16 → List Char
  | [] => acc.reverse
  | [u] => ((if isHigh u || isLow u then Utf8.replacement else Char.ofNat u.toNat) :: acc).reverse
  | u :: v :: rest =>
    if isHigh u then
      if isLow v then charsInto (join u v :: acc) rest
      else charsInto (Utf8.replacement :: acc) (v :: rest)
    else if isLow u then charsInto (Utf8.replacement :: acc) (v :: rest)
    else charsInto (Char.ofNat u.toNat :: acc) (v :: rest)

def charsOfUnits (units : List UInt16) : List Char := charsInto [] units

def twoByteUnit (a b : UInt8) : UInt16 :=
  UInt16.ofNat ((a.toNat % 32) * 64 + b.toNat % 64)

def threeByteUnit (a b c : UInt8) : UInt16 :=
  UInt16.ofNat ((a.toNat % 16) * 4096 + (b.toNat % 64) * 64 + c.toNat % 64)

def unitsInto (acc : List UInt16) : List UInt8 → List UInt16
  | [] => acc.reverse
  | a :: rest =>
    if a < 0x80 then unitsInto (a.toUInt16 :: acc) rest
    else if 0xC0 ≤ a && a < 0xE0 then
      match rest with
      | b :: rest' => unitsInto (twoByteUnit a b :: acc) rest'
      | [] => unitsInto (0xFFFD :: acc) []
    else if 0xE0 ≤ a && a < 0xF0 then
      match rest with
      | b :: c :: rest' => unitsInto (threeByteUnit a b c :: acc) rest'
      | rest => unitsInto (0xFFFD :: acc) rest
    else unitsInto (0xFFFD :: acc) rest
termination_by bytes => bytes.length

/-- One unit for each sequence of one to three bytes, without regard to UTF-8. -/
def units (bytes : List UInt8) : List UInt16 := unitsInto [] bytes

def decodeUnits (bytes : List UInt8) : List Char := charsOfUnits (units bytes)

/-- A byte 0xED may begin half of a surrogate pair, so such text is read unit
by unit. -/
def decodeChars (bytes : List UInt8) : List Char :=
  match Utf8.decode? bytes with
  | some cs => if bytes.contains 0xED then decodeUnits bytes else cs
  | none => decodeUnits bytes

def decode (bytes : List UInt8) : String := String.ofList (decodeChars bytes)

def encodeUnit (u : UInt16) : List UInt8 :=
  let n := u.toNat
  if 0 < n && n < 0x80 then [UInt8.ofNat n]
  else if n < 0x800 then [UInt8.ofNat (0xC0 + n / 64), UInt8.ofNat (0x80 + n % 64)]
  else
    [UInt8.ofNat (0xE0 + n / 4096), UInt8.ofNat (0x80 + n / 64 % 64), UInt8.ofNat (0x80 + n % 64)]

def encodeChars (cs : List Char) : List UInt8 := (cs.flatMap unitsOf).flatMap encodeUnit

def encode (s : String) : List UInt8 := encodeChars s.toList

end PluginGuard.Text.ModifiedUtf8
