import PluginGuard.Text.Character

/-!
# Numerals

Decimal ones have an optional sign and at least one digit, nothing else. Range checks
belong to the reader of the field.
-/
namespace PluginGuard.Text.Numeral

def digits? (cs : List Char) : Option Nat :=
  if cs.isEmpty || !cs.all Ascii.isDigit then none
  else some (cs.foldl (fun n c => n * 10 + (c.toNat - 48)) 0)

/-- A plus sign may stand in front. -/
def natural? : List Char → Option Nat
  | '+' :: rest => digits? rest
  | cs => digits? cs

def integer? : List Char → Option Int
  | '-' :: rest => (digits? rest).map fun n => -(n : Int)
  | cs => (natural? cs).map fun n => (n : Int)

def port? (cs : List Char) : Option UInt16 :=
  match natural? cs with
  | some n => if n < 65536 then some (UInt16.ofNat n) else none
  | none => none

def int32? (cs : List Char) : Option Int32 :=
  match integer? cs with
  | some n => if -2147483648 ≤ n ∧ n ≤ 2147483647 then some (Int32.ofInt n) else none
  | none => none

end PluginGuard.Text.Numeral

/-!
## Hexadecimal text

Lower-case digits for bytes and numbers, and the reader of byte strings.
-/
namespace PluginGuard.Text.Hex

def digit (n : Nat) : Char :=
  if n < 10 then Char.ofNat (48 + n) else Char.ofNat (87 + n)

def ofByte (b : UInt8) : List Char :=
  [digit (b.toNat / 16), digit (b.toNat % 16)]

def encode (bytes : List UInt8) : String :=
  String.ofList (bytes.flatMap ofByte)

def padded (width n : Nat) : String :=
  let digits := (Nat.toDigits 16 n)
  String.ofList (List.replicate (width - digits.length) '0' ++ digits)

def value? (c : Char) : Option Nat :=
  if '0' ≤ c ∧ c ≤ '9' then some (c.toNat - 48)
  else if 'a' ≤ c ∧ c ≤ 'f' then some (c.toNat - 87)
  else if 'A' ≤ c ∧ c ≤ 'F' then some (c.toNat - 55)
  else none

def isDigit (c : Char) : Bool := (value? c).isSome

def decodeInto (acc : List UInt8) : List Char → Option (List UInt8)
  | [] => some acc.reverse
  | [_] => none
  | h :: l :: rest =>
    match value? h, value? l with
    | some a, some b => decodeInto (UInt8.ofNat (a * 16 + b) :: acc) rest
    | _, _ => none

def decode? (text : String) : Option (List UInt8) := decodeInto [] text.toList

end PluginGuard.Text.Hex
