import PluginGuard.Text.Utf8

/-!
# Entries of zip files

What the directory says about one entry, and the character set of names that are
not marked as Unicode. Numbers are written with their lowest byte first. A record
starts with a mark of four bytes, of which the first two are always the same.
-/
namespace PluginGuard.Zip

/-! ### Fields -/

abbrev Data := Array UInt8

def bytesAt (d : Data) (at_ length : Nat) : List UInt8 := (d.extract at_ (at_ + length)).toList

def numberOf (bytes : List UInt8) : Nat := bytes.foldr (fun b n => b.toNat + 256 * n) 0

def number (width : Nat) (d : Data) (at_ : Nat) : Nat := numberOf (bytesAt d at_ width)

def half (d : Data) (at_ : Nat) : Nat := number 2 d at_
def word (d : Data) (at_ : Nat) : Nat := number 4 d at_
def long (d : Data) (at_ : Nat) : Nat := number 8 d at_

/-- The largest half and the largest word stand for numbers that have no room. -/
def fullHalf : Nat := 65535
def fullWord : Nat := 4294967295

inductive Mark
  | directoryHeader
  | localHeader
  | ending
  | largeEnding
  | largeLocator

def Mark.bytes : Mark → List UInt8
  | .directoryHeader => [0x50, 0x4b, 1, 2]
  | .localHeader => [0x50, 0x4b, 3, 4]
  | .ending => [0x50, 0x4b, 5, 6]
  | .largeEnding => [0x50, 0x4b, 6, 6]
  | .largeLocator => [0x50, 0x4b, 6, 7]

def Mark.size : Mark → Nat
  | .directoryHeader => 46
  | .localHeader => 30
  | .ending => 22
  | .largeEnding => 56
  | .largeLocator => 20

def Mark.stands (m : Mark) (d : Data) (at_ : Nat) : Bool := bytesAt d at_ 4 == m.bytes

def Mark.fits (m : Mark) (d : Data) (at_ : Nat) : Bool := m.stands d at_ && at_ + m.size ≤ d.size

/-! ### What is said of an entry -/

inductive Method
  | stored
  | deflated
  | other (number : Nat)
  deriving DecidableEq, Repr

def Method.ofNumber : Nat → Method
  | 0 => .stored
  | 8 => .deflated
  | n => .other n

/-- Stands for a method that is named elsewhere, along with how the data is sealed. -/
def Method.named : Method := .other 99

structure Entry where
  name : String
  rawName : List UInt8
  comment : String
  method : Method
  encrypted : Bool
  /-- Its data is sealed in a way that goes with a method named elsewhere. -/
  sealed : Bool
  crc : UInt32
  /-- Where its own header stands. -/
  place : Nat
  /-- How much data there is, and how much of it once it is unpacked. -/
  size : Nat
  plainSize : Nat
  deriving Repr

def Entry.isDirectory (e : Entry) : Bool :=
  match e.name.toList.getLast? with
  | some c => c == '/' || c == '\\'
  | none => false

/-! ### Names -/

/-- The upper half of the character set of names that are not marked as Unicode. -/
def upperHalf : Array Char :=
  ("ÇüéâäàåçêëèïîìÄÅÉæÆôöòûùÿÖÜ¢£¥₧ƒáíóúñÑªº¿⌐¬½¼¡«»░▒▓│┤╡╢╖╕╣║╗╝╜╛┐└┴┬├─┼╞╟╚╔╩╦╠═╬╧" ++
    "╨╤╥╙╘╒╓╫╪┘┌█▄▌▐▀αßΓπΣσµτΦΘΩδ∞φε∩≡±≥≤⌠⌡÷≈°∙·√ⁿ²■\u00a0").toList.toArray

def charOf (b : UInt8) : Char :=
  if b < 128 then Char.ofNat b.toNat else upperHalf.getD (b.toNat - 128) '?'

def textOf (unicode : Bool) (bytes : List UInt8) : String :=
  if unicode then Text.Utf8.decodeLenient bytes else String.ofList (bytes.map charOf)

end PluginGuard.Zip
