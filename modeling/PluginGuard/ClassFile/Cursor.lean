import PluginGuard.ClassFile.Fault

/-!
# Reading and writing big-endian fields

A cursor is a place in a byte string: how many bytes lie before it and which
come after. Every reader checks that its field is there, and fails with the
place and the size of the field. Writers produce the bytes of one field.
-/
namespace PluginGuard.ClassFile

structure Cursor where
  position : Nat
  rest : List UInt8

def Cursor.start (bytes : List UInt8) : Cursor := ⟨0, bytes⟩

def Cursor.atEnd (c : Cursor) : Bool := c.rest.isEmpty

def Cursor.remaining (c : Cursor) : Nat := c.rest.length

/-- At least `n` bytes remain; looks at no more than `n` of them. -/
def Cursor.has (c : Cursor) (n : Nat) : Bool :=
  match n with
  | 0 => true
  | k + 1 => !(c.rest.drop k).isEmpty

abbrev Reader (α : Type) := StateT Cursor (Except Fault) α

namespace Reader

def byte : Reader UInt8 := fun c =>
  match c.rest with
  | b :: rest => .ok (b, ⟨c.position + 1, rest⟩)
  | [] => .error (.truncated c.position 1)

def half : Reader UInt16 := fun c =>
  match c.rest with
  | a :: b :: rest => .ok (UInt16.ofNat (a.toNat * 256 + b.toNat), ⟨c.position + 2, rest⟩)
  | _ => .error (.truncated c.position 2)

def word : Reader UInt32 := fun c =>
  match c.rest with
  | a :: b :: d :: e :: rest =>
    .ok (UInt32.ofNat (((a.toNat * 256 + b.toNat) * 256 + d.toNat) * 256 + e.toNat),
      ⟨c.position + 4, rest⟩)
  | _ => .error (.truncated c.position 4)

def signedByte : Reader Int8 := do return (← byte).toInt8

def signedHalf : Reader Int16 := do return (← half).toInt16

def signedWord : Reader Int32 := do return (← word).toInt32

def long : Reader UInt64 := do
  let high ← word
  let low ← word
  return UInt64.ofNat (high.toNat * 4294967296 + low.toNat)

def splitInto (taken : List UInt8) : Nat → List UInt8 → Option (List UInt8 × List UInt8)
  | 0, rest => some (taken.reverse, rest)
  | _ + 1, [] => none
  | n + 1, b :: rest => splitInto (b :: taken) n rest

def bytes (n : Nat) : Reader (List UInt8) := fun c =>
  match splitInto [] n c.rest with
  | some (taken, rest) => .ok (taken, ⟨c.position + n, rest⟩)
  | none => .error (.truncated c.position n)

def skip (n : Nat) : Reader Unit := do
  let _ ← bytes n

def fail {α : Type} (fault : Fault) : Reader α := fun _ => .error fault

def lift {α : Type} (e : Except Fault α) : Reader α := fun c => e.map fun a => (a, c)

def repeatedInto {α : Type} (one : Reader α) : Nat → List α → Reader (List α)
  | 0, acc, c => .ok (acc.reverse, c)
  | n + 1, acc, c =>
    match one c with
    | .ok (a, c') => repeatedInto one n (a :: acc) c'
    | .error e => .error e

def repeated {α : Type} (n : Nat) (one : Reader α) : Reader (List α) := repeatedInto one n []

def counted {α : Type} (one : Reader α) : Reader (List α) := do
  let n ← half
  repeated n.toNat one

end Reader

namespace Put

def byte (v : UInt8) : List UInt8 := [v]

def half (v : UInt16) : List UInt8 := [UInt8.ofNat (v.toNat / 256), UInt8.ofNat (v.toNat % 256)]

def word (v : UInt32) : List UInt8 :=
  [UInt8.ofNat (v.toNat / 16777216), UInt8.ofNat (v.toNat / 65536 % 256),
    UInt8.ofNat (v.toNat / 256 % 256), UInt8.ofNat (v.toNat % 256)]

def long (v : UInt64) : List UInt8 :=
  word (UInt32.ofNat (v.toNat / 4294967296)) ++ word (UInt32.ofNat (v.toNat % 4294967296))

def signedWord (v : Int) : List UInt8 := word (Int32.ofInt v).toUInt32

def lowHalf (n : Nat) : List UInt8 := half (UInt16.ofNat n)

def count (n : Nat) (what : String) : Except Fault (List UInt8) :=
  if n < 65536 then .ok (half (UInt16.ofNat n)) else .error (.malformed (.tooMany what n))

end Put

end PluginGuard.ClassFile
