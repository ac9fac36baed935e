import PluginGuard.ClassFile.Cursor
import PluginGuard.Text.ModifiedUtf8

/-!
# Constants

The entries of a constant pool with their tags, and how one entry is read and
written.
-/
namespace PluginGuard.ClassFile

inductive MemberKind
  | field
  | method
  | interfaceMethod
  deriving DecidableEq, Repr

/-- Stored bytes stand beside the text they decode to. -/
inductive Constant
  | utf8 (raw : List UInt8) (text : String)
  | int (bits : UInt32)
  | float (bits : UInt32)
  | long (bits : UInt64)
  | double (bits : UInt64)
  | classRef (name : UInt16)
  | string (utf8 : UInt16)
  | member (kind : MemberKind) (owner nameAndType : UInt16)
  | nameAndType (name descriptor : UInt16)
  | handle (kind : UInt8) (reference : UInt16)
  | methodType (descriptor : UInt16)
  | dynamic (bootstrap nameAndType : UInt16)
  | invokeDynamic (bootstrap nameAndType : UInt16)
  | moduleRef (name : UInt16)
  | packageRef (name : UInt16)
  deriving DecidableEq, Repr

def MemberKind.tag : MemberKind → UInt8
  | .field => 9
  | .method => 10
  | .interfaceMethod => 11

namespace Constant

def ofText (text : String) : Constant := .utf8 (Text.ModifiedUtf8.encode text) text

def ofRaw (raw : List UInt8) : Constant := .utf8 raw (Text.ModifiedUtf8.decode raw)

def tag : Constant → UInt8
  | .utf8 .. => 1
  | .int _ => 3
  | .float _ => 4
  | .long _ => 5
  | .double _ => 6
  | .classRef _ => 7
  | .string _ => 8
  | .member kind .. => kind.tag
  | .nameAndType .. => 12
  | .handle .. => 15
  | .methodType _ => 16
  | .dynamic .. => 17
  | .invokeDynamic .. => 18
  | .moduleRef _ => 19
  | .packageRef _ => 20

/-- Eight-byte constants take two slots of a pool. -/
def isWide : Constant → Bool
  | .long _ | .double _ => true
  | _ => false

def slots (k : Constant) : Nat := if k.isWide then 2 else 1

def read (slot : Nat) : Reader Constant := do
  match (← Reader.byte) with
  | 1 => do
    let n ← Reader.half
    return ofRaw (← Reader.bytes n.toNat)
  | 3 => return .int (← Reader.word)
  | 4 => return .float (← Reader.word)
  | 5 => return .long (← Reader.long)
  | 6 => return .double (← Reader.long)
  | 7 => return .classRef (← Reader.half)
  | 8 => return .string (← Reader.half)
  | 9 => do
    let owner ← Reader.half
    return .member .field owner (← Reader.half)
  | 10 => do
    let owner ← Reader.half
    return .member .method owner (← Reader.half)
  | 11 => do
    let owner ← Reader.half
    return .member .interfaceMethod owner (← Reader.half)
  | 12 => do
    let name ← Reader.half
    return .nameAndType name (← Reader.half)
  | 15 => do
    let kind ← Reader.byte
    return .handle kind (← Reader.half)
  | 16 => return .methodType (← Reader.half)
  | 17 => do
    let bootstrap ← Reader.half
    return .dynamic bootstrap (← Reader.half)
  | 18 => do
    let bootstrap ← Reader.half
    return .invokeDynamic bootstrap (← Reader.half)
  | 19 => return .moduleRef (← Reader.half)
  | 20 => return .packageRef (← Reader.half)
  | tag => Reader.fail (.malformed (.unknownTag tag slot))

def body : Constant → Except Fault (List UInt8)
  | .utf8 raw _ => do return (← Put.count raw.length "utf8 bytes") ++ raw
  | .int bits | .float bits => .ok (Put.word bits)
  | .long bits | .double bits => .ok (Put.long bits)
  | .classRef i | .string i | .methodType i | .moduleRef i | .packageRef i => .ok (Put.half i)
  | .member _ a b | .nameAndType a b | .dynamic a b | .invokeDynamic a b =>
    .ok (Put.half a ++ Put.half b)
  | .handle kind reference => .ok (kind :: Put.half reference)

def write (k : Constant) : Except Fault (List UInt8) := do
  return k.tag :: (← k.body)

end Constant

end PluginGuard.ClassFile
