import PluginGuard.Text.Numeral

/-!
# What is wrong with class data

Causes for which reading, editing or writing a class stops, and their wording.
-/
namespace PluginGuard.ClassFile

inductive Flaw
  | poolCountZero
  | unknownTag (tag : UInt8) (entry : Nat)
  | wideConstantAtEnd
  | tooMany (what : String) (count : Nat)
  | codeLength (length : Nat)
  | branchOutside (pc : Nat) (target : Int)
  | wideOpcode (opcode : UInt8) (pc : Nat)
  | switchBounds (pc : Nat)
  | pairCount (pc : Nat) (count : Int)
  | offsetInside (pc : Nat)
  | endInside (pc : Nat)
  | trailingCode
  | trailingClass (count : Nat)
  | verificationTag (tag : UInt8)
  | reservedFrame (kind : UInt8)
  | emptyBody
  | branchPastEnd (index : Nat)
  | frameDelta (delta : Nat)
  | attributeSize
  deriving DecidableEq, Repr

inductive Refusal
  | insertPastEnd (position count : Nat)
  | removalRange (start stop : Nat)
  | stranded (index : Nat)
  | framesCollapse
  | framesOutOfOrder
  | noMethod (index : Nat)
  deriving DecidableEq, Repr

/-- The kind of constant a reference should have led to. -/
inductive Expected
  | utf8
  | classRef
  | string
  | nameAndType
  | member
  deriving DecidableEq, Repr

inductive Fault
  | truncated (offset needed : Nat)
  | badMagic (found : UInt32)
  | malformed (flaw : Flaw)
  | unknownOpcode (opcode : UInt8) (pc : Nat)
  | badConstant (index : UInt16) (expected : Expected)
  | poolFull
  | branchOverflow (index : Nat)
  | codeTooLarge (size : Nat)
  | invalidEdit (refusal : Refusal)
  deriving DecidableEq, Repr

open Text (Hex.padded)

def Flaw.message : Flaw → String
  | .poolCountZero => "constant_pool_count is zero"
  | .unknownTag tag entry => s!"unknown constant tag {tag} at entry #{entry}"
  | .wideConstantAtEnd => "8-byte constant overflows the pool"
  | .tooMany what count => s!"too many {what}: {count}"
  | .codeLength length => s!"code_length {length}"
  | .branchOutside pc target => s!"branch at pc {pc} targets {target}, outside the method"
  | .wideOpcode opcode pc => s!"wide prefix on opcode 0x{Hex.padded 2 opcode.toNat} at pc {pc}"
  | .switchBounds pc => s!"tableswitch at pc {pc} has high < low"
  | .pairCount pc count => s!"lookupswitch at pc {pc} declares {count} pairs"
  | .offsetInside pc => s!"offset {pc} is not an instruction boundary"
  | .endInside pc => s!"range end {pc} is not an instruction boundary"
  | .trailingCode => "trailing bytes in Code attribute"
  | .trailingClass count => s!"{count} trailing bytes after class"
  | .verificationTag tag => s!"verification type tag {tag}"
  | .reservedFrame kind => s!"reserved frame type {kind}"
  | .emptyBody => "empty method body"
  | .branchPastEnd index => s!"instruction {index} branches past the end of the method"
  | .frameDelta delta => s!"frame delta {delta}"
  | .attributeSize => "attribute too large"

def Refusal.message : Refusal → String
  | .insertPastEnd position count =>
    s!"insert position {position} past end of {count} instructions"
  | .removalRange start stop => s!"bad removal range {start}..{stop}"
  | .stranded index => s!"instruction {index} is referenced from outside the removed range"
  | .framesCollapse => "edit collapses two stack map frames"
  | .framesOutOfOrder => "stack map frames out of order"
  | .noMethod index => s!"no method #{index}"

def Expected.name : Expected → String
  | .utf8 => "Utf8"
  | .classRef => "Class"
  | .string => "String"
  | .nameAndType => "NameAndType"
  | .member => "member reference"

def Fault.message : Fault → String
  | .truncated offset needed =>
    s!"truncated class data: needed {needed} bytes at offset {offset}"
  | .badMagic found => s!"bad magic number 0x{Hex.padded 8 found.toNat}"
  | .malformed flaw => s!"malformed class file: {flaw.message}"
  | .unknownOpcode opcode pc => s!"unknown opcode 0x{Hex.padded 2 opcode.toNat} at pc {pc}"
  | .badConstant index expected => s!"constant pool entry #{index} is not a {expected.name}"
  | .poolFull => "constant pool is full"
  | .branchOverflow index => s!"branch at instruction {index} does not fit a 16-bit offset"
  | .codeTooLarge size => s!"method body is {size} bytes, over the 65535 byte limit"
  | .invalidEdit refusal => s!"instruction sequence edit rejected: {refusal.message}"

end PluginGuard.ClassFile
