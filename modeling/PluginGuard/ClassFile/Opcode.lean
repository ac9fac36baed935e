import PluginGuard.Text.Numeral

/-!
# Opcodes

Numbers with a name here, the layout of the bytes behind each opcode, and the
families that edits and scans ask about.
-/
namespace PluginGuard.ClassFile

namespace Opcode

def aconstNull : UInt8 := 0x01
def iconst1 : UInt8 := 0x04
def ldc : UInt8 := 0x12
def ldcWide : UInt8 := 0x13
def iinc : UInt8 := 0x84
def goto : UInt8 := 0xa7
def jsr : UInt8 := 0xa8
def ret : UInt8 := 0xa9
def invokeStatic : UInt8 := 0xb8
def new : UInt8 := 0xbb
def wide : UInt8 := 0xc4
def gotoWide : UInt8 := 0xc8
def jsrWide : UInt8 := 0xc9

end Opcode

inductive Layout
  | none
  | byte
  | short
  | constant8
  | constant16
  | slot
  | iinc
  | branch16
  | branch32
  | tableSwitch
  | lookupSwitch
  | invokeInterface
  | invokeDynamic
  | newArray
  | multiNewArray
  deriving DecidableEq, Repr

namespace Opcode

def between (lo hi op : UInt8) : Bool := lo ≤ op && op ≤ hi

/-- An opcode without a layout is not defined; `wide` is a modifier of the
opcode behind it and has none either. -/
def layout (op : UInt8) : Option Layout :=
  if between 0x00 0x0f op then some .none
  else if op == 0x10 then some .byte
  else if op == 0x11 then some .short
  else if op == 0x12 then some .constant8
  else if between 0x13 0x14 op then some .constant16
  else if between 0x15 0x19 op then some .slot
  else if between 0x1a 0x35 op then some .none
  else if between 0x36 0x3a op then some .slot
  else if between 0x3b 0x83 op then some .none
  else if op == 0x84 then some .iinc
  else if between 0x85 0x98 op then some .none
  else if between 0x99 0xa8 op then some .branch16
  else if op == 0xa9 then some .slot
  else if op == 0xaa then some .tableSwitch
  else if op == 0xab then some .lookupSwitch
  else if between 0xac 0xb1 op then some .none
  else if between 0xb2 0xb8 op then some .constant16
  else if op == 0xb9 then some .invokeInterface
  else if op == 0xba then some .invokeDynamic
  else if op == 0xbb then some .constant16
  else if op == 0xbc then some .newArray
  else if op == 0xbd then some .constant16
  else if between 0xbe 0xbf op then some .none
  else if between 0xc0 0xc1 op then some .constant16
  else if between 0xc2 0xc3 op then some .none
  else if op == 0xc5 then some .multiNewArray
  else if between 0xc6 0xc7 op then some .branch16
  else if between 0xc8 0xc9 op then some .branch32
  else none

def isReturn (op : UInt8) : Bool := between 0xac 0xb1 op

def isInvoke (op : UInt8) : Bool := between 0xb6 0xba op

def isMemberAccess (op : UInt8) : Bool := between 0xb2 0xb9 op

/-- Conditional branches have no long form. -/
def isConditionalBranch (op : UInt8) : Bool := between 0x99 0xa6 op || between 0xc6 0xc7 op

def isLongBranch (op : UInt8) : Bool := between 0xc8 0xc9 op

/-- Opcodes that the wide modifier may stand before, the increment aside. -/
def isWidenableSlot (op : UInt8) : Bool :=
  between 0x15 0x19 op || between 0x36 0x3a op || op == ret

def mnemonic (op : UInt8) : String :=
  match op with
  | 0x00 => "nop"
  | 0x01 => "aconst_null"
  | 0x12 => "ldc"
  | 0x13 => "ldc_w"
  | 0x14 => "ldc2_w"
  | 0x57 => "pop"
  | 0x59 => "dup"
  | 0xa7 => "goto"
  | 0xc8 => "goto_w"
  | 0xaa => "tableswitch"
  | 0xab => "lookupswitch"
  | 0xb1 => "return"
  | 0xb0 => "areturn"
  | 0xac => "ireturn"
  | 0xb2 => "getstatic"
  | 0xb3 => "putstatic"
  | 0xb4 => "getfield"
  | 0xb5 => "putfield"
  | 0xb6 => "invokevirtual"
  | 0xb7 => "invokespecial"
  | 0xb8 => "invokestatic"
  | 0xb9 => "invokeinterface"
  | 0xba => "invokedynamic"
  | 0xbb => "new"
  | 0xbf => "athrow"
  | 0xc0 => "checkcast"
  | _ => "op_0x" ++ Text.Hex.padded 2 op.toNat

end Opcode

end PluginGuard.ClassFile
