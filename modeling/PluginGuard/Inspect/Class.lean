import PluginGuard.ClassFile.Class
import PluginGuard.Inspect.Code

/-!
# Classes for inspection

JSON forms of what goes wrong with class data, of bodies with the constants and
places that their instructions lead to, and of whole classes.
-/
namespace PluginGuard.Inspect

open ClassFile

def failure (kind message : String) : Json :=
  .object [("error", .text kind), ("message", .text message)]

def faultKind : Fault → String
  | .truncated .. => "Truncated"
  | .badMagic _ => "BadMagic"
  | .malformed _ => "Malformed"
  | .unknownOpcode .. => "UnknownOpcode"
  | .badConstant .. => "BadConstant"
  | .poolFull => "ConstantPoolOverflow"
  | .branchOverflow _ => "BranchOverflow"
  | .codeTooLarge _ => "CodeTooLarge"
  | .invalidEdit _ => "InvalidEdit"

def fault (f : Fault) : Json := failure (faultKind f) f.message

def orFault {α : Type} (shown : α → Json) : Except Fault α → Json
  | .ok a => shown a
  | .error f => fault f

def link (pool : Pool) (place : Nat) (i : Instruction) : Json :=
  .array [.ofNat place, .ofOption (i.constant?.map index),
    .ofOption ((i.member? pool).map fun m => text m.display), .ofNats i.targets]

def leads (i : Instruction) : Bool := i.constant?.isSome || !i.targets.isEmpty

def links (pool : Pool) (c : Code) : Json :=
  .array (((c.instructions.take shownInstructions).zipIdx.filter fun (i, _) => leads i).map
    fun (i, place) => link pool place i)

def body (pool : Pool) (c : Except Fault (Option Code)) : Json :=
  match c with
  | .error f => fault f
  | .ok none => .null
  | .ok (some c) =>
    .object (codeFields c ++ [("len", .array [.ofNat c.size, .bool c.isEmpty]),
      ("encoded", orFault bytes c.encode), ("links", links pool c)])

def attributeOf (pool : Pool) (a : Attribute) : Json :=
  .array [index a.name, .ofOption ((pool.utf8 a.name).toOption.map text), bytes a.info]

def member (c : ClassDef) (m : Member) : Json :=
  .object [("access", index m.access), ("native", .bool m.isNative),
    ("name", orFault text (c.memberName m)), ("descriptor", orFault text (c.memberDescriptor m)),
    ("attributes", .array (m.attributes.map (attributeOf c.pool)))]

def classOf (input : List UInt8) (c : ClassDef) : Json :=
  .object [("version", .array [index c.major, index c.minor]), ("access", index c.access),
    ("name", orFault text c.name), ("dotted", orFault text c.dottedName),
    ("super", orFault (fun s => .ofOption (s.map text)) c.superName),
    ("interfaces", orFault (fun ns => .array (ns.map text)) c.interfaceNames),
    ("pool", pool c.pool), ("fields", .array (c.fields.map (member c))),
    ("methods", .array (c.methods.map (member c))),
    ("attributes", .array (c.attributes.map (attributeOf c.pool))),
    ("bodies", .array ((List.range c.methods.length).map fun i => body c.pool (c.body i))),
    ("identical", .bool (c.write.toOption == some input))]

def layoutName : Layout → String
  | .none => "None"
  | .byte => "Byte"
  | .short => "Short"
  | .constant8 => "Constant8"
  | .constant16 => "Constant16"
  | .slot => "Local"
  | .iinc => "Iinc"
  | .branch16 => "Branch16"
  | .branch32 => "Branch32"
  | .tableSwitch => "TableSwitch"
  | .lookupSwitch => "LookupSwitch"
  | .invokeInterface => "InvokeInterface"
  | .invokeDynamic => "InvokeDynamic"
  | .newArray => "NewArray"
  | .multiNewArray => "MultiANewArray"

def opcode (op : UInt8) : Json :=
  .array [.ofNat op.toNat, .ofOption ((Opcode.layout op).map (.text <| layoutName ·)),
    .text (Opcode.mnemonic op), .bool (Opcode.isReturn op), .bool (Opcode.isInvoke op),
    .bool (Opcode.isConditionalBranch op)]

end PluginGuard.Inspect
