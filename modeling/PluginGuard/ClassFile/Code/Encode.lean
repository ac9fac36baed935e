import PluginGuard.ClassFile.Code.Layout

/-!
# Writing method bodies

Instructions go out in the shortest form that holds their operands, except that
a form read as wide stays wide. References become the offsets of the layout.
-/
namespace PluginGuard.ClassFile

namespace Instruction

def longOpcode (op : UInt8) : UInt8 :=
  if op == Opcode.goto then Opcode.gotoWide
  else if op == Opcode.jsr then Opcode.jsrWide
  else op

def emit (i : Instruction) (index : Nat) (l : BodyLayout) (widened : Bool) :
    Except Fault (List UInt8) :=
  let pc := l.offset index
  let delta (target : Nat) : Int := (l.offset target : Int) - (pc : Int)
  match i.operand with
  | .none => .ok [i.opcode]
  | .byte v => .ok [i.opcode, v.toUInt8]
  | .newArray kind => .ok [i.opcode, kind]
  | .short v => .ok (i.opcode :: Put.half v.toUInt16)
  | .constant k =>
    if i.opcode == Opcode.ldc && fitsByte k then .ok [Opcode.ldc, k.toUInt8]
    else .ok ((if i.opcode == Opcode.ldc then Opcode.ldcWide else i.opcode) :: Put.half k)
  | .slot k wide =>
    if wide || !fitsByte k then .ok (Opcode.wide :: i.opcode :: Put.half k)
    else .ok [i.opcode, k.toUInt8]
  | .iinc k d wide =>
    if wide || !fitsByte k || !fitsSignedByte d then
      .ok (Opcode.wide :: i.opcode :: Put.half k ++ Put.half d.toUInt16)
    else .ok [i.opcode, k.toUInt8, d.toInt8.toUInt8]
  | .branch target =>
    if i.isLong widened then .ok (longOpcode i.opcode :: Put.signedWord (delta target))
    else if fitsSignedHalf (delta target) then
      .ok (i.opcode :: Put.half (Int16.ofInt (delta target)).toUInt16)
    else .error (.branchOverflow index)
  | .table otherwise low targets =>
    .ok (i.opcode :: List.replicate (switchPadding pc) 0 ++ Put.signedWord (delta otherwise) ++
      Put.signedWord low.toInt ++ Put.signedWord (low.toInt + targets.length - 1) ++
      targets.flatMap fun t => Put.signedWord (delta t))
  | .lookup otherwise pairs =>
    .ok (i.opcode :: List.replicate (switchPadding pc) 0 ++ Put.signedWord (delta otherwise) ++
      Put.signedWord pairs.length ++
      pairs.flatMap fun (key, t) => Put.signedWord key.toInt ++ Put.signedWord (delta t))
  | .invokeInterface k count => .ok (i.opcode :: Put.half k ++ [count, 0])
  | .invokeDynamic k => .ok (i.opcode :: Put.half k ++ [0, 0])
  | .multiNewArray k dimensions => .ok (i.opcode :: Put.half k ++ [dimensions])

end Instruction

def Handler.write (l : BodyLayout) (h : Handler) : List UInt8 :=
  Put.lowHalf (l.offset h.start) ++ Put.lowHalf (l.offset h.stop) ++
    Put.lowHalf (l.offset h.entry) ++ Put.half h.catchType

def LineEntry.write (l : BodyLayout) (e : LineEntry) : List UInt8 :=
  Put.lowHalf (l.offset e.at_) ++ Put.half e.line

def LocalVariable.write (l : BodyLayout) (v : LocalVariable) : List UInt8 :=
  let start := UInt16.ofNat (l.offset v.start)
  let stop := UInt16.ofNat (l.offset v.stop)
  Put.half start ++ Put.half (stop - start) ++
    Put.half v.name ++ Put.half v.descriptor ++ Put.half v.slot

def Verification.write (l : BodyLayout) : Verification → List UInt8
  | .top => [0]
  | .int => [1]
  | .float => [2]
  | .double => [3]
  | .long => [4]
  | .null => [5]
  | .uninitializedThis => [6]
  | .object index => 7 :: Put.half index
  | .uninitialized origin => 8 :: Put.lowHalf (l.offset origin)

def writeTypes (l : BodyLayout) (ts : List Verification) : List UInt8 :=
  ts.flatMap (Verification.write l)

def FrameKind.write (l : BodyLayout) (delta : Nat) : FrameKind → Except Fault (List UInt8)
  | .same =>
    if delta ≤ 63 then .ok [UInt8.ofNat delta] else .ok (251 :: Put.lowHalf delta)
  | .sameWithStack t =>
    if delta ≤ 63 then .ok (UInt8.ofNat (64 + delta) :: t.write l)
    else .ok (247 :: Put.lowHalf delta ++ t.write l)
  | .chop count => .ok ((251 - count) :: Put.lowHalf delta)
  | .append locals =>
    .ok (UInt8.ofNat (251 + locals.length) :: Put.lowHalf delta ++ writeTypes l locals)
  | .full locals stack => do
    let localCount ← Put.count locals.length "frame locals"
    let stackCount ← Put.count stack.length "frame stack"
    return 255 :: Put.lowHalf delta ++ localCount ++ writeTypes l locals ++ stackCount ++
      writeTypes l stack

def frameDelta (previous : Option Nat) (pc : Nat) : Except Fault Nat :=
  match previous with
  | none => .ok pc
  | some p =>
    if p < pc then .ok (pc - p - 1) else .error (.invalidEdit .framesOutOfOrder)

def Frame.writeInto (l : BodyLayout) :
    Option Nat → List (List UInt8) → List Frame → Except Fault (List UInt8)
  | _, acc, [] => .ok acc.reverse.flatten
  | previous, acc, f :: fs =>
    let pc := l.offset f.target
    match frameDelta previous pc with
    | .error e => .error e
    | .ok delta =>
      if delta < 65536 then
        match f.kind.write l delta with
        | .error e => .error e
        | .ok bytes => Frame.writeInto l (some pc) (bytes :: acc) fs
      else .error (.malformed (.frameDelta delta))

def CodeAttribute.name : CodeAttribute → UInt16
  | .lines n _ | .locals n _ | .stackMap n _ | .raw n _ => n

def CodeAttribute.info (l : BodyLayout) : CodeAttribute → Except Fault (List UInt8)
  | .lines _ entries => do
    return (← Put.count entries.length "line numbers") ++ entries.flatMap (LineEntry.write l)
  | .locals _ entries => do
    return (← Put.count entries.length "local variables") ++
      entries.flatMap (LocalVariable.write l)
  | .stackMap _ frames => do
    let count ← Put.count frames.length "stack map frames"
    return count ++ (← Frame.writeInto l none [] frames)
  | .raw _ info => .ok info

def CodeAttribute.write (l : BodyLayout) (a : CodeAttribute) : Except Fault (List UInt8) := do
  let info ← a.info l
  return Put.half a.name ++ Put.word (UInt32.ofNat info.length) ++ info

namespace Code

def emitAll (c : Code) (l : BodyLayout) : Except Fault (List (List UInt8)) :=
  (c.instructions.zip l.widened).zipIdx.mapM fun ((i, widened), index) => i.emit index l widened

def encode (c : Code) : Except Fault (List UInt8) := do
  let l ← c.layout
  let length := l.offset c.size
  let body ← c.emitAll l
  let handlerCount ← Put.count c.handlers.length "exception handlers"
  let attributeCount ← Put.count c.attributes.length "code attributes"
  let attributes ← c.attributes.mapM (CodeAttribute.write l)
  return Put.half c.maxStack ++ Put.half c.maxLocals ++ Put.word (UInt32.ofNat length) ++
    body.flatten ++ handlerCount ++ c.handlers.flatMap (Handler.write l) ++
    attributeCount ++ attributes.flatten

end Code

end PluginGuard.ClassFile
