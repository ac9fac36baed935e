import PluginGuard.ClassFile.Code.Encode
import PluginGuard.Digest
import PluginGuard.Json.Fields

/-!
# Bodies and pools for inspection

JSON forms of constants, instructions and bodies. Long byte strings are shown by
their length and digest, long bodies by their two ends. Instructions and bodies
can also be given in this form; an index may then name the result of an earlier
interning step.
-/
namespace PluginGuard.Inspect

open ClassFile

def hex (bytes : List UInt8) : Json := .text (Text.Hex.encode bytes)

def shownBytes : Nat := 4096

def bytes (bs : List UInt8) : Json :=
  let n := bs.length
  if n ≤ shownBytes then hex bs
  else .object [("len", .ofNat n), ("sha256", .text (Digest.Sha256.hex bs))]

def text (s : String) : Json :=
  if s.utf8ByteSize ≤ shownBytes then .text s else bytes (Text.Utf8.encode s)

def tagged (tag : String) (rest : List Json) : Json := .array (.text tag :: rest)

def index (i : UInt16) : Json := .ofNat i.toNat

def memberTag : MemberKind → String
  | .field => "field"
  | .method => "method"
  | .interfaceMethod => "imethod"

def constant : Constant → Json
  | .utf8 raw t => tagged "utf8" [bytes raw, text t]
  | .int b => tagged "int" [.ofNat b.toNat]
  | .float b => tagged "float" [.ofNat b.toNat]
  | .long b => tagged "long" [.text (toString b.toNat)]
  | .double b => tagged "double" [.text (toString b.toNat)]
  | .classRef i => tagged "class" [index i]
  | .string i => tagged "string" [index i]
  | .member kind a b => tagged (memberTag kind) [index a, index b]
  | .nameAndType a b => tagged "nat" [index a, index b]
  | .handle k r => tagged "handle" [.ofNat k.toNat, index r]
  | .methodType i => tagged "mtype" [index i]
  | .dynamic a b => tagged "dynamic" [index a, index b]
  | .invokeDynamic a b => tagged "indy" [index a, index b]
  | .moduleRef i => tagged "module" [index i]
  | .packageRef i => tagged "package" [index i]

def shownEntries : Nat := 300

def lastEntries : Nat := 16

def pool (p : Pool) : Json :=
  let es := p.entries
  let shown := fun (es : List (Nat × Constant)) =>
    Json.array (es.map fun (i, k) => .array [.ofNat i, constant k])
  .object [("len", .ofNat p.size),
    if es.length ≤ shownEntries then ("entries", shown es)
    else ("last", shown (es.drop (es.length - lastEntries)))]

def operand : Operand → List Json
  | .none => []
  | .byte v => [.text "byte", .ofInt v.toInt]
  | .short v => [.text "short", .ofInt v.toInt]
  | .constant i => [.text "const", index i]
  | .slot i wide => [.text "local", index i, .bool wide]
  | .iinc i delta wide => [.text "iinc", index i, .ofInt delta.toInt, .bool wide]
  | .branch t => [.text "branch", .ofNat t]
  | .table d low ts => [.text "table", .ofNat d, .ofInt low.toInt, .ofNats ts]
  | .lookup d ps =>
    [.text "lookup", .ofNat d,
      .array (ps.map fun (key, t) => .array [.ofInt key.toInt, .ofNat t])]
  | .invokeInterface i count => [.text "iface", index i, .ofNat count.toNat]
  | .invokeDynamic i => [.text "indy", index i]
  | .newArray kind => [.text "newarray", .ofNat kind.toNat]
  | .multiNewArray i dimensions => [.text "multi", index i, .ofNat dimensions.toNat]

def instruction (i : Instruction) : Json :=
  .array (.ofNat i.opcode.toNat :: operand i.operand)

def verification : Verification → Json
  | .top => .text "top"
  | .int => .text "int"
  | .float => .text "float"
  | .double => .text "double"
  | .long => .text "long"
  | .null => .text "null"
  | .uninitializedThis => .text "this"
  | .object i => tagged "object" [index i]
  | .uninitialized origin => tagged "uninit" [.ofNat origin]

def frameKind : FrameKind → List Json
  | .same => [.text "same"]
  | .sameWithStack t => [.text "same1", verification t]
  | .chop n => [.text "chop", .ofNat n.toNat]
  | .append ls => [.text "append", .array (ls.map verification)]
  | .full ls ss => [.text "full", .array (ls.map verification), .array (ss.map verification)]

def codeAttribute : CodeAttribute → Json
  | .lines name es =>
    .object [("lines", index name), ("entries", .array (es.map fun e =>
      .ofNats [e.at_, e.line.toNat]))]
  | .locals name vs =>
    .object [("locals", index name), ("entries", .array (vs.map fun v =>
      .ofNats [v.start, v.stop, v.name.toNat, v.descriptor.toNat, v.slot.toNat]))]
  | .stackMap name fs =>
    .object [("stackmap", index name), ("frames", .array (fs.map fun f =>
      .array (.ofNat f.target :: frameKind f.kind)))]
  | .raw name info => .object [("raw", index name), ("info", bytes info)]

def shownInstructions : Nat := 400

def endInstructions : Nat := 8

def instructions (is : List Instruction) : Json :=
  let n := is.length
  let shown := fun (is : List Instruction) => Json.array (is.map instruction)
  if n ≤ shownInstructions then shown is
  else .object [("count", .ofNat n), ("first", shown (is.take endInstructions)),
    ("last", shown (is.drop (n - endInstructions)))]

def codeFields (c : Code) : List (String × Json) :=
  [("max_stack", index c.maxStack), ("max_locals", index c.maxLocals),
    ("instructions", instructions c.instructions),
    ("handlers", .array (c.handlers.map fun h =>
      .ofNats [h.start, h.stop, h.entry, h.catchType.toNat])),
    ("attributes", .array (c.attributes.map codeAttribute))]

def code (c : Code) : Json := .object (codeFields c)

/-! ### Given bodies -/

def half (j : Json) : UInt16 := UInt16.ofNat j.asNat

def octet (j : Json) : UInt8 := UInt8.ofNat j.asNat

def givenIndex (results : List UInt16) (j : Json) : UInt16 :=
  match j.present? "pool" with
  | some step => results.getD step.asNat 0
  | none => half j

def givenOperand (at_ : Json → UInt16) (xs : Nat → Json) : Option Operand :=
  match (xs 1).asText with
  | "byte" => some (.byte (Int8.ofInt (xs 2).asInt))
  | "short" => some (.short (Int16.ofInt (xs 2).asInt))
  | "const" => some (.constant (at_ (xs 2)))
  | "local" => some (.slot (at_ (xs 2)) (xs 3).asBool)
  | "iinc" => some (.iinc (at_ (xs 2)) (Int16.ofInt (xs 3).asInt) (xs 4).asBool)
  | "branch" => some (.branch (xs 2).asNat)
  | "table" =>
    some (.table (xs 2).asNat (Int32.ofInt (xs 3).asInt) ((xs 4).asList.map Json.asNat))
  | "lookup" =>
    some (.lookup (xs 2).asNat ((xs 3).asList.map fun p =>
      (Int32.ofInt (p.item 0).asInt, (p.item 1).asNat)))
  | "iface" => some (.invokeInterface (at_ (xs 2)) (octet (xs 3)))
  | "indy" => some (.invokeDynamic (at_ (xs 2)))
  | "newarray" => some (.newArray (octet (xs 2)))
  | "multi" => some (.multiNewArray (at_ (xs 2)) (octet (xs 3)))
  | _ => none

def givenInstruction (results : List UInt16) (j : Json) : Instruction :=
  match (j.item 1).asText with
  | "ldc" => .loadConstant (givenIndex results (j.item 2))
  | "static" => .invokeStatic (givenIndex results (j.item 2))
  | _ => ⟨octet (j.item 0), (givenOperand (givenIndex results) j.item).getD .none⟩

def givenInstructions (results : List UInt16) (j : Json) : List Instruction :=
  j.asList.flatMap fun i =>
    match i.present? "rep" with
    | some repeated => List.replicate (i.natAt "n") (givenInstruction results repeated)
    | none => [givenInstruction results i]

def givenVerification (results : List UInt16) (j : Json) : Verification :=
  match j.asText, (j.item 0).asText with
  | "int", _ => .int
  | "float", _ => .float
  | "double", _ => .double
  | "long", _ => .long
  | "null", _ => .null
  | "this", _ => .uninitializedThis
  | _, "object" => .object (givenIndex results (j.item 1))
  | _, "uninit" => .uninitialized (j.item 1).asNat
  | _, _ => .top

def givenFrame (results : List UInt16) (j : Json) : Frame :=
  let types := fun k => (j.item k).asList.map (givenVerification results)
  ⟨(j.item 0).asNat, match (j.item 1).asText with
    | "same1" => .sameWithStack (givenVerification results (j.item 2))
    | "chop" => .chop (octet (j.item 2))
    | "append" => .append (types 2)
    | "full" => .full (types 2) (types 3)
    | _ => .same⟩

def givenAttribute (bytesOf : Json → List UInt8) (results : List UInt16) (j : Json) :
    CodeAttribute :=
  let at_ := givenIndex results
  let rows := j.listAt "entries"
  match j.present? "lines", j.present? "locals", j.present? "stackmap" with
  | some name, _, _ => .lines (at_ name) (rows.map fun r => ⟨(r.item 0).asNat, half (r.item 1)⟩)
  | _, some name, _ => .locals (at_ name) (rows.map fun r =>
      ⟨(r.item 0).asNat, (r.item 1).asNat, at_ (r.item 2), at_ (r.item 3), half (r.item 4)⟩)
  | _, _, some name => .stackMap (at_ name) ((j.listAt "frames").map (givenFrame results))
  | _, _, _ => .raw (at_ (j.get "raw")) (bytesOf (j.get "info"))

def givenCode (bytesOf : Json → List UInt8) (results : List UInt16) (j : Json) : Code where
  maxStack := half (j.get "max_stack")
  maxLocals := half (j.get "max_locals")
  instructions := givenInstructions results (j.get "insns")
  handlers := (j.listAt "handlers").map fun h =>
    ⟨(h.item 0).asNat, (h.item 1).asNat, (h.item 2).asNat, givenIndex results (h.item 3)⟩
  attributes := (j.listAt "attributes").map (givenAttribute bytesOf results)

end PluginGuard.Inspect
