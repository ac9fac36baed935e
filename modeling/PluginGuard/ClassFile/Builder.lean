import PluginGuard.ClassFile.Class

/-!
# Building classes

A class from names: its own, its supertypes', its fields and methods. Constants
that bodies refer to are interned into the builder's pool beforehand.
-/
namespace PluginGuard.ClassFile

structure MethodSketch where
  access : UInt16
  name : String
  descriptor : String
  code : Option Code

structure FieldSketch where
  access : UInt16
  name : String
  descriptor : String

structure Builder where
  pool : Pool
  name : String
  superName : String
  interfaces : List String
  fields : List FieldSketch
  methods : List MethodSketch

namespace Builder

def ofName (name : String) : Builder := ⟨.empty, name, "java/lang/Object", [], [], []⟩

def majorVersion : UInt16 := 52

/-- Public, with the modern call of supertype methods. -/
def access : UInt16 := 0x0021

def addField (f : FieldSketch) : Pool.Interning Member := do
  let name ← Pool.internUtf8 f.name
  return ⟨f.access, name, ← Pool.internUtf8 f.descriptor, []⟩

def addCode (code : Code) : Pool.Interning Attribute := do
  let name ← Pool.internUtf8 "Code"
  match code.encode with
  | .ok info => return ⟨name, info⟩
  | .error e => throw e

def addMethod (m : MethodSketch) : Pool.Interning Member := do
  let attributes ← match m.code with
    | some code => do pure [← addCode code]
    | none => pure []
  let name ← Pool.internUtf8 m.name
  return ⟨m.access, name, ← Pool.internUtf8 m.descriptor, attributes⟩

def assemble (b : Builder) : Pool.Interning ClassDef := do
  let thisClass ← Pool.internClass b.name
  let superClass ← Pool.internClass b.superName
  let interfaces ← b.interfaces.mapM Pool.internClass
  let fields ← b.fields.mapM addField
  let methods ← b.methods.mapM addMethod
  return ⟨0, majorVersion, ← get, access, thisClass, superClass, interfaces, fields, methods, []⟩

def build (b : Builder) : Except Fault (List UInt8) :=
  match b.assemble.run.run b.pool with
  | (.ok c, _) => c.write
  | (.error e, _) => .error e

end Builder

end PluginGuard.ClassFile
