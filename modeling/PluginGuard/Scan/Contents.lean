import PluginGuard.Archive
import PluginGuard.ClassFile.Class

/-!
# The classes of a plugin

An archive's classes as scanners see them, with the names of their members and
the bodies of their methods. An entry that is no class is set aside with the
reason.
-/
namespace PluginGuard.Scan

open ClassFile

structure FieldView where
  access : UInt16
  name : String
  descriptor : String
  deriving DecidableEq

structure MethodView where
  access : UInt16
  name : String
  descriptor : String
  /-- No body where there is none, or where it cannot be decoded. -/
  body : Except Fault (Option Code)

namespace MethodView

def isNative (m : MethodView) : Bool := ClassFile.isNative m.access

def instructions (m : MethodView) : List Instruction :=
  match m.body with
  | .ok (some code) => code.instructions
  | _ => []

def bodyFault? (m : MethodView) : Option Fault :=
  match m.body with
  | .ok _ => none
  | .error f => some f

end MethodView

structure ClassView where
  entry : String
  /-- The dotted name that the class gives itself. -/
  name : String
  definition : ClassDef
  fields : List FieldView
  methods : List MethodView

namespace ClassView

def memberNames (c : ClassDef) (m : Member) : Except Fault (String × String) := do
  return (← c.memberName m, ← c.memberDescriptor m)

def ofClass (entry : String) (c : ClassDef) : Except Fault ClassView := do
  let name ← c.dottedName
  let fields ← c.fields.mapM fun m => do
    let (name, descriptor) ← memberNames c m
    return FieldView.mk m.access name descriptor
  let methods ← c.methods.zipIdx.mapM fun (m, i) => do
    let (name, descriptor) ← memberNames c m
    return MethodView.mk m.access name descriptor (c.body i)
  return ⟨entry, name, c, fields, methods⟩

def parse (e : ClassEntry) : Except Fault ClassView := do ofClass e.entry (← ClassDef.parse e.bytes)

def strings (c : ClassView) : List String := c.definition.pool.strings

def member? (c : ClassView) (i : Instruction) : Option MemberRef := i.member? c.definition.pool

def loadedString? (c : ClassView) (i : Instruction) : Option String :=
  if i.opcode == Opcode.ldc || i.opcode == Opcode.ldcWide then
    i.constant?.bind fun k => (c.definition.pool.string k).toOption
  else none

def calls (c : ClassView) (m : MethodView) : List (Nat × MemberRef) :=
  m.instructions.zipIdx.filterMap fun (i, place) =>
    if Opcode.isInvoke i.opcode then (c.member? i).map fun r => (place, r) else none

def loadedStrings (c : ClassView) (m : MethodView) : List String :=
  m.instructions.filterMap c.loadedString?

def site (c : ClassView) (m : MethodView) : String := s!"{c.name}#{m.name}{m.descriptor}"

end ClassView

structure Contents where
  plugin : String
  classes : List ClassView
  unparsed : List Unread

namespace Contents

def ofArchive (a : Archive) : Contents :=
  let parsed := a.classes.map fun e => (e, ClassView.parse e)
  { plugin := a.displayName
    classes := parsed.filterMap fun (_, r) => r.toOption
    unparsed := a.unreadable ++ parsed.filterMap fun (e, r) =>
      match r with
      | .ok _ => none
      | .error f => some ⟨e.entry, f.message⟩ }

end Contents

end PluginGuard.Scan
