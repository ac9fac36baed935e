import PluginGuard.ClassFile.Code.Edit
import PluginGuard.ClassFile.Code.Encode

/-!
# Classes

A whole class: its pool, its own and its supertypes' names, members and
attributes. Attribute contents other than bodies stay bytes, so reading and
writing again gives the same bytes back.
-/
namespace PluginGuard.ClassFile

structure Attribute where
  name : UInt16
  info : List UInt8
  deriving DecidableEq

structure Member where
  access : UInt16
  name : UInt16
  descriptor : UInt16
  attributes : List Attribute
  deriving DecidableEq

structure ClassDef where
  minor : UInt16
  major : UInt16
  pool : Pool
  access : UInt16
  thisClass : UInt16
  superClass : UInt16
  interfaces : List UInt16
  fields : List Member
  methods : List Member
  attributes : List Attribute
  deriving DecidableEq

def Access.native : UInt16 := 0x0100

def isNative (access : UInt16) : Bool := access &&& Access.native != 0

def Member.isNative (m : Member) : Bool := ClassFile.isNative m.access

open Reader

def Attribute.read : Reader Attribute := do
  let name ← half
  let length ← word
  return ⟨name, ← bytes length.toNat⟩

def Attribute.write (a : Attribute) : Except Fault (List UInt8) :=
  let length := a.info.length
  if length < 4294967296 then .ok (Put.half a.name ++ Put.word (UInt32.ofNat length) ++ a.info)
  else .error (.malformed .attributeSize)

def writeAttributes (as : List Attribute) : Except Fault (List UInt8) := do
  let count ← Put.count as.length "attributes"
  return count ++ (← as.mapM Attribute.write).flatten

def Member.read : Reader Member := do
  let access ← half
  let name ← half
  let descriptor ← half
  return ⟨access, name, descriptor, ← counted Attribute.read⟩

def Member.write (m : Member) : Except Fault (List UInt8) := do
  return Put.half m.access ++ Put.half m.name ++ Put.half m.descriptor ++
    (← writeAttributes m.attributes)

def writeMembers (ms : List Member) : Except Fault (List UInt8) := do
  let count ← Put.count ms.length "members"
  return count ++ (← ms.mapM Member.write).flatten

namespace ClassDef

def magic : UInt32 := 0xCAFEBABE

def name (c : ClassDef) : Except Fault String := c.pool.className c.thisClass

def dottedName (c : ClassDef) : Except Fault String :=
  c.name.map fun s => String.ofList (s.toList.map fun ch => if ch = '/' then '.' else ch)

def superName (c : ClassDef) : Except Fault (Option String) :=
  if c.superClass = 0 then .ok none else (c.pool.className c.superClass).map some

def interfaceNames (c : ClassDef) : Except Fault (List String) :=
  c.interfaces.mapM c.pool.className

def read : Reader ClassDef := do
  let found ← word
  if found != magic then fail (.badMagic found)
  else
    let minor ← half
    let major ← half
    let pool ← Pool.read
    let access ← half
    let thisClass ← half
    let superClass ← half
    let interfaces ← counted half
    let fields ← counted Member.read
    let methods ← counted Member.read
    let attributes ← counted Attribute.read
    let c ← get
    if c.atEnd then
      return ⟨minor, major, pool, access, thisClass, superClass, interfaces, fields, methods,
        attributes⟩
    else fail (.malformed (.trailingClass c.remaining))

/-- A class whose own name does not resolve is refused. -/
def parse (bytes : List UInt8) : Except Fault ClassDef := do
  let c ← runOn read bytes
  let _ ← c.name
  return c

def write (c : ClassDef) : Except Fault (List UInt8) := do
  let pool ← c.pool.write
  let interfaceCount ← Put.count c.interfaces.length "interfaces"
  let fields ← writeMembers c.fields
  let methods ← writeMembers c.methods
  let attributes ← writeAttributes c.attributes
  return Put.word magic ++ Put.half c.minor ++ Put.half c.major ++ pool ++ Put.half c.access ++
    Put.half c.thisClass ++ Put.half c.superClass ++ interfaceCount ++
    c.interfaces.flatMap Put.half ++ fields ++ methods ++ attributes

def memberName (c : ClassDef) (m : Member) : Except Fault String := c.pool.utf8 m.name

def memberDescriptor (c : ClassDef) (m : Member) : Except Fault String := c.pool.utf8 m.descriptor

def findMethod? (c : ClassDef) (name descriptor : String) : Option Nat :=
  c.methods.findIdx? fun m =>
    (c.memberName m).toOption == some name && (c.memberDescriptor m).toOption == some descriptor

def codeIndex? (pool : Pool) (m : Member) : Option Nat :=
  m.attributes.findIdx? fun a => (pool.utf8 a.name).toOption == some "Code"

def body (c : ClassDef) (method : Nat) : Except Fault (Option Code) :=
  match c.methods[method]? with
  | none => .ok none
  | some m =>
    match (codeIndex? c.pool m).bind (m.attributes[·]?) with
    | some a => (Code.decode a.info c.pool).map some
    | none => .ok none

def setInfo (info : List UInt8) (index : Nat) (m : Member) : Member :=
  { m with attributes := m.attributes.modify index fun a => { a with info } }

def setEncodedBody (c : ClassDef) (method : Nat) (info : List UInt8) : Except Fault ClassDef :=
  match c.methods[method]? with
  | none => .error (.invalidEdit (.noMethod method))
  | some m =>
    match codeIndex? c.pool m with
    | some index => .ok { c with methods := c.methods.set method (setInfo info index m) }
    | none =>
      match (Pool.internUtf8 "Code").run.run c.pool with
      | (.error e, _) => .error e
      | (.ok name, pool) =>
        let m' := { m with attributes := m.attributes ++ [⟨name, info⟩] }
        .ok { c with pool, methods := c.methods.set method m' }

def setBody (c : ClassDef) (method : Nat) (code : Code) : Except Fault ClassDef := do
  c.setEncodedBody method (← code.encode)

end ClassDef

end PluginGuard.ClassFile
