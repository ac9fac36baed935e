import PluginGuard.ClassFile.Class
import PluginGuard.Hook.Builtin

/-!
# Instrumenting classes

A transformer holds injections and remembers which of them have changed a class.
A class that no injection names comes back untouched, whatever its bytes are.
-/
namespace PluginGuard

open ClassFile

inductive InstrumentError
  | parse (className : String) (cause : Fault)
  | edit (injection className method : String) (cause : Fault)
  | serialize (className : String) (cause : Fault)
  | nameMismatch (expected actual : String)
  deriving DecidableEq, Repr

def InstrumentError.message : InstrumentError → String
  | .parse className cause => s!"cannot parse targeted class {className}: {cause.message}"
  | .edit injection className method cause =>
    s!"injection '{injection}' failed on {className}.{method}: {cause.message}"
  | .serialize className cause => s!"cannot re-serialize {className}: {cause.message}"
  | .nameMismatch expected actual => s!"class bytes define {actual}, expected {expected}"

structure Installed where
  injection : Injection
  applied : Bool
  deriving DecidableEq, Repr

structure Transformer where
  installed : List Installed
  deriving DecidableEq, Repr

inductive Instrumented
  | untouched
  | changed (bytes : List UInt8)
  deriving DecidableEq

def Instrumented.bytes (input : List UInt8) : Instrumented → List UInt8
  | .untouched => input
  | .changed bytes => bytes

/-- The class after the injection if that changed it. An absent method or one
without a body is left alone. -/
def Injection.applyTo (i : Injection) (c : ClassDef) : Except Fault (Option ClassDef × Pool) :=
  match c.findMethod? i.target.name i.target.descriptor with
  | none => .ok (none, c.pool)
  | some method => do
    match (← c.body method) with
    | none => return (none, c.pool)
    | some code =>
      let (outcome, w) := i.apply code c.pool
      match (← outcome) with
      | .changed _ => do
        let c' ← ({ c with pool := w.pool }).setBody method w.code
        return (some c', c'.pool)
      | _ => return (none, w.pool)

def InstrumentError.cause? : InstrumentError → Option Fault
  | .parse _ cause => some cause
  | .edit _ _ _ cause => some cause
  | .serialize _ cause => some cause
  | .nameMismatch .. => none

def InstrumentError.trace (e : InstrumentError) : String :=
  ": ".intercalate (e.message :: (e.cause?.map Fault.message).toList)

namespace Transformer

def ofList (is : List Injection) : Transformer := ⟨is.map (⟨·, false⟩)⟩

def injections (t : Transformer) : List Injection := t.installed.map (·.injection)

def inert (t : Transformer) : List Injection :=
  (t.installed.filter (!·.applied)).map (·.injection)

def targets (t : Transformer) (name : String) : Bool :=
  t.installed.any fun e => e.injection.target.className == internalName name

structure Progress where
  cls : ClassDef
  changed : Bool

def editError (i : Injection) (cause : Fault) : InstrumentError :=
  .edit i.id i.target.className s!"{i.target.name}{i.target.descriptor}" cause

def applyAll (internal : String) :
    List Installed → Progress → Except InstrumentError Progress × List Installed
  | [], p => (.ok p, [])
  | e :: es, p =>
    if e.injection.target.className == internal then
      match e.injection.applyTo p.cls with
      | .error cause => (.error (editError e.injection cause), e :: es)
      | .ok (none, pool) =>
        let (r, es') := applyAll internal es { p with cls := { p.cls with pool } }
        (r, e :: es')
      | .ok (some cls, _) =>
        let (r, es') := applyAll internal es ⟨cls, true⟩
        (r, { e with applied := true } :: es')
    else
      let (r, es') := applyAll internal es p
      (r, e :: es')

def parseNamed (internal : String) (bytes : List UInt8) : Except InstrumentError ClassDef := do
  let c ← (ClassDef.parse bytes).mapError (.parse internal)
  let actual ← c.name.mapError (.parse internal)
  if actual = internal then return c else throw (.nameMismatch internal actual)

def serialize (internal : String) (p : Progress) : Except InstrumentError Instrumented :=
  if p.changed then (p.cls.write.mapError (.serialize internal)).map .changed
  else .ok .untouched

def instrument (t : Transformer) (name : String) (bytes : List UInt8) :
    Except InstrumentError Instrumented × Transformer :=
  let internal := internalName name
  if t.targets name then
    match parseNamed internal bytes with
    | .error e => (.error e, t)
    | .ok c =>
      let (r, installed) := applyAll internal t.installed ⟨c, false⟩
      (r.bind (serialize internal), ⟨installed⟩)
  else (.ok .untouched, t)

end Transformer

inductive SelfNamedError
  | unreadableName (cause : Fault)
  | instrument (name : String) (cause : InstrumentError)
  deriving DecidableEq, Repr

def SelfNamedError.message : SelfNamedError → String
  | .unreadableName cause => s!"read class name: {cause.message}"
  | .instrument name cause => s!"rewrite {name}: {cause.trace}"

def Transformer.instrumentSelfNamed (t : Transformer) (bytes : List UInt8) :
    Except SelfNamedError (String × Instrumented) × Transformer :=
  match (ClassDef.parse bytes).bind ClassDef.name with
  | .error cause => (.error (.unreadableName cause), t)
  | .ok name =>
    let (r, t') := t.instrument name bytes
    ((r.mapError (.instrument name)).map fun out => (name, out), t')

end PluginGuard
