import PluginGuard.Hook.Transformer

/-!
# Defined classes

The table of classes that have a definition. A definition, once stored, is never
replaced. Defining a class looks it up, instruments it, and inserts the result
unless another definition was stored in between.
-/
namespace PluginGuard

structure LoadedClass where
  /-- Internal name. -/
  name : String
  bytes : List UInt8
  instrumented : Bool
  deriving DecidableEq

structure LoadedClasses where
  classes : List LoadedClass

namespace LoadedClasses

def empty : LoadedClasses := ⟨[]⟩

def isEmpty (l : LoadedClasses) : Bool := l.classes.isEmpty

def size (l : LoadedClasses) : Nat := l.classes.length

def find? (l : LoadedClasses) (name : String) : Option LoadedClass :=
  l.classes.find? (·.name == name)

/-- The name may be dotted. -/
def get? (l : LoadedClasses) (name : String) : Option LoadedClass := l.find? (internalName name)

def insertIfAbsent (l : LoadedClasses) (c : LoadedClass) :
    LoadedClass × Bool × LoadedClasses :=
  match l.find? c.name with
  | some existing => (existing, false, l)
  | none => (c, true, ⟨l.classes ++ [c]⟩)

def definition (name : String) (input : List UInt8) (r : Instrumented) : LoadedClass :=
  let bytes := r.bytes input
  ⟨internalName name, bytes, bytes != input⟩

def define (l : LoadedClasses) (t : Transformer) (name : String) (input : List UInt8) :
    Except InstrumentError LoadedClass × Transformer × LoadedClasses :=
  match l.get? name with
  | some existing => (.ok existing, t, l)
  | none =>
    match t.instrument name input with
    | (.error e, t') => (.error e, t', l)
    | (.ok r, t') =>
      let (stored, _, l') := l.insertIfAbsent (definition name input r)
      (.ok stored, t', l')

end LoadedClasses

end PluginGuard
