import PluginGuard.ClassFile.Code.Edit
import PluginGuard.Text.Cut

/-!
# Injections

A declared edit to one method: a call to a hook in front of the body or before
every return, or the removal of every occurrence of an instruction pattern. A
body that already carries the edit is recognised by the run of hook calls at the
place where the edit would go.
-/
namespace PluginGuard

open ClassFile

/-- A static method without arguments and result. -/
structure Hook where
  owner : String
  name : String
  deriving DecidableEq, Repr

namespace Hook

def descriptor : String := "()V"

def display (h : Hook) : String := s!"{h.owner}.{h.name}{descriptor}"

def member (h : Hook) : MemberRef := ⟨h.owner, h.name, descriptor⟩

def callee? (pool : Pool) (i : Instruction) : Option MemberRef :=
  if i.opcode == Opcode.invokeStatic then i.member? pool else none

def calledBy (h : Hook) (pool : Pool) (i : Instruction) : Bool :=
  callee? pool i == some h.member

def siblingCalledBy (h : Hook) (pool : Pool) (i : Instruction) : Bool :=
  match callee? pool i with
  | some m => m.owner == h.owner && m.descriptor == descriptor
  | none => false

/-- The hook is called in the run of sibling calls that the list begins with. -/
def inRun (h : Hook) (pool : Pool) (is : List Instruction) : Bool :=
  (is.takeWhile (h.siblingCalledBy pool)).any (h.calledBy pool)

end Hook

inductive Position
  | begin
  | end_
  deriving DecidableEq, Repr

structure InstructionPattern where
  opcode : UInt8
  /-- The member that has to be accessed; none for any operand. -/
  member : Option MemberRef
  deriving DecidableEq, Repr

def InstructionPattern.accepts (p : InstructionPattern) (pool : Pool) (i : Instruction) : Bool :=
  i.opcode == p.opcode &&
    match p.member with
    | none => true
    | some m => i.member? pool == some m

def fitsFront (pool : Pool) : List InstructionPattern → List Instruction → Bool
  | [], _ => true
  | _ :: _, [] => false
  | p :: ps, i :: is => p.accepts pool i && fitsFront pool ps is

inductive Edit
  | call (hook : Hook) (position : Position)
  | excise (pattern : List InstructionPattern)
  deriving DecidableEq, Repr

structure MethodTarget where
  /-- Internal class name, with slashes. -/
  className : String
  name : String
  descriptor : String
  deriving DecidableEq, Repr

def internalName (name : String) : String := Text.swapChar '.' '/' name

def MethodTarget.of (className name descriptor : String) : MethodTarget :=
  ⟨internalName className, name, descriptor⟩

def MethodTarget.display (t : MethodTarget) : String := s!"{t.className}.{t.name}{t.descriptor}"

structure Injection where
  id : String
  target : MethodTarget
  edit : Edit
  deriving DecidableEq, Repr

inductive Outcome
  | changed (sites : Nat)
  | alreadyPresent
  | noMatch
  deriving DecidableEq, Repr

structure Workpiece where
  code : Code
  pool : Pool
  deriving DecidableEq

/-- What was done before a step fails stays done. -/
abbrev Editing (α : Type) := ExceptT Fault (StateM Workpiece) α

namespace Editing

def interned (step : Pool.Interning UInt16) : Editing UInt16 := fun w =>
  let (r, pool) := step.run.run w.pool
  (r, { w with pool })

def onCode (f : Code → Except Fault Code) : Editing Unit := fun w =>
  match f w.code with
  | .ok code => (.ok (), { w with code })
  | .error e => (.error e, w)

def atEach (f : Code → Nat → Except Fault Code) : List Nat → Editing Unit
  | [] => pure ()
  | i :: is => do
    onCode fun c => f c i
    atEach f is

end Editing

namespace Hook

/-- Adds the place of a return to those found, unless the calls directly before
it include the hook; the flag says whether they do. -/
def scanExit (h : Hook) (pool : Pool) (st : List Nat × Nat × Bool) (i : Instruction) :
    List Nat × Nat × Bool :=
  let (found, index, covered) := st
  (if Opcode.isReturn i.opcode && !covered then index :: found else found, index + 1,
    h.siblingCalledBy pool i && (covered || h.calledBy pool i))

/-- The returns that no call of the hook stands before, the last one first. -/
def pendingExits (h : Hook) (pool : Pool) (is : List Instruction) : List Nat :=
  (is.foldl (h.scanExit pool) ([], 0, false)).1

/-- The constant for the call is interned even if no call is inserted. -/
def insertCall (h : Hook) (position : Position) : Editing Outcome := do
  let method ← Editing.interned (Pool.internMember .method h.member)
  let ⟨code, pool⟩ ← get
  let call := [Instruction.invokeStatic method]
  match position with
  | .begin =>
    if h.inRun pool code.instructions then return .alreadyPresent
    else do
      Editing.onCode (·.prepend call)
      return .changed 1
  | .end_ =>
    if !code.instructions.any fun i => Opcode.isReturn i.opcode then return .noMatch
    else match h.pendingExits pool code.instructions with
      | [] => return .alreadyPresent
      | pending => do
        Editing.atEach (fun c i => c.insert i call) pending
        return .changed pending.length

end Hook

/-- Where the pattern fits, from the left and without overlap, the last place
first. The number counts the instructions still covered by the last place. -/
def occurrences (pool : Pool) (pattern : List InstructionPattern) :
    Nat → Nat → List Nat → List Instruction → List Nat
  | _, _, found, [] => found
  | skip + 1, index, found, _ :: is => occurrences pool pattern skip (index + 1) found is
  | 0, index, found, i :: is =>
    if fitsFront pool pattern (i :: is) then
      occurrences pool pattern (pattern.length - 1) (index + 1) (index :: found) is
    else occurrences pool pattern 0 (index + 1) found is

def excise (pattern : List InstructionPattern) : Editing Outcome := do
  let ⟨code, pool⟩ ← get
  if pattern.isEmpty then return .noMatch
  else match occurrences pool pattern 0 0 [] code.instructions with
    | [] => return .noMatch
    | places => do
      Editing.atEach (fun c i => c.remove i (i + pattern.length)) places
      return .changed places.length

def Edit.apply : Edit → Editing Outcome
  | .call hook position => hook.insertCall position
  | .excise pattern => PluginGuard.excise pattern

def Injection.apply (i : Injection) (code : Code) (pool : Pool) :
    Except Fault Outcome × Workpiece :=
  i.edit.apply.run.run ⟨code, pool⟩

end PluginGuard
