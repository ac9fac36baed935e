import PluginGuard.ClassFile.Code.Decode

/-!
# Editing method bodies

Instructions are spliced in or taken out, and every reference is moved along. An
edit either yields the new body or is refused; a refused edit leaves nothing
behind.
-/
namespace PluginGuard.ClassFile

/-- Where each reference goes; none for a reference that would be stranded. -/
abbrev Move := Nat → Option Nat

def Move.apply (m : Move) (r : Nat) : Except Fault Nat :=
  match m r with
  | some r' => .ok r'
  | none => .error (.invalidEdit (.stranded r))

/-- All instructions are looked at; of several stranded targets the last one is
reported. -/
def relocateInstructions (m : Move) (is : List Instruction) : Except Fault (List Instruction) :=
  match ((is.flatMap Instruction.targets).filter fun t => (m t).isNone).getLast? with
  | some r => .error (.invalidEdit (.stranded r))
  | none => .ok (is.map (·.mapTargets fun t => (m t).getD t))

def Handler.relocate (m : Move) (h : Handler) : Except Fault Handler := do
  let start ← m.apply h.start
  let stop ← m.apply h.stop
  let entry ← m.apply h.entry
  return ⟨start, stop, entry, h.catchType⟩

def LineEntry.relocate (m : Move) (e : LineEntry) : Except Fault LineEntry := do
  return ⟨← m.apply e.at_, e.line⟩

def LocalVariable.relocate (m : Move) (v : LocalVariable) : Except Fault LocalVariable := do
  let start ← m.apply v.start
  let stop ← m.apply v.stop
  return { v with start, stop }

def Verification.relocate (m : Move) : Verification → Except Fault Verification
  | .uninitialized origin => do return .uninitialized (← m.apply origin)
  | t => .ok t

def FrameKind.relocate (m : Move) : FrameKind → Except Fault FrameKind
  | .same => .ok .same
  | .chop n => .ok (.chop n)
  | .sameWithStack t => do return .sameWithStack (← t.relocate m)
  | .append ls => do return .append (← ls.mapM (Verification.relocate m))
  | .full ls ss => do
    let ls' ← ls.mapM (Verification.relocate m)
    return .full ls' (← ss.mapM (Verification.relocate m))

def Frame.relocate (m : Move) (f : Frame) : Except Fault Frame := do
  let target ← m.apply f.target
  return ⟨target, ← f.kind.relocate m⟩

def Frame.increasing : List Frame → Bool
  | f :: g :: rest => f.target < g.target && increasing (g :: rest)
  | _ => true

def CodeAttribute.relocate (m : Move) : CodeAttribute → Except Fault CodeAttribute
  | .lines name es => do return .lines name (← es.mapM (LineEntry.relocate m))
  | .locals name vs => do return .locals name (← vs.mapM (LocalVariable.relocate m))
  | .stackMap name fs => do
    let fs' ← fs.mapM (Frame.relocate m)
    if Frame.increasing fs' then return .stackMap name fs'
    else throw (.invalidEdit .framesCollapse)
  | .raw name info => .ok (.raw name info)

namespace Code

def relocate (m : Move) (c : Code) : Except Fault Code := do
  let instructions ← relocateInstructions m c.instructions
  let handlers ← c.handlers.mapM (Handler.relocate m)
  let attributes ← c.attributes.mapM (CodeAttribute.relocate m)
  return { c with instructions, handlers, attributes }

def insertMove (position count : Nat) : Move :=
  fun r => some (if position < r then r + count else r)

/-- Puts instructions before the one at `position`. What referred to that one
now refers to the first inserted instruction, so a jump there runs the new
instructions too. -/
def insert (c : Code) (position : Nat) (new : List Instruction) : Except Fault Code :=
  if c.size < position then .error (.invalidEdit (.insertPastEnd position c.size))
  else do
    let moved ← c.relocate (insertMove position new.length)
    let (before, behind) := moved.instructions.splitAt position
    return { moved with instructions := before ++ new ++ behind }

/-- Puts instructions in front of the body. Every reference keeps naming the
instruction it named, so a jump back to the old first one skips the new. -/
def prepend (c : Code) (new : List Instruction) : Except Fault Code := do
  let moved ← c.relocate fun r => some (r + new.length)
  return { moved with instructions := new ++ moved.instructions }

def removeMove (start stop : Nat) : Move :=
  fun r => if r ≤ start then some r else if stop ≤ r then some (r - (stop - start)) else none

/-- Takes out the instructions from `start` up to `stop`. A reference to the
first of them goes to what follows the range; one strictly inside refuses the
edit. Handlers that protect nothing any more are dropped. -/
def remove (c : Code) (start stop : Nat) : Except Fault Code :=
  if stop ≤ start ∨ c.size < stop then .error (.invalidEdit (.removalRange start stop))
  else do
    let kept := c.instructions.take start ++ c.instructions.drop stop
    let moved ← { c with instructions := kept }.relocate (removeMove start stop)
    return { moved with handlers := moved.handlers.filter fun h => h.start < h.stop }

end Code

end PluginGuard.ClassFile
