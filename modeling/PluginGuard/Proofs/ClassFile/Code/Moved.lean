import Mathlib.Order.Monotone.Basic
import PluginGuard.ClassFile.Code.Edit
import PluginGuard.Proofs.ClassFile.Code.Targets
import PluginGuard.Proofs.ClassFile.Reading

/-!
# Moved bodies

One function applied to every reference of a body. Functions compose, and one
that keeps the order of instructions keeps what makes a body well formed.
-/
namespace PluginGuard.ClassFile

/-! ### References under a function -/

def Handler.moved (f : Nat → Nat) (h : Handler) : Handler :=
  ⟨f h.start, f h.stop, f h.entry, h.catchType⟩

def LineEntry.moved (f : Nat → Nat) (e : LineEntry) : LineEntry := ⟨f e.at_, e.line⟩

def LocalVariable.moved (f : Nat → Nat) (v : LocalVariable) : LocalVariable :=
  { v with start := f v.start, stop := f v.stop }

def Verification.moved (f : Nat → Nat) : Verification → Verification
  | .uninitialized origin => .uninitialized (f origin)
  | t => t

def FrameKind.moved (f : Nat → Nat) : FrameKind → FrameKind
  | .same => .same
  | .chop n => .chop n
  | .sameWithStack t => .sameWithStack (t.moved f)
  | .append ls => .append (ls.map (Verification.moved f))
  | .full ls ss => .full (ls.map (Verification.moved f)) (ss.map (Verification.moved f))

def Frame.moved (f : Nat → Nat) (fr : Frame) : Frame := ⟨f fr.target, fr.kind.moved f⟩

def CodeAttribute.moved (f : Nat → Nat) : CodeAttribute → CodeAttribute
  | .lines name es => .lines name (es.map (LineEntry.moved f))
  | .locals name vs => .locals name (vs.map (LocalVariable.moved f))
  | .stackMap name fs => .stackMap name (fs.map (Frame.moved f))
  | .raw name info => .raw name info

def Code.moved (f : Nat → Nat) (c : Code) : Code :=
  { c with
    instructions := c.instructions.map (Instruction.mapTargets f)
    handlers := c.handlers.map (Handler.moved f)
    attributes := c.attributes.map (CodeAttribute.moved f) }

/-! ### One function after the other -/

variable (f g : Nat → Nat)

theorem Verification.moved_moved (t : Verification) :
    (t.moved f).moved g = t.moved fun r => g (f r) := by
  cases t with
  | _ => rfl

theorem FrameKind.moved_moved (k : FrameKind) :
    (k.moved f).moved g = k.moved fun r => g (f r) := by
  cases k with
  | _ => simp [moved, Verification.moved_moved, Function.comp_def]

theorem CodeAttribute.moved_moved (a : CodeAttribute) :
    (a.moved f).moved g = a.moved fun r => g (f r) := by
  cases a with
  | stackMap name fs =>
    simp [moved, Frame.moved, FrameKind.moved_moved, Function.comp_def]
  | _ => simp [moved, LineEntry.moved, LocalVariable.moved, Function.comp_def]

theorem Code.moved_moved (c : Code) : (c.moved f).moved g = c.moved fun r => g (f r) := by
  simp [moved, Instruction.mapTargets_mapTargets, Handler.moved, CodeAttribute.moved_moved,
    Function.comp_def]

theorem Verification.moved_id (t : Verification) : t.moved id = t := by
  cases t with
  | _ => rfl

theorem FrameKind.moved_id (k : FrameKind) : k.moved id = k := by
  have types : Verification.moved id = id := funext Verification.moved_id
  cases k with
  | _ => simp [moved, types]

theorem CodeAttribute.moved_id (a : CodeAttribute) : a.moved id = a := by
  have lines : LineEntry.moved id = id := rfl
  have locals : LocalVariable.moved id = id := rfl
  have frames : Frame.moved id = id := funext fun fr => by simp [Frame.moved, FrameKind.moved_id]
  cases a with
  | _ => simp [moved, lines, locals, frames]

theorem Code.moved_id (c : Code) : c.moved id = c := by
  have instructions : Instruction.mapTargets id = id :=
    funext fun i => Instruction.mapTargets_eq_self fun _ _ => rfl
  have handlers : Handler.moved id = id := rfl
  have attributes : CodeAttribute.moved id = id := funext CodeAttribute.moved_id
  simp [moved, instructions, handlers, attributes]

theorem FrameKind.types_moved (k : FrameKind) :
    (k.moved f).types = k.types.map (Verification.moved f) := by
  cases k with
  | _ => simp [moved, types]

/-! ### What moving keeps -/

section Keeps

variable {f} {n : Nat}

theorem Instruction.Conforms.mapTargets {i : Instruction} (h : i.Conforms) (f : Nat → Nat) :
    (i.mapTargets f).Conforms := by
  obtain ⟨op, operand⟩ := i
  obtain ⟨layout, hlayout, hfits⟩ := h
  refine ⟨layout, hlayout, ?_⟩
  cases operand with
  | table otherwise low targets =>
    cases layout with
    | tableSwitch => simpa [Instruction.mapTargets, Operand.mapTargets, Operand.Fits] using hfits
    | _ => exact hfits
  | lookup otherwise pairs =>
    cases layout with
    | _ => exact hfits
  | branch t =>
    cases layout with
    | _ => exact hfits
  | _ => exact hfits

theorem Handler.Within.moved (hf : StrictMono f) {h : Handler} (hh : h.Within n) :
    (h.moved f).Within (f n) :=
  ⟨hf hh.1, hf.monotone hh.2.1, hf hh.2.2⟩

theorem Verification.Within.moved (hf : StrictMono f) {t : Verification} (h : t.Within n) :
    (t.moved f).Within (f n) := by
  cases t with
  | uninitialized origin => exact hf h
  | _ => trivial

theorem FrameKind.sized_moved {k : FrameKind} : (k.moved f).Sized ↔ k.Sized := by
  cases k with
  | append ls => simp [moved, Sized]
  | _ => exact Iff.rfl

theorem Frame.Within.moved (hf : StrictMono f) {fr : Frame} (h : fr.Within n) :
    (fr.moved f).Within (f n) := by
  refine ⟨hf h.target, FrameKind.sized_moved.mpr h.sized, fun t ht => ?_⟩
  rw [Frame.moved, FrameKind.types_moved] at ht
  obtain ⟨s, hs, rfl⟩ := List.mem_map.mp ht
  exact (h.types s hs).moved hf

theorem Frame.ordered_moved (hf : StrictMono f) {fs : List Frame} :
    Frame.Ordered (fs.map (Frame.moved f)) ↔ Frame.Ordered fs :=
  List.pairwise_map.trans (List.Pairwise.iff fun _ _ => hf.lt_iff_lt)

theorem CodeAttribute.Within.moved (hf : StrictMono f) {a : CodeAttribute} (h : a.Within n) :
    (a.moved f).Within (f n) := by
  cases a with
  | lines name es => exact List.forall_mem_map.mpr fun e he => hf (h e he)
  | locals name vs =>
    exact List.forall_mem_map.mpr fun v hv => ⟨hf.monotone (h v hv).1, hf.monotone (h v hv).2⟩
  | stackMap name fs =>
    exact ⟨List.forall_mem_map.mpr fun fr hfr => (h.1 fr hfr).moved hf, (Frame.ordered_moved hf).mpr h.2⟩
  | raw name info => trivial

theorem CodeAttribute.named_moved {pool : Pool} {a : CodeAttribute} :
    (a.moved f).Named pool ↔ a.Named pool := by
  cases a with
  | _ => rfl

end Keeps

end PluginGuard.ClassFile
