import Mathlib.Data.List.Basic
import PluginGuard.Proofs.ClassFile.Code.Moved

/-!
# Edits as moves of references

The references of a body as a list. A move is accepted exactly if it strands none of them and
leaves the frames of every table in order, and what it gives is the body with the one function
applied throughout. Inserting, prepending and removing are given in closed form from that.
-/
namespace PluginGuard.ClassFile

/-! ### The references of a body -/

def Handler.references (h : Handler) : List Nat := [h.start, h.stop, h.entry]

def LocalVariable.references (v : LocalVariable) : List Nat := [v.start, v.stop]

/-- The instruction that made the value, as long as it is not initialised. -/
def Verification.origins : Verification → List Nat
  | .uninitialized origin => [origin]
  | _ => []

def FrameKind.origins (k : FrameKind) : List Nat := k.types.flatMap Verification.origins

def Frame.references (f : Frame) : List Nat := f.target :: f.kind.origins

def CodeAttribute.references : CodeAttribute → List Nat
  | .lines _ es => es.map (·.at_)
  | .locals _ vs => vs.flatMap LocalVariable.references
  | .stackMap _ fs => fs.flatMap Frame.references
  | .raw .. => []

def Code.references (c : Code) : List Nat :=
  c.instructions.flatMap Instruction.targets ++
    (c.handlers.flatMap Handler.references ++ c.attributes.flatMap CodeAttribute.references)

section Moved

variable (f : Nat → Nat)

theorem flatMap_moved {α : Type} {references : α → List Nat} {moved : α → α}
    (h : ∀ a, references (moved a) = (references a).map f) (as : List α) :
    (as.map moved).flatMap references = (as.flatMap references).map f := by
  rw [List.flatMap_map, List.map_flatMap]
  exact List.flatMap_congr fun a _ => h a

theorem Verification.origins_moved (t : Verification) : (t.moved f).origins = t.origins.map f := by
  cases t with
  | _ => rfl

theorem FrameKind.origins_moved (k : FrameKind) : (k.moved f).origins = k.origins.map f := by
  rw [origins, types_moved, flatMap_moved f (Verification.origins_moved f), origins]

theorem Handler.references_moved (h : Handler) : (h.moved f).references = h.references.map f := rfl

theorem LocalVariable.references_moved (v : LocalVariable) :
    (v.moved f).references = v.references.map f := rfl

theorem Frame.references_moved (fr : Frame) : (fr.moved f).references = fr.references.map f := by
  rw [moved, references, FrameKind.origins_moved, references, List.map_cons]

theorem CodeAttribute.references_moved (a : CodeAttribute) :
    (a.moved f).references = a.references.map f := by
  cases a with
  | lines name es => simp [moved, references, LineEntry.moved, Function.comp_def]
  | locals name vs => exact flatMap_moved f (LocalVariable.references_moved f) vs
  | stackMap name fs => exact flatMap_moved f (Frame.references_moved f) fs
  | raw name info => rfl

theorem Code.references_moved (c : Code) : (c.moved f).references = c.references.map f := by
  simp only [references, moved, List.map_append, flatMap_moved f (Instruction.targets_mapTargets f),
    flatMap_moved f (Handler.references_moved f), flatMap_moved f (CodeAttribute.references_moved f)]

end Moved

/-! ### The order of frames -/

theorem Frame.increasing_iff {fs : List Frame} : increasing fs = true ↔ Ordered fs := by
  induction fs with
  | nil => simp [increasing, Ordered]
  | cons fr fs ih =>
    cases fs with
    | nil => simp [increasing, Ordered]
    | cons g rest =>
      rw [increasing, Bool.and_eq_true, decide_eq_true_iff, ih, Ordered, Ordered,
        List.pairwise_cons (a := fr)]
      constructor
      · rintro ⟨hlt, h⟩
        refine ⟨List.forall_mem_cons.mpr ⟨hlt, fun g' hg' => ?_⟩, h⟩
        exact hlt.trans ((List.pairwise_cons.mp h).1 g' hg')
      · rintro ⟨hlt, h⟩
        exact ⟨hlt g List.mem_cons_self, h⟩

def CodeAttribute.Ordered : CodeAttribute → Prop
  | .stackMap _ fs => Frame.Ordered fs
  | _ => True

theorem CodeAttribute.Within.ordered {n : Nat} {a : CodeAttribute} (h : a.Within n) :
    a.Ordered := by
  cases a with
  | stackMap name fs => exact h.2
  | _ => trivial

theorem CodeAttribute.ordered_moved {f : Nat → Nat} (hf : StrictMono f) {a : CodeAttribute} :
    (a.moved f).Ordered ↔ a.Ordered := by
  cases a with
  | stackMap name fs => exact Frame.ordered_moved hf
  | _ => exact Iff.rfl

/-! ### Moves that are accepted -/

def Move.get (m : Move) (r : Nat) : Nat := (m r).getD r

def Move.Takes (m : Move) (rs : List Nat) : Prop := ∀ r ∈ rs, (m r).isSome = true

section Relocate

variable {m : Move}

theorem Move.apply_eq_ok {r r' : Nat} : m.apply r = .ok r' ↔ (m r).isSome = true ∧ r' = m.get r := by
  rw [apply, get]
  cases m r with
  | none => simp
  | some s => simp [eq_comm]

theorem Move.takes_cons {r : Nat} {rs : List Nat} :
    m.Takes (r :: rs) ↔ (m r).isSome = true ∧ m.Takes rs := List.forall_mem_cons

theorem Move.takes_append {rs ss : List Nat} :
    m.Takes (rs ++ ss) ↔ m.Takes rs ∧ m.Takes ss := List.forall_mem_append

theorem Move.takes_flatMap {α : Type} {references : α → List Nat} {as : List α} :
    m.Takes (as.flatMap references) ↔ ∀ a ∈ as, m.Takes (references a) := List.forall_mem_flatMap

theorem Move.takes_nil : m.Takes [] := List.forall_mem_nil _

theorem mapM_relocate_eq_ok {α : Type} {relocate : α → Except Fault α} {accepted : α → Prop}
    {moved : α → α} (h : ∀ a b, relocate a = .ok b ↔ accepted a ∧ b = moved a) {as bs : List α} :
    as.mapM relocate = .ok bs ↔ (∀ a ∈ as, accepted a) ∧ bs = as.map moved := by
  induction as generalizing bs with
  | nil => simp [Fallible.pure_eq_ok]
  | cons a as ih =>
    simp only [List.mapM_cons, Fallible.bind_eq_ok, Fallible.pure_eq_ok, h, ih, List.forall_mem_cons,
      List.map_cons]
    constructor
    · rintro ⟨_, ⟨ha, rfl⟩, _, ⟨has, rfl⟩, rfl⟩
      exact ⟨⟨ha, has⟩, rfl⟩
    · rintro ⟨⟨ha, has⟩, rfl⟩
      exact ⟨_, ⟨ha, rfl⟩, _, ⟨has, rfl⟩, rfl⟩

theorem Handler.relocate_eq_ok {h h' : Handler} :
    h.relocate m = .ok h' ↔ m.Takes h.references ∧ h' = h.moved m.get := by
  simp only [relocate, references, Fallible.bind_eq_ok, Fallible.pure_eq_ok, Move.apply_eq_ok,
    Move.takes_cons]
  constructor
  · rintro ⟨_, ⟨hstart, rfl⟩, _, ⟨hstop, rfl⟩, _, ⟨hentry, rfl⟩, rfl⟩
    exact ⟨⟨hstart, hstop, hentry, Move.takes_nil⟩, rfl⟩
  · rintro ⟨⟨hstart, hstop, hentry, -⟩, rfl⟩
    exact ⟨_, ⟨hstart, rfl⟩, _, ⟨hstop, rfl⟩, _, ⟨hentry, rfl⟩, rfl⟩

theorem LineEntry.relocate_eq_ok {e e' : LineEntry} :
    e.relocate m = .ok e' ↔ (m e.at_).isSome = true ∧ e' = e.moved m.get := by
  simp only [relocate, Fallible.bind_eq_ok, Fallible.pure_eq_ok, Move.apply_eq_ok]
  constructor
  · rintro ⟨_, ⟨hat, rfl⟩, rfl⟩
    exact ⟨hat, rfl⟩
  · rintro ⟨hat, rfl⟩
    exact ⟨_, ⟨hat, rfl⟩, rfl⟩

theorem LocalVariable.relocate_eq_ok {v v' : LocalVariable} :
    v.relocate m = .ok v' ↔ m.Takes v.references ∧ v' = v.moved m.get := by
  simp only [relocate, references, Fallible.bind_eq_ok, Fallible.pure_eq_ok, Move.apply_eq_ok,
    Move.takes_cons]
  constructor
  · rintro ⟨_, ⟨hstart, rfl⟩, _, ⟨hstop, rfl⟩, rfl⟩
    exact ⟨⟨hstart, hstop, Move.takes_nil⟩, rfl⟩
  · rintro ⟨⟨hstart, hstop, -⟩, rfl⟩
    exact ⟨_, ⟨hstart, rfl⟩, _, ⟨hstop, rfl⟩, rfl⟩

theorem Verification.relocate_eq_ok {t t' : Verification} :
    t.relocate m = .ok t' ↔ m.Takes t.origins ∧ t' = t.moved m.get := by
  cases t with
  | uninitialized origin =>
    simp only [relocate, origins, Fallible.bind_eq_ok, Fallible.pure_eq_ok, Move.apply_eq_ok,
      Move.takes_cons]
    constructor
    · rintro ⟨_, ⟨horigin, rfl⟩, rfl⟩
      exact ⟨⟨horigin, Move.takes_nil⟩, rfl⟩
    · rintro ⟨⟨horigin, -⟩, rfl⟩
      exact ⟨_, ⟨horigin, rfl⟩, rfl⟩
  | _ => simp [relocate, origins, moved, Move.takes_nil, eq_comm]

theorem FrameKind.relocate_eq_ok {k k' : FrameKind} :
    k.relocate m = .ok k' ↔ m.Takes k.origins ∧ k' = k.moved m.get := by
  have types {ts ts' : List Verification} : ts.mapM (Verification.relocate m) = .ok ts' ↔
      m.Takes (ts.flatMap Verification.origins) ∧ ts' = ts.map (Verification.moved m.get) := by
    rw [mapM_relocate_eq_ok fun _ _ => Verification.relocate_eq_ok, Move.takes_flatMap]
  cases k with
  | same | chop => simp [relocate, origins, FrameKind.types, moved, Move.takes_nil, eq_comm]
  | sameWithStack t =>
    simp only [relocate, Fallible.bind_eq_ok, Fallible.pure_eq_ok, Verification.relocate_eq_ok, origins,
      FrameKind.types, List.flatMap_singleton]
    constructor
    · rintro ⟨_, ⟨ht, rfl⟩, rfl⟩
      exact ⟨ht, rfl⟩
    · rintro ⟨ht, rfl⟩
      exact ⟨_, ⟨ht, rfl⟩, rfl⟩
  | append ls =>
    simp only [relocate, Fallible.bind_eq_ok, Fallible.pure_eq_ok, types, origins, FrameKind.types]
    constructor
    · rintro ⟨_, ⟨hls, rfl⟩, rfl⟩
      exact ⟨hls, rfl⟩
    · rintro ⟨hls, rfl⟩
      exact ⟨_, ⟨hls, rfl⟩, rfl⟩
  | full ls ss =>
    simp only [relocate, Fallible.bind_eq_ok, Fallible.pure_eq_ok, types, origins, FrameKind.types,
      List.flatMap_append, Move.takes_append]
    constructor
    · rintro ⟨_, ⟨hls, rfl⟩, _, ⟨hss, rfl⟩, rfl⟩
      exact ⟨⟨hls, hss⟩, rfl⟩
    · rintro ⟨⟨hls, hss⟩, rfl⟩
      exact ⟨_, ⟨hls, rfl⟩, _, ⟨hss, rfl⟩, rfl⟩

theorem Frame.relocate_eq_ok {fr fr' : Frame} :
    fr.relocate m = .ok fr' ↔ m.Takes fr.references ∧ fr' = fr.moved m.get := by
  simp only [relocate, references, Fallible.bind_eq_ok, Fallible.pure_eq_ok, Move.apply_eq_ok,
    FrameKind.relocate_eq_ok, Move.takes_cons]
  constructor
  · rintro ⟨_, ⟨htarget, rfl⟩, _, ⟨hkind, rfl⟩, rfl⟩
    exact ⟨⟨htarget, hkind⟩, rfl⟩
  · rintro ⟨⟨htarget, hkind⟩, rfl⟩
    exact ⟨_, ⟨htarget, rfl⟩, _, ⟨hkind, rfl⟩, rfl⟩

theorem CodeAttribute.relocate_eq_ok {a a' : CodeAttribute} :
    a.relocate m = .ok a' ↔
      (m.Takes a.references ∧ (a.moved m.get).Ordered) ∧ a' = a.moved m.get := by
  cases a with
  | lines name es =>
    simp only [relocate, Fallible.bind_eq_ok, Fallible.pure_eq_ok,
      mapM_relocate_eq_ok fun _ _ => LineEntry.relocate_eq_ok, references]
    constructor
    · rintro ⟨_, ⟨hes, rfl⟩, rfl⟩
      exact ⟨⟨List.forall_mem_map.mpr hes, trivial⟩, rfl⟩
    · rintro ⟨⟨hes, -⟩, rfl⟩
      exact ⟨_, ⟨List.forall_mem_map.mp hes, rfl⟩, rfl⟩
  | locals name vs =>
    simp only [relocate, Fallible.bind_eq_ok, Fallible.pure_eq_ok,
      mapM_relocate_eq_ok fun _ _ => LocalVariable.relocate_eq_ok, references, Move.takes_flatMap]
    constructor
    · rintro ⟨_, ⟨hvs, rfl⟩, rfl⟩
      exact ⟨⟨hvs, trivial⟩, rfl⟩
    · rintro ⟨⟨hvs, -⟩, rfl⟩
      exact ⟨_, ⟨hvs, rfl⟩, rfl⟩
  | stackMap name fs =>
    simp only [relocate, Fallible.bind_eq_ok, mapM_relocate_eq_ok fun _ _ => Frame.relocate_eq_ok,
      references, Move.takes_flatMap]
    constructor
    · rintro ⟨_, ⟨hfs, rfl⟩, h⟩
      split at h
      · next increasing =>
        cases h
        exact ⟨⟨hfs, Frame.increasing_iff.mp increasing⟩, rfl⟩
      · cases h
    · rintro ⟨⟨hfs, ordered⟩, rfl⟩
      exact ⟨_, ⟨hfs, rfl⟩, by rw [if_pos (Frame.increasing_iff.mpr ordered)]; rfl⟩
  | raw name info =>
    simp [relocate, references, moved, Ordered, Move.takes_nil, eq_comm]

theorem relocateInstructions_eq_ok {is is' : List Instruction} :
    relocateInstructions m is = .ok is' ↔
      m.Takes (is.flatMap Instruction.targets) ∧ is' = is.map (Instruction.mapTargets m.get) := by
  have hnone : ((is.flatMap Instruction.targets).filter fun t => (m t).isNone) = [] ↔
      m.Takes (is.flatMap Instruction.targets) := by
    simp [List.filter_eq_nil_iff, Move.Takes, Option.isSome_iff_ne_none]
  rw [relocateInstructions, ← hnone, ← List.getLast?_eq_none_iff]
  split
  · next hsome => simp [hsome]
  · next hnone =>
    rw [Except.ok.injEq, eq_comm, and_iff_right hnone]
    rfl

end Relocate

namespace Code

variable {c c' : Code}

theorem relocate_eq_ok {m : Move} :
    c.relocate m = .ok c' ↔ m.Takes c.references ∧
      (∀ a ∈ c.attributes, (a.moved m.get).Ordered) ∧ c' = c.moved m.get := by
  simp only [relocate, Fallible.bind_eq_ok, Fallible.pure_eq_ok, relocateInstructions_eq_ok,
    mapM_relocate_eq_ok fun _ _ => Handler.relocate_eq_ok,
    mapM_relocate_eq_ok fun _ _ => CodeAttribute.relocate_eq_ok, references, Move.takes_append,
    Move.takes_flatMap]
  constructor
  · rintro ⟨_, ⟨his, rfl⟩, _, ⟨hhandlers, rfl⟩, _, ⟨hattributes, rfl⟩, rfl⟩
    exact ⟨⟨his, hhandlers, fun a ha => (hattributes a ha).1⟩,
      fun a ha => (hattributes a ha).2, rfl⟩
  · rintro ⟨⟨his, hhandlers, hattributes⟩, ordered, rfl⟩
    exact ⟨_, ⟨his, rfl⟩, _, ⟨hhandlers, rfl⟩, _,
      ⟨fun a ha => ⟨hattributes a ha, ordered a ha⟩, rfl⟩, rfl⟩

/-! ### Edits in closed form -/

def shift (position count r : Nat) : Nat := if position < r then r + count else r

theorem strictMono_shift (position count : Nat) : StrictMono (shift position count) := by
  intro r s hlt
  simp only [shift]
  split_ifs
  · omega
  · omega
  · omega
  · omega

theorem strictMono_add (count : Nat) : StrictMono (· + count) :=
  fun _ _ hlt => Nat.add_lt_add_right hlt count

def inserted (position : Nat) (new : List Instruction) (c : Code) : Code :=
  { c.moved (shift position new.length) with
    instructions :=
      (c.instructions.take position).map (Instruction.mapTargets (shift position new.length)) ++
        new ++ (c.instructions.drop position).map
          (Instruction.mapTargets (shift position new.length)) }

def prepended (new : List Instruction) (c : Code) : Code :=
  { c.moved (· + new.length) with
    instructions := new ++ c.instructions.map (Instruction.mapTargets (· + new.length)) }

def closeUp (start stop r : Nat) : Nat :=
  if r ≤ start then r else if stop ≤ r then r - (stop - start) else r

def without (start stop : Nat) (c : Code) : Code :=
  { c with instructions := c.instructions.take start ++ c.instructions.drop stop }

def removed (start stop : Nat) (c : Code) : Code :=
  let moved := (c.without start stop).moved (closeUp start stop)
  { moved with handlers := moved.handlers.filter fun h => h.start < h.stop }

variable {position start stop : Nat} {new : List Instruction}

theorem insert_eq_ok :
    c.insert position new = .ok c' ↔
      position ≤ c.size ∧ (∀ a ∈ c.attributes, a.Ordered) ∧ c' = c.inserted position new := by
  have hmove : (insertMove position new.length).get = shift position new.length := rfl
  rw [insert]
  split
  · next hpast =>
    simp only [reduceCtorEq, false_iff, not_and]
    omega
  · next hposition =>
    simp only [Fallible.bind_eq_ok, relocate_eq_ok, hmove, Fallible.pure_eq_ok, List.splitAt_eq,
      CodeAttribute.ordered_moved (strictMono_shift position new.length), inserted, List.map_take,
      List.map_drop]
    rw [and_iff_right (Nat.le_of_not_lt hposition)]
    constructor
    · rintro ⟨_, ⟨-, ordered, rfl⟩, rfl⟩
      exact ⟨ordered, rfl⟩
    · rintro ⟨ordered, rfl⟩
      exact ⟨_, ⟨fun _ _ => rfl, ordered, rfl⟩, rfl⟩

theorem prepend_eq_ok :
    c.prepend new = .ok c' ↔ (∀ a ∈ c.attributes, a.Ordered) ∧ c' = c.prepended new := by
  have hmove : Move.get (fun r => some (r + new.length)) = (· + new.length) := rfl
  simp only [prepend, Fallible.bind_eq_ok, relocate_eq_ok, hmove, Fallible.pure_eq_ok,
    CodeAttribute.ordered_moved (strictMono_add new.length)]
  constructor
  · rintro ⟨_, ⟨-, ordered, rfl⟩, rfl⟩
    exact ⟨ordered, rfl⟩
  · rintro ⟨ordered, rfl⟩
    exact ⟨_, ⟨fun _ _ => rfl, ordered, rfl⟩, rfl⟩

theorem remove_eq_ok :
    c.remove start stop = .ok c' ↔
      (start < stop ∧ stop ≤ c.size) ∧
        (∀ r ∈ (c.without start stop).references, r ≤ start ∨ stop ≤ r) ∧
        (∀ a ∈ c.attributes, (a.moved (closeUp start stop)).Ordered) ∧
        c' = c.removed start stop := by
  have hmove : (removeMove start stop).get = closeUp start stop := by
    funext r
    simp only [Move.get, removeMove, closeUp]
    split_ifs
    · rfl
    · rfl
    · rfl
  have htakes {rs : List Nat} :
      (removeMove start stop).Takes rs ↔ ∀ r ∈ rs, r ≤ start ∨ stop ≤ r := by
    refine forall₂_congr fun r _ => ?_
    simp only [removeMove]
    split_ifs with hle hge
    · simp [hle]
    · simp [hge]
    · simp [hle, hge]
  rw [remove]
  split
  · next hrange =>
    simp only [reduceCtorEq, false_iff, not_and]
    omega
  · next hrange =>
    rw [not_or, Nat.not_le, Nat.not_lt] at hrange
    change ((c.without start stop).relocate (removeMove start stop) >>= _) = _ ↔ _
    simp only [Fallible.bind_eq_ok, relocate_eq_ok, hmove, htakes, Fallible.pure_eq_ok]
    rw [and_iff_right hrange]
    constructor
    · rintro ⟨_, ⟨hreferences, ordered, rfl⟩, rfl⟩
      exact ⟨hreferences, ordered, rfl⟩
    · rintro ⟨hreferences, ordered, rfl⟩
      exact ⟨_, ⟨hreferences, ordered, rfl⟩, rfl⟩

theorem instructions_removed : (c.removed start stop).instructions =
    (c.instructions.take start ++ c.instructions.drop stop).map
      (Instruction.mapTargets (closeUp start stop)) := rfl

theorem size_prepend (h : c.prepend new = .ok c') : c'.size = new.length + c.size := by
  obtain ⟨-, rfl⟩ := prepend_eq_ok.mp h
  simp [prepended, size]

theorem size_insert (h : c.insert position new = .ok c') : c'.size = new.length + c.size := by
  obtain ⟨hposition, -, rfl⟩ := insert_eq_ok.mp h
  simp only [inserted, size, List.length_append, List.length_map, List.length_take,
    List.length_drop] at hposition ⊢
  omega

theorem size_removed (hrange : start < stop) (hwithin : stop ≤ c.size) :
    (c.removed start stop).size = c.size - (stop - start) := by
  simp only [removed, moved, without, size, List.length_map, List.length_append, List.length_take,
    List.length_drop] at hwithin ⊢
  omega

theorem size_remove (h : c.remove start stop = .ok c') : c'.size < c.size := by
  obtain ⟨⟨hrange, hwithin⟩, -, -, rfl⟩ := remove_eq_ok.mp h
  rw [size_removed hrange hwithin]
  omega

end Code

end PluginGuard.ClassFile
