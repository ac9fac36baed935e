import Mathlib.Data.List.Nodup
import PluginGuard.Proofs.ClassFile.Code.Relocation

/-!
# What references name after an edit

Where instructions are put in, put in front or taken out, every reference follows the instruction
that it names, except one to the place of the edit, which slides to what was put in there or to
what follows the gap. For a branch that is the intention. A type that names the instruction which
made a value is moved by the same rule, and so it is lost at that place and only there.
-/
namespace PluginGuard.ClassFile

/-! ### Edits at one place -/

inductive Splice
  | insert (position : Nat) (new : List Instruction)
  | prepend (new : List Instruction)
  | remove (start stop : Nat)

namespace Splice

def apply : Splice → Code → Except Fault Code
  | .insert position new, c => c.insert position new
  | .prepend new, c => c.prepend new
  | .remove start stop, c => c.remove start stop

def added : Splice → List Instruction
  | .insert _ new => new
  | .prepend new => new
  | .remove .. => []

def move : Splice → Nat → Nat
  | .insert position new => Code.shift position new.length
  | .prepend new => (· + new.length)
  | .remove start stop => Code.closeUp start stop

def place? : Splice → Nat → Option Nat
  | .insert position new, k => some (if k < position then k else k + new.length)
  | .prepend new, k => some (k + new.length)
  | .remove start stop, k =>
    if k < start then some k else if stop ≤ k then some (k - (stop - start)) else none

/-- The body with the instructions that stay, its references as they were. -/
def kept : Splice → Code → Code
  | .remove start stop, c => c.without start stop
  | _, c => c

/-- A reference to this index is one to the place of the edit. -/
def Slides : Splice → Nat → Prop
  | .insert position new, r => r = position ∧ new ≠ []
  | .prepend _, _ => False
  | .remove start _, r => r = start

variable {e : Splice} {c c' : Code} {k k' r : Nat}

theorem attributes_kept (e : Splice) (c : Code) : (e.kept c).attributes = c.attributes := by
  cases e with
  | _ => rfl

theorem handlers_kept (e : Splice) (c : Code) : (e.kept c).handlers = c.handlers := by
  cases e with
  | _ => rfl

theorem attributes_of_apply (happly : e.apply c = .ok c') :
    c'.attributes = c.attributes.map (CodeAttribute.moved e.move) := by
  cases e with
  | insert position new =>
    obtain ⟨-, -, rfl⟩ := Code.insert_eq_ok.mp happly
    rfl
  | prepend new =>
    obtain ⟨-, rfl⟩ := Code.prepend_eq_ok.mp happly
    rfl
  | remove start stop =>
    obtain ⟨-, -, -, rfl⟩ := Code.remove_eq_ok.mp happly
    rfl

theorem getElem?_of_place? (happly : e.apply c = .ok c') (hplace : e.place? k = some k') :
    c'.instructions[k']? = c.instructions[k]?.map (Instruction.mapTargets e.move) := by
  cases e with
  | insert position new =>
    obtain ⟨hposition, -, rfl⟩ := Code.insert_eq_ok.mp happly
    cases hplace
    rw [Code.size] at hposition
    simp only [Code.inserted, move]
    split
    · next hbefore =>
      rw [List.append_assoc, List.getElem?_append_left (by simp; omega), List.getElem?_map,
        List.getElem?_take_of_lt hbefore]
    · next hbehind =>
      rw [List.getElem?_append_right (by simp; omega), List.getElem?_map, List.getElem?_drop]
      congr 2
      simp
      omega
  | prepend new =>
    obtain ⟨-, rfl⟩ := Code.prepend_eq_ok.mp happly
    cases hplace
    rw [Code.prepended, List.getElem?_append_right (Nat.le_add_left _ _), Nat.add_sub_cancel,
      List.getElem?_map]
    rfl
  | remove start stop =>
    obtain ⟨⟨hrange, hwithin⟩, -, -, rfl⟩ := Code.remove_eq_ok.mp happly
    rw [Code.size] at hwithin
    rw [Code.instructions_removed, List.getElem?_map]
    simp only [place?] at hplace
    split at hplace
    · next hbefore =>
      cases hplace
      rw [List.getElem?_append_left (by simp; omega), List.getElem?_take_of_lt hbefore]
      rfl
    · next hbefore =>
      split at hplace
      · next hbehind =>
        cases hplace
        rw [List.getElem?_append_right (by simp; omega), List.getElem?_drop]
        have hindex : stop + (k - (stop - start) - (c.instructions.take start).length) = k := by
          rw [List.length_take]
          omega
        rw [hindex]
        rfl
      · cases hplace

theorem place?_eq_move_iff (happly : e.apply c = .ok c') (hr : r ∈ (e.kept c).references) :
    e.place? r = some (e.move r) ↔ ¬e.Slides r := by
  cases e with
  | insert position new =>
    simp only [place?, move, Code.shift, Slides, Option.some.injEq, ← List.length_pos_iff]
    split_ifs <;> omega
  | prepend new => simp [place?, move, Slides]
  | remove start stop =>
    obtain ⟨⟨hrange, -⟩, hreferences, -⟩ := Code.remove_eq_ok.mp happly
    simp only [place?, move, Code.closeUp, Slides]
    obtain hlt | rfl | hgt := Nat.lt_trichotomy r start
    · simp only [if_pos hlt, if_pos hlt.le, true_iff]
      exact hlt.ne
    · simp [hrange]
    · have hbehind : stop ≤ r := (hreferences r hr).resolve_left (Nat.not_le.mpr hgt)
      simp only [if_neg hgt.not_gt, if_neg hgt.not_ge, if_pos hbehind, true_iff]
      exact hgt.ne'

theorem getElem?_move (happly : e.apply c = .ok c') (hr : r ∈ (e.kept c).references)
    (hstays : ¬e.Slides r) :
    c'.instructions[e.move r]? = c.instructions[r]?.map (Instruction.mapTargets e.move) :=
  getElem?_of_place? happly ((place?_eq_move_iff happly hr).mpr hstays)

end Splice

/-! ### References after an edit -/

section References

variable {c : Code} {position start stop : Nat} {new : List Instruction}

def CodeAttribute.frameTargets : CodeAttribute → List Nat
  | .stackMap _ fs => fs.map (·.target)
  | _ => []

def CodeAttribute.Collapses (f : Nat → Nat) (a : CodeAttribute) : Prop :=
  ¬(a.frameTargets.map f).Nodup

theorem CodeAttribute.frameTargets_subset (a : CodeAttribute) : a.frameTargets ⊆ a.references := by
  cases a with
  | stackMap name fs =>
    intro r hr
    obtain ⟨fr, hfr, rfl⟩ := List.mem_map.mp hr
    exact List.mem_flatMap.mpr ⟨fr, hfr, List.mem_cons_self⟩
  | _ => exact List.nil_subset _

theorem CodeAttribute.ordered_iff_pairwise {a : CodeAttribute} :
    a.Ordered ↔ a.frameTargets.Pairwise (· < ·) := by
  cases a with
  | stackMap name fs => exact List.pairwise_map.symm
  | _ => simp [Ordered, frameTargets]

theorem CodeAttribute.frameTargets_moved (f : Nat → Nat) (a : CodeAttribute) :
    (a.moved f).frameTargets = a.frameTargets.map f := by
  cases a with
  | stackMap name fs => simp [moved, frameTargets, Frame.moved, Function.comp_def]
  | _ => rfl

theorem CodeAttribute.ordered_moved_iff {f : Nat → Nat} {a : CodeAttribute} (ordered : a.Ordered)
    (monotone : ∀ r ∈ a.references, ∀ s ∈ a.references, r ≤ s → f r ≤ f s) :
    (a.moved f).Ordered ↔ ¬a.Collapses f := by
  rw [ordered_iff_pairwise] at ordered
  rw [ordered_iff_pairwise, frameTargets_moved, Collapses, not_not, List.Nodup]
  constructor
  · intro h
    exact h.imp Nat.ne_of_lt
  · intro hdistinct
    rw [List.pairwise_map] at hdistinct ⊢
    refine (ordered.and hdistinct).imp_of_mem fun hr hs h => ?_
    have hle := monotone _ (a.frameTargets_subset hr) _ (a.frameTargets_subset hs) h.1.le
    exact lt_of_le_of_ne hle h.2

namespace Code

theorem closeUp_le_closeUp {r s : Nat} (hr : r ≤ start ∨ stop ≤ r) (hs : s ≤ start ∨ stop ≤ s)
    (hrange : start < stop) (hle : r ≤ s) : closeUp start stop r ≤ closeUp start stop s := by
  simp only [closeUp]
  split_ifs <;> omega

theorem mem_references_of_attribute {a : CodeAttribute} (ha : a ∈ c.attributes) {r : Nat}
    (hr : r ∈ a.references) : r ∈ c.references :=
  List.mem_append_right _ (List.mem_append_right _ (List.mem_flatMap.mpr ⟨a, ha, hr⟩))

theorem references_inserted (plain : ∀ i ∈ new, i.targets = []) :
    (c.inserted position new).references = c.references.map (shift position new.length) := by
  have hplain : new.flatMap Instruction.targets = [] := List.flatMap_eq_nil_iff.mpr plain
  rw [← references_moved]
  simp only [references, inserted, moved, List.flatMap_append, hplain, List.append_nil]
  rw [← List.flatMap_append, ← List.map_append, List.take_append_drop]

theorem references_prepended (plain : ∀ i ∈ new, i.targets = []) :
    (c.prepended new).references = c.references.map (· + new.length) := by
  have hplain : new.flatMap Instruction.targets = [] := List.flatMap_eq_nil_iff.mpr plain
  rw [← references_moved]
  simp only [references, prepended, moved, List.flatMap_append, hplain, List.nil_append]

theorem exists_remove_eq_ok_iff (ordered : ∀ a ∈ c.attributes, a.Ordered) (hrange : start < stop)
    (hwithin : stop ≤ c.size) :
    (∃ c', c.remove start stop = .ok c') ↔
      (∀ r ∈ (c.without start stop).references, ¬(start < r ∧ r < stop)) ∧
        ∀ a ∈ c.attributes, ¬a.Collapses (closeUp start stop) := by
  have haccepted (r : Nat) : ¬(start < r ∧ r < stop) ↔ r ≤ start ∨ stop ≤ r := by omega
  simp only [remove_eq_ok, exists_and_left, exists_eq, and_true, hrange, hwithin, true_and,
    haccepted]
  refine and_congr_right fun hreferences => forall₂_congr fun a ha => ?_
  refine CodeAttribute.ordered_moved_iff (ordered a ha) fun r hr s hs hle => ?_
  -- What stays holds all references of the attributes.
  have held {r : Nat} (hr : r ∈ a.references) : r ∈ (c.without start stop).references :=
    mem_references_of_attribute (c := c.without start stop) ha hr
  exact closeUp_le_closeUp (hreferences r (held hr)) (hreferences s (held hs)) hrange hle

end Code

/-- Nothing is refused but a removal that strands a reference or lets two frames collapse, and
references go where they should. All but those to the place of the edit name what they named. -/
theorem Splice.relocates (ordered : ∀ a ∈ c.attributes, a.Ordered) :
    (∀ position new, position ≤ c.size → (∀ i ∈ new, i.targets = []) →
      c.insert position new = .ok (c.inserted position new) ∧
        (c.inserted position new).references =
          c.references.map (Code.shift position new.length)) ∧
      (∀ new, (∀ i ∈ new, i.targets = []) →
        c.prepend new = .ok (c.prepended new) ∧
          (c.prepended new).references = c.references.map (· + new.length)) ∧
      (∀ start stop, start < stop → stop ≤ c.size →
        ((∃ c', c.remove start stop = .ok c') ↔
          (∀ r ∈ (c.without start stop).references, ¬(start < r ∧ r < stop)) ∧
            ∀ a ∈ c.attributes, ¬a.Collapses (Code.closeUp start stop)) ∧
        ∀ c', c.remove start stop = .ok c' → c' = c.removed start stop) ∧
      ∀ (e : Splice) (c' : Code), e.apply c = .ok c' → ∀ r ∈ (e.kept c).references, ¬e.Slides r →
        c'.instructions[e.move r]? = c.instructions[r]?.map (Instruction.mapTargets e.move) := by
  refine ⟨fun position new hposition plain => ?_, fun new plain => ?_,
    fun start stop hrange hwithin => ?_, fun e c' happly r hr => Splice.getElem?_move happly hr⟩
  · exact ⟨Code.insert_eq_ok.mpr ⟨hposition, ordered, rfl⟩, Code.references_inserted plain⟩
  · exact ⟨Code.prepend_eq_ok.mpr ⟨ordered, rfl⟩, Code.references_prepended plain⟩
  · refine ⟨Code.exists_remove_eq_ok_iff ordered hrange hwithin, fun c' hremove => ?_⟩
    exact (Code.remove_eq_ok.mp hremove).2.2.2

def Splice.maker : Code :=
  { Code.ofInstructions 1 0 [.withConstant Opcode.new 1, .simple 0x57, .simple 0xB1] with
    attributes := [.stackMap 2 [⟨1, .sameWithStack (.uninitialized 0)⟩]] }

def Splice.nop : Instruction := .simple 0x00

theorem Splice.ordered_maker : ∀ a ∈ maker.attributes, a.Ordered :=
  List.forall_mem_singleton.mpr (List.pairwise_singleton _ _)

/-- A removal may begin at the frame but not have it inside. -/
theorem Splice.relocates_maker :
    (∀ a ∈ maker.attributes, a.Ordered) ∧ maker.references = [1, 0] ∧
      maker.insert 0 [nop] = .ok (maker.inserted 0 [nop]) ∧
      (maker.inserted 0 [nop]).references = [2, 0] ∧
      maker.prepend [nop] = .ok (maker.prepended [nop]) ∧
      (maker.prepended [nop]).references = [2, 1] ∧
      (∃ c', maker.remove 1 2 = .ok c') ∧ ¬∃ c', maker.remove 0 2 = .ok c' := by
  obtain ⟨hinsert, hprepend, hremove, -⟩ := relocates ordered_maker
  have hplain : ∀ i ∈ [nop], i.targets = [] := by decide
  obtain ⟨hinserted, hshifted⟩ := hinsert 0 [nop] (by decide) hplain
  obtain ⟨hprepended, hadded⟩ := hprepend [nop] hplain
  refine ⟨ordered_maker, rfl, hinserted, hshifted, hprepended, hadded, ?_, ?_⟩
  · refine (hremove 1 2 (by decide) (by decide)).1.mpr ⟨by decide, ?_⟩
    exact List.forall_mem_singleton.mpr (not_not.mpr (List.nodup_singleton _))
  · intro haccepted
    have hstranded := ((hremove 0 2 (by decide) (by decide)).1.mp haccepted).1 1
    exact hstranded (by decide) (by decide)

end References

/-! ### Uninitialised values -/

def CodeAttribute.origins : CodeAttribute → List Nat
  | .stackMap _ fs => fs.flatMap fun fr => fr.kind.origins
  | _ => []

/-- What the types of the frames name as the makers of their values. -/
def Code.origins (c : Code) : List Nat := c.attributes.flatMap CodeAttribute.origins

def Code.MadeAt (c : Code) (o : Nat) : Prop :=
  ∃ i, c.instructions[o]? = some i ∧ i.opcode = Opcode.new

section Origins

variable {e : Splice} {c c' : Code} {o : Nat}

theorem CodeAttribute.origins_moved (f : Nat → Nat) (a : CodeAttribute) :
    (a.moved f).origins = a.origins.map f := by
  cases a with
  | stackMap name fs => exact flatMap_moved f (fun fr => FrameKind.origins_moved f fr.kind) fs
  | _ => rfl

theorem CodeAttribute.origins_subset (a : CodeAttribute) : a.origins ⊆ a.references := by
  cases a with
  | stackMap name fs =>
    intro o ho
    obtain ⟨fr, hfr, ho⟩ := List.mem_flatMap.mp ho
    exact List.mem_flatMap.mpr ⟨fr, hfr, List.mem_cons_of_mem _ ho⟩
  | _ => exact List.nil_subset _

theorem Splice.origins_kept (e : Splice) (ho : o ∈ c.origins) : o ∈ (e.kept c).references := by
  obtain ⟨a, ha, ho⟩ := List.mem_flatMap.mp ho
  rw [← e.attributes_kept c] at ha
  exact Code.mem_references_of_attribute ha (a.origins_subset ho)

theorem Splice.origins_of_apply (happly : e.apply c = .ok c') :
    c'.origins = c.origins.map e.move := by
  rw [Code.origins, attributes_of_apply happly]
  exact flatMap_moved e.move (CodeAttribute.origins_moved e.move) c.attributes

/-- A type goes on naming the instruction that made its value exactly if the edit is not at that
instruction. -/
theorem Splice.follows_iff (made : ∀ o ∈ c.origins, c.MadeAt o) (happly : e.apply c = .ok c') :
    c'.origins = c.origins.map e.move ∧ ∀ o ∈ c.origins,
      (e.place? o = some (e.move o) ↔ ¬e.Slides o) ∧ (¬e.Slides o → c'.MadeAt (e.move o)) := by
  refine ⟨origins_of_apply happly, fun o ho => ?_⟩
  have hkept := e.origins_kept ho
  refine ⟨place?_eq_move_iff happly hkept, fun hstays => ?_⟩
  obtain ⟨i, hi, hnew⟩ := made o ho
  refine ⟨i.mapTargets e.move, ?_, hnew⟩
  rw [getElem?_move happly hkept hstays, hi, Option.map_some]

theorem Splice.made_maker : ∀ o ∈ maker.origins, maker.MadeAt o :=
  List.forall_mem_singleton.mpr ⟨_, rfl, rfl⟩

theorem Splice.follows_iff_prepended :
    (∀ o ∈ maker.origins, maker.MadeAt o) ∧
      (prepend [nop]).apply maker = .ok (maker.prepended [nop]) ∧
      (maker.prepended [nop]).origins = [1] ∧ (maker.prepended [nop]).MadeAt 1 := by
  have happly : (prepend [nop]).apply maker = .ok (maker.prepended [nop]) :=
    Code.prepend_eq_ok.mpr ⟨ordered_maker, rfl⟩
  obtain ⟨horigins, hfollows⟩ := follows_iff made_maker happly
  exact ⟨made_maker, happly, horigins, (hfollows 0 (by decide)).2 id⟩

/-- An instruction put in where the value is made takes its name. -/
theorem Splice.origin_of_inserted :
    (∀ a ∈ maker.attributes, a.Within maker.size) ∧ (∀ o ∈ maker.origins, maker.MadeAt o) ∧
      maker.insert 0 [nop] = .ok (maker.inserted 0 [nop]) ∧
      (maker.inserted 0 [nop]).origins = [0] ∧
      (maker.inserted 0 [nop]).instructions[0]? = some nop ∧ ¬(maker.inserted 0 [nop]).MadeAt 0 ∧
      (maker.inserted 0 [nop]).instructions[1]? = maker.instructions[0]? := by
  refine ⟨List.forall_mem_singleton.mpr ⟨?_, List.pairwise_singleton _ _⟩, made_maker,
    Code.insert_eq_ok.mpr ⟨by decide, ordered_maker, rfl⟩, rfl, rfl, ?_, rfl⟩
  · exact List.forall_mem_singleton.mpr
      ⟨by decide, trivial, List.forall_mem_singleton.mpr (by decide : 0 < 3)⟩
  · rintro ⟨i, hi, hnew⟩
    cases hi
    cases hnew

end Origins

end PluginGuard.ClassFile
