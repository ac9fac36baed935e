import PluginGuard.Proofs.ClassFile.Code.Passes

/-!
# Distances under other choices of long forms

A long form moves what lies behind it by two bytes, and the padding of a switch lets a move through,
takes it up or doubles it. So with more long forms no distance falls by more than two bytes, and none
at all falls that has no switch in it or nothing moved in front of it. From that, a body that some
choice of long forms lays out with two bytes to spare where a distance can fall is laid out, with no
long form that the choice does not have.
-/
namespace PluginGuard.ClassFile

/-! ### One instruction -/

def Instruction.isSwitch (i : Instruction) : Bool :=
  match i.operand with
  | .table .. | .lookup .. => true
  | _ => false

namespace Instruction

variable {i : Instruction} {b b' : Bool} {pc pc' d m : Nat}

theorem exists_size_of_switch (h : i.isSwitch = true) :
    ∃ words, ∀ pc b, pc + i.size pc b = 4 * ((pc + 4) / 4 + words) := by
  obtain ⟨opcode, operand⟩ := i
  cases operand with
  | table otherwise low targets =>
    refine ⟨3 + targets.length, fun pc b => ?_⟩
    simp only [size, switchPadding]
    omega
  | lookup otherwise pairs =>
    refine ⟨2 + 2 * pairs.length, fun pc b => ?_⟩
    simp only [size, switchPadding]
    omega
  | _ => cases h

theorem exists_size_of_plain (h : i.isSwitch = false) :
    ∃ short long, (long = short ∨ long = short + 2) ∧
      ∀ pc b, i.size pc b = if b then long else short := by
  obtain ⟨opcode, operand⟩ := i
  cases operand with
  | table | lookup => cases h
  | branch t =>
    refine ⟨if Opcode.isLongBranch opcode then 5 else 3, 5, ?_, fun pc b => ?_⟩
    · split
      · exact .inl rfl
      · exact .inr rfl
    · cases b with
      | false => simp [size, isLong]
      | true => simp [size, isLong]
  | _ => exact ⟨_, _, .inl rfl, fun pc b => by cases b <;> rfl⟩

theorem size_add_le (hb : b = true → b' = true) (h : pc + 4 * m ≤ pc') :
    pc + i.size pc b + 4 * m ≤ pc' + i.size pc' b' := by
  cases hswitch : i.isSwitch with
  | true =>
    obtain ⟨words, hsize⟩ := exists_size_of_switch hswitch
    rw [hsize, hsize]
    omega
  | false =>
    obtain ⟨short, long, hlong, hsize⟩ := exists_size_of_plain hswitch
    rw [hsize, hsize]
    cases b <;> cases b' <;> simp at hb ⊢ <;> omega

theorem size_add_le_of_plain (hplain : i.isSwitch = false) (hb : b = true → b' = true)
    (h : pc + d ≤ pc') : pc + i.size pc b + d ≤ pc' + i.size pc' b' := by
  obtain ⟨short, long, hlong, hsize⟩ := exists_size_of_plain hplain
  rw [hsize, hsize]
  cases b <;> cases b' <;> simp at hb ⊢ <;> omega

theorem size_mod_two (h : pc' % 2 = pc % 2) :
    (pc' + i.size pc' b') % 2 = (pc + i.size pc b) % 2 := by
  cases hswitch : i.isSwitch with
  | true =>
    obtain ⟨words, hsize⟩ := exists_size_of_switch hswitch
    rw [hsize, hsize]
    omega
  | false =>
    obtain ⟨short, long, hlong, hsize⟩ := exists_size_of_plain hswitch
    rw [hsize, hsize]
    cases b <;> cases b' <;> simp <;> omega

end Instruction

/-! ### Two layouts of one body -/

namespace BodyLayout

open Instruction

variable {is : List Instruction} {v w : List Bool} {lo hi k d m : Nat}

theorem runs_under (is : List Instruction) (w : List Bool) :
    (under is w).offset 0 = 0 ∧ (under is w).Runs 0 (is.zip w) := by
  refine @runs_of_places (under is w) (is.zip w) [] 0 ?_
  rw [List.nil_append, ← toList_offsetsOf]
  rfl

theorem offset_under_zero (is : List Instruction) (w : List Bool) : (under is w).offset 0 = 0 :=
  (runs_under is w).1

theorem offset_under_succ {i : Instruction} {b : Bool} (hi : is[k]? = some i)
    (hb : w[k]? = some b) : (under is w).offset (k + 1) =
      (under is w).offset k + i.size ((under is w).offset k) b := by
  have hzip : (is.zip w)[k]? = some (i, b) := List.getElem?_zip_eq_some.mpr ⟨hi, hb⟩
  have hstep := (runs_under is w).2.step hzip
  rwa [Nat.zero_add] at hstep

theorem climbs_under (hlength : w.length = is.length) : Climbs (under is w).offset is.length := by
  have hclimbs := (runs_under is w).2.climbs
  rwa [List.length_zip, hlength, Nat.min_self] at hclimbs

structure Grows (is : List Instruction) (v w : List Bool) : Prop where
  length_left : v.length = is.length
  length_right : w.length = is.length
  fewer : Fewer v w

namespace Grows

variable (grows : Grows is v w)
include grows

theorem exists_step (hk : k < is.length) : ∃ i b b', is[k]? = some i ∧ w[k]? = some b' ∧
    (b = true → b' = true) ∧
    (under is v).offset (k + 1) = (under is v).offset k + i.size ((under is v).offset k) b ∧
    (under is w).offset (k + 1) = (under is w).offset k + i.size ((under is w).offset k) b' := by
  have hi : is[k]? = some is[k] := List.getElem?_eq_getElem hk
  obtain ⟨b, hb⟩ : ∃ b, v[k]? = some b :=
    ⟨_, List.getElem?_eq_getElem (Nat.lt_of_lt_of_eq hk grows.length_left.symm)⟩
  obtain ⟨b', hb'⟩ : ∃ b', w[k]? = some b' :=
    ⟨_, List.getElem?_eq_getElem (Nat.lt_of_lt_of_eq hk grows.length_right.symm)⟩
  refine ⟨_, _, _, hi, hb', fun h => ?_, offset_under_succ hi hb, offset_under_succ hi hb'⟩
  have hmore := grows.fewer k (hb.trans (congrArg some h))
  exact Option.some.inj (hb'.symm.trans hmore)

theorem offset_add_le (hle : lo ≤ hi) (hhi : hi ≤ is.length)
    (h : (under is v).offset lo + 4 * m ≤ (under is w).offset lo) :
    (under is v).offset hi + 4 * m ≤ (under is w).offset hi := by
  induction hle with
  | refl => exact h
  | @step hi _ ih =>
    obtain ⟨i, b, b', -, -, hb, hv, hw⟩ := grows.exists_step hhi
    rw [hv, hw]
    exact size_add_le hb (ih (Nat.le_of_succ_le hhi))

theorem offset_le (hk : k ≤ is.length) : (under is v).offset k ≤ (under is w).offset k := by
  have hzero : (under is v).offset 0 + 4 * 0 ≤ (under is w).offset 0 := by
    simp [offset_under_zero]
  exact grows.offset_add_le (Nat.zero_le k) hk hzero

theorem offset_mod_two (hk : k ≤ is.length) :
    (under is w).offset k % 2 = (under is v).offset k % 2 := by
  induction k with
  | zero => rw [offset_under_zero, offset_under_zero]
  | succ k ih =>
    obtain ⟨i, b, b', -, -, -, hv, hw⟩ := grows.exists_step hk
    rw [hv, hw]
    exact size_mod_two (ih (Nat.le_of_succ_le hk))

theorem offset_add_le_of_plain (hle : lo ≤ hi) (hhi : hi ≤ is.length)
    (plain : ∀ j i, lo ≤ j → j < hi → is[j]? = some i → i.isSwitch = false)
    (h : (under is v).offset lo + d ≤ (under is w).offset lo) :
    (under is v).offset hi + d ≤ (under is w).offset hi := by
  induction hle with
  | refl => exact h
  | @step hi hle ih =>
    obtain ⟨i, b, b', his, -, hb, hv, hw⟩ := grows.exists_step hhi
    rw [hv, hw]
    exact size_add_le_of_plain (plain hi i hle (Nat.lt_succ_self hi) his) hb
      (ih (Nat.le_of_succ_le hhi) fun j i hj hj' => plain j i hj (Nat.lt_succ_of_lt hj'))

theorem offset_eq (hk : k ≤ is.length) (short : ∀ j < k, w[j]? ≠ some true) :
    (under is w).offset k = (under is v).offset k := by
  induction k with
  | zero => rw [offset_under_zero, offset_under_zero]
  | succ k ih =>
    obtain ⟨i, b, b', -, hw', hb, hv, hw⟩ := grows.exists_step hk
    obtain rfl : b' = false := by
      cases b' with
      | false => rfl
      | true => exact absurd hw' (short k (Nat.lt_succ_self k))
    obtain rfl : b = false := Bool.eq_false_iff.mpr fun h => Bool.noConfusion (hb h)
    rw [hv, hw, ih (Nat.le_of_succ_le hk) fun j hj => short j (Nat.lt_succ_of_lt hj)]

theorem distance_le (hle : lo ≤ hi) (hhi : hi ≤ is.length) :
    (under is v).offset hi + (under is w).offset lo ≤
      (under is w).offset hi + (under is v).offset lo + 2 := by
  have hlo := grows.offset_le (Nat.le_trans hle hhi)
  have heven := grows.offset_mod_two (Nat.le_trans hle hhi)
  -- The multiple of four in the move of the near end is let through.
  have hmove := grows.offset_add_le (m := ((under is w).offset lo - (under is v).offset lo) / 4)
    hle hhi (by omega)
  omega

theorem distance_le_of_steady (hle : lo ≤ hi) (hhi : hi ≤ is.length)
    (steady : (∀ j i, lo ≤ j → j < hi → is[j]? = some i → i.isSwitch = false) ∨
      ∀ j < lo, w[j]? ≠ some true) :
    (under is v).offset hi + (under is w).offset lo ≤
      (under is w).offset hi + (under is v).offset lo := by
  have hlo := grows.offset_le (Nat.le_trans hle hhi)
  obtain plain | short := steady
  · have hmove := grows.offset_add_le_of_plain
      (d := (under is w).offset lo - (under is v).offset lo) hle hhi plain (by omega)
    omega
  · have hsame := grows.offset_eq (Nat.le_trans hle hhi) short
    have hend := grows.offset_le hhi
    omega

end Grows

end BodyLayout

/-! ### Choices that lay a body out -/

namespace Code

open Instruction

variable {pool : Pool} {c : Code} {v v' w : List Bool} {l : BodyLayout}

/-- Under this choice of long forms the body is not too long and every short jump reaches its
target. -/
structure Admits (c : Code) (w : List Bool) : Prop where
  widens : Widens c.instructions w
  small : (BodyLayout.under c.instructions w).offset c.size ≤ maxLength
  near : ∀ (k : Nat) (i : Instruction) (b : Bool), c.instructions[k]? = some i → w[k]? = some b →
    i.Near (.under c.instructions w) k b

/-- Something in front of both places has the long form, and a switch between them can take the
move up. -/
def Absorbs (c : Code) (w : List Bool) (k t : Nat) : Prop :=
  (∃ j < min k t, w[j]? = some true) ∧
    ∃ j i, min k t ≤ j ∧ j < max k t ∧ c.instructions[j]? = some i ∧ i.isSwitch = true

/-- Where a distance can fall, the short jumps have two bytes to spare. -/
def Spares (c : Code) (w : List Bool) : Prop :=
  ∀ (k : Nat) (i : Instruction) (b : Bool) (t : Nat), c.instructions[k]? = some i →
    w[k]? = some b → i.operand = .branch t → i.isLong b = false → c.Absorbs w k t →
    -32766 ≤ ((BodyLayout.under c.instructions w).offset t : Int) -
        (BodyLayout.under c.instructions w).offset k ∧
      ((BodyLayout.under c.instructions w).offset t : Int) -
        (BodyLayout.under c.instructions w).offset k ≤ 32765

theorem steady_of_not_absorbs {lo hi : Nat} (h : ¬((∃ j < lo, w[j]? = some true) ∧
      ∃ j i, lo ≤ j ∧ j < hi ∧ c.instructions[j]? = some i ∧ i.isSwitch = true)) :
    (∀ j i, lo ≤ j → j < hi → c.instructions[j]? = some i → i.isSwitch = false) ∨
      ∀ j < lo, w[j]? ≠ some true := by
  obtain hfront | hswitch := Classical.not_and_iff_not_or_not.mp h
  · exact .inr fun j hj hw => hfront ⟨j, hj, hw⟩
  · exact .inl fun j i hlo hhi hi => Bool.eq_false_iff.mpr fun h =>
      hswitch ⟨j, i, hlo, hhi, hi, h⟩

theorem near_of_fewer (targets : ∀ i ∈ c.instructions, ∀ t ∈ i.targets, t < c.size)
    (admits : c.Admits w) (spares : c.Spares w) (hlength : v.length = c.size) (fewer : Fewer v w)
    {k : Nat} {i : Instruction} {b : Bool} (hi : c.instructions[k]? = some i)
    (hb : w[k]? = some b) : i.Near (.under c.instructions v) k b := by
  intro t ht hshort
  have grows : BodyLayout.Grows c.instructions v w := ⟨hlength, admits.widens.length_eq, fewer⟩
  have climbs := BodyLayout.climbs_under hlength
  have hk : k ≤ c.size := Nat.le_of_lt (List.getElem?_eq_some_iff.mp hi).1
  have htarget : t ≤ c.size := Nat.le_of_lt (targets i (List.mem_of_getElem? hi) t (by
    rw [Instruction.targets, ht]
    exact List.mem_singleton_self t))
  have hreach := admits.near k i b hi hb t ht hshort
  simp only [fitsSignedHalf, Bool.and_eq_true, decide_eq_true_eq] at hreach ⊢
  by_cases habsorbs : c.Absorbs w k t
  · have hspare := spares k i b t hi hb ht hshort habsorbs
    obtain hle | hle := Nat.le_total k t
    · have hforward := climbs.le hle htarget
      have hfall := grows.distance_le hle htarget
      omega
    · have hbackward := climbs.le hle hk
      have hfall := grows.distance_le hle hk
      omega
  · obtain hle | hle := Nat.le_total k t
    · have hforward := climbs.le hle htarget
      have hfall := grows.distance_le_of_steady hle htarget (steady_of_not_absorbs (by
        simpa only [Absorbs, Nat.min_eq_left hle, Nat.max_eq_right hle] using habsorbs))
      omega
    · have hbackward := climbs.le hle hk
      have hfall := grows.distance_le_of_steady hle hk (steady_of_not_absorbs (by
        simpa only [Absorbs, Nat.min_eq_right hle, Nat.max_eq_left hle] using habsorbs))
      omega

theorem exists_pass (targets : ∀ i ∈ c.instructions, ∀ t ∈ i.targets, t < c.size)
    (admits : c.Admits w) (spares : c.Spares w) (hlength : v.length = c.size)
    (fewer : Fewer v w) : ∃ v', passOver c.instructions v = .ok v' ∧ v'.length = c.size ∧
      Fewer v' w := by
  have near {k : Nat} {i : Instruction} (hi : c.instructions[k]? = some i) {b : Bool}
      (hb : w[k]? = some b) : i.Near (.under c.instructions v) k b :=
    near_of_fewer targets admits spares hlength fewer hi hb
  have hw : w.length = c.size := admits.widens.length_eq
  -- What does not reach its target has the long form in the choice, so there is one.
  have widened {k : Nat} {i : Instruction} {b : Bool} (hi : c.instructions[k]? = some i)
      (hb : v[k]? = some b) (hfar : ¬i.Near (.under c.instructions v) k b) :
      w[k]? = some true := by
    have hk : k < w.length := hw ▸ (List.getElem?_eq_some_iff.mp hi).1
    have hwk : w[k]? = some w[k] := List.getElem?_eq_getElem hk
    cases b with
    | true => exact absurd (near_widened _ k i) hfar
    | false =>
      cases hlong : w[k] with
      | true => rw [hwk, hlong]
      | false => exact absurd (near hi (hwk.trans (congrArg some hlong))) hfar
  obtain ⟨v', hpass⟩ : ∃ v', passOver c.instructions v = .ok v' := by
    refine Fallible.exists_mapM_eq_ok fun x hx => ?_
    obtain ⟨⟨i, b⟩, k⟩ := x
    rw [List.mk_mem_zipIdx_iff_getElem?] at hx
    obtain ⟨hi, hb⟩ := List.getElem?_zip_eq_some.mp hx
    simp only [needsLong_eq_ok]
    by_cases hnear : i.Near (.under c.instructions v) k b
    · exact ⟨b, targets i (List.mem_of_getElem? hi), .inl ⟨hnear, rfl⟩⟩
    · exact ⟨true, targets i (List.mem_of_getElem? hi),
        .inr ⟨hnear, admits.widens.widenable k i hi (widened hi hb hnear), rfl⟩⟩
  obtain ⟨hlength', hstep⟩ := (pass_eq_ok hlength).mp hpass
  refine ⟨v', hpass, hlength', fun k hk => ?_⟩
  have hlt : k < c.size := Nat.lt_of_lt_of_eq (List.getElem?_eq_some_iff.mp hk).1 hlength'
  have hi : c.instructions[k]? = some c.instructions[k] := List.getElem?_eq_getElem hlt
  obtain ⟨b, hb⟩ : ∃ b, v[k]? = some b :=
    ⟨_, List.getElem?_eq_getElem (Nat.lt_of_lt_of_eq hlt hlength.symm)⟩
  obtain ⟨-, ⟨-, hsame⟩ | ⟨hfar, -⟩⟩ := hstep k _ _ _ hi hb hk
  · exact fewer k (hb.trans (congrArg some hsame.symm))
  · exact widened hi hb hfar

theorem exists_settle (targets : ∀ i ∈ c.instructions, ∀ t ∈ i.targets, t < c.size)
    (admits : c.Admits w) (spares : c.Spares w) (passes : Nat) (hlength : v.length = c.size)
    (fewer : Fewer v w) : ∃ l, settle c.instructions passes v = .ok l ∧ Fewer l.widened w := by
  have small {v : List Bool} (hlength : v.length = c.size) (fewer : Fewer v w) :
      (BodyLayout.under c.instructions v).offset c.size ≤ maxLength := by
    have grows : BodyLayout.Grows c.instructions v w := ⟨hlength, admits.widens.length_eq, fewer⟩
    exact Nat.le_trans (grows.offset_le (Nat.le_refl _)) admits.small
  induction passes generalizing v with
  | zero =>
    obtain ⟨v', hpass, -, -⟩ := exists_pass targets admits spares hlength fewer
    exact ⟨_, settle_zero_of_pass (small hlength fewer) hpass, fewer⟩
  | succ passes ih =>
    obtain ⟨v', hpass, hlength', fewer'⟩ := exists_pass targets admits spares hlength fewer
    rw [settle_succ_of_pass (small hlength fewer) hpass]
    split
    · exact ⟨_, rfl, fewer⟩
    · exact ih hlength' fewer'

/-- A body that some choice of long forms lays out, with two bytes to spare for the jumps whose
distance can fall, is laid out, with no long form besides. So it is not refused for the length of a
jump or of the body. -/
theorem layout_of_admits (wf : c.WellFormed pool) (admits : c.Admits w) (spares : c.Spares w) :
    (∃ l, c.layout = .ok l ∧ Fewer l.widened w) ∧
      (∀ k, c.encode ≠ .error (.branchOverflow k)) ∧
      ∀ length, c.encode ≠ .error (.codeTooLarge length) := by
  have none : Fewer (c.instructions.map fun _ => false) w := by
    intro k hk
    rw [List.getElem?_map] at hk
    cases hi : c.instructions[k]? <;> simp [hi] at hk
  obtain ⟨l, hsettle, fewer⟩ :=
    exists_settle wf.targets admits spares c.size (List.length_map _) none
  have hlayout : c.layout = .ok l := by
    rw [layout, if_neg (by simpa using List.ne_nil_of_length_pos wf.nonempty)]
    exact hsettle
  exact ⟨⟨l, hlayout, fewer⟩, fun k h => ofTables_of_encode hlayout h,
    fun length h => ofTables_of_encode hlayout h⟩

def overSwitch (cases : Nat) : Code :=
  .ofInstructions 1 0 [⟨Opcode.goto, .branch 5⟩, ⟨0x10, .byte 0⟩, ⟨0x99, .branch 5⟩,
    ⟨0xAA, .table 5 0 (List.replicate cases 5)⟩, .simple 0x00, .simple 0xB1]

def jumpForm (long : Bool) : List Bool := [long, false, false, false, false, false]

theorem offsets_overSwitch (cases : Nat) (long : Bool) :
    (BodyLayout.under (overSwitch cases).instructions (jumpForm long)).offsets =
      #[0, if long then 5 else 3, if long then 7 else 5, if long then 10 else 8, 24 + 4 * cases,
        25 + 4 * cases, 26 + 4 * cases] := by
  have hgoto : Opcode.isLongBranch Opcode.goto = false := rfl
  have hifeq : Opcode.isLongBranch 0x99 = false := rfl
  apply Array.ext'
  rw [BodyLayout.under, toList_offsetsOf]
  cases long <;>
    simp only [overSwitch, jumpForm, ofInstructions, placesFrom, Instruction.size, isLong,
      Instruction.simple, switchPadding, hgoto, hifeq, List.zip_cons_cons, List.zip_nil_right,
      List.length_replicate, Bool.or_false, Bool.false_eq_true, if_true, if_false, List.cons.injEq,
      true_and, and_true]
  all_goals omega

theorem small_overSwitch {cases : Nat} (hsmall : cases ≤ 16377) (long : Bool) :
    (BodyLayout.under (overSwitch cases).instructions (jumpForm long)).offset
      (overSwitch cases).size ≤ maxLength := by
  rw [BodyLayout.offset, offsets_overSwitch]
  change 26 + 4 * cases ≤ maxLength
  rw [maxLength]
  omega

theorem branch_overSwitch {cases k t : Nat} {i : Instruction}
    (hi : (overSwitch cases).instructions[k]? = some i) (ht : i.operand = .branch t) :
    t = 5 ∧ (k = 0 ∧ i.opcode = Opcode.goto ∨ k = 2 ∧ i.opcode = 0x99) := by
  obtain _ | _ | _ | _ | _ | _ | k := k
  all_goals cases hi
  all_goals cases ht
  · exact ⟨rfl, .inl ⟨rfl, rfl⟩⟩
  · exact ⟨rfl, .inr ⟨rfl, rfl⟩⟩

theorem wellFormed_overSwitch {cases : Nat} (hpos : 0 < cases) (hsmall : cases ≤ 16377) :
    (overSwitch cases).WellFormed .empty where
  nonempty := Nat.succ_pos _
  conforms := by
    simp only [overSwitch, ofInstructions, List.forall_mem_cons]
    refine ⟨⟨_, rfl, trivial⟩, ⟨_, rfl, trivial⟩, ⟨_, rfl, trivial⟩, ⟨_, rfl, ?_⟩, ⟨_, rfl, trivial⟩,
      ⟨_, rfl, trivial⟩, List.forall_mem_nil _⟩
    simp only [Operand.Fits, List.length_replicate, Int32.toInt_zero]
    omega
  targets := by
    simp [overSwitch, ofInstructions, Code.size, Instruction.targets, Operand.targets,
      Instruction.simple]
  handlers := List.forall_mem_nil _
  attributes := List.forall_mem_nil _
  named := List.forall_mem_nil _

theorem admits_overSwitch {cases : Nat} (hsmall : cases ≤ 8187) :
    (overSwitch cases).Admits (jumpForm true) where
  widens := by
    refine ⟨rfl, fun k i hi hw => ?_⟩
    obtain _ | _ | _ | _ | _ | _ | k := k
    all_goals cases hw
    cases hi
    exact ⟨⟨5, rfl⟩, rfl, rfl⟩
  small := small_overSwitch (Nat.le_trans hsmall (by decide)) true
  near := by
    intro k i b hi hb t ht hshort
    obtain ⟨rfl, ⟨rfl, -⟩ | ⟨rfl, -⟩⟩ := branch_overSwitch hi ht
    · cases hb
      cases hshort
    · simp [BodyLayout.offset, offsets_overSwitch, fitsSignedHalf]
      omega

theorem spares_overSwitch {cases : Nat} (hsmall : cases ≤ 8186) :
    (overSwitch cases).Spares (jumpForm true) := by
  intro k i b t hi hb ht hshort _
  obtain ⟨rfl, ⟨rfl, -⟩ | ⟨rfl, -⟩⟩ := branch_overSwitch hi ht
  · cases hb
    cases hshort
  · simp [BodyLayout.offset, offsets_overSwitch]
    omega

theorem layout_of_admits_overSwitch :
    (overSwitch 8186).WellFormed .empty ∧ (overSwitch 8186).Admits (jumpForm true) ∧
      (overSwitch 8186).Spares (jumpForm true) ∧
      (∃ l, (overSwitch 8186).layout = .ok l ∧ Fewer l.widened (jumpForm true)) ∧
        (∀ k, (overSwitch 8186).encode ≠ .error (.branchOverflow k)) ∧
        ∀ length, (overSwitch 8186).encode ≠ .error (.codeTooLarge length) := by
  have wf : (overSwitch 8186).WellFormed .empty :=
    wellFormed_overSwitch (by decide) (by decide)
  have admits : (overSwitch 8186).Admits (jumpForm true) := admits_overSwitch (by decide)
  have spares : (overSwitch 8186).Spares (jumpForm true) := spares_overSwitch (by decide)
  exact ⟨wf, admits, spares, layout_of_admits wf admits spares⟩

theorem pass_overSwitch {cases : Nat} (hfar : 8187 ≤ cases) :
    passOver (overSwitch cases).instructions (jumpForm false) = .error (.branchOverflow 2) := by
  have hover (near : Nat) (hnear : near ≤ 5) :
      fitsSignedHalf (((25 + 4 * cases : Nat) : Int) - (near : Int)) = false := by
    simp only [fitsSignedHalf, Bool.and_eq_false_iff, decide_eq_false_iff_not]
    omega
  have hjump : needsLong 6 #[0, 3, 5, 8, 24 + 4 * cases, 25 + 4 * cases, 26 + 4 * cases]
      ((⟨Opcode.goto, .branch 5⟩, false), 0) = .ok true := by
    change (if fitsSignedHalf (((25 + 4 * cases : Nat) : Int) - ((0 : Nat) : Int)) then _ else _) = _
    rw [hover 0 (by decide)]
    rfl
  have hbranch : needsLong 6 #[0, 3, 5, 8, 24 + 4 * cases, 25 + 4 * cases, 26 + 4 * cases]
      ((⟨0x99, .branch 5⟩, false), 2) = .error (.branchOverflow 2) := by
    change (if fitsSignedHalf (((25 + 4 * cases : Nat) : Int) - ((5 : Nat) : Int)) then _ else _) = _
    rw [hover 5 (by decide)]
    rfl
  rw [passOver, offsets_overSwitch]
  simp only [overSwitch, jumpForm, ofInstructions, List.zip_cons_cons, List.zipIdx_cons,
    List.mapM_cons, List.length_cons, List.length_nil, Nat.zero_add, Nat.reduceAdd,
    Bool.false_eq_true, if_false, hjump, hbranch]
  rfl

/-- With one byte to spare under the long jump, the branch is refused for its distance under the
short one. -/
theorem refused_overSwitch :
    (overSwitch 8187).WellFormed .empty ∧ (overSwitch 8187).Admits (jumpForm true) ∧
      (overSwitch 8187).encode = .error (.branchOverflow 2) := by
  refine ⟨wellFormed_overSwitch (by decide) (by decide), admits_overSwitch (by decide), ?_⟩
  have hlayout : (overSwitch 8187).layout = .error (.branchOverflow 2) :=
    settle_of_pass_eq_error (small_overSwitch (by decide) false) (pass_overSwitch (by decide))
  rw [encode, hlayout]
  rfl

end Code

end PluginGuard.ClassFile
