import PluginGuard.Proofs.ClassFile.Code.Reread

/-!
# The passes of a layout

A pass leaves the jumps as they are that reach their targets, and gives the others the long form.
So choices only grow, the passes that are made are enough, and under the layout that comes out
every short jump reaches its target: writing the instructions does not fail any more.
-/
namespace PluginGuard.ClassFile

/-! ### One pass -/

def BodyLayout.under (is : List Instruction) (w : List Bool) : BodyLayout :=
  ⟨w, offsetsOf (is.zip w)⟩

namespace Instruction

def Near (l : BodyLayout) (k : Nat) (i : Instruction) (widened : Bool) : Prop :=
  ∀ t, i.operand = .branch t → i.isLong widened = false →
    fitsSignedHalf ((l.offset t : Int) - (l.offset k : Int)) = true

def Fewer (v w : List Bool) : Prop := ∀ k : Nat, v[k]? = some true → w[k]? = some true

def passOver (is : List Instruction) (w : List Bool) : Except Fault (List Bool) :=
  (is.zip w).zipIdx.mapM (needsLong is.length (BodyLayout.under is w).offsets)

variable {i : Instruction} {is : List Instruction} {v w w' : List Bool} {l : BodyLayout} {k n : Nat}

theorem near_widened (l : BodyLayout) (k : Nat) (i : Instruction) : i.Near l k true := by
  intro t _ hshort
  rw [isLong, Bool.true_or] at hshort
  cases hshort

theorem needsLong_eq_ok {b b' : Bool} :
    needsLong n l.offsets ((i, b), k) = .ok b' ↔ (∀ t ∈ i.targets, t < n) ∧
      (i.Near l k b ∧ b' = b ∨ ¬i.Near l k b ∧ i.Widenable ∧ b' = true) := by
  have hwithin : i.targets.any (n ≤ ·) = true ↔ ¬∀ t ∈ i.targets, t < n := by simp
  rw [needsLong]
  split
  · next hany => simp [hwithin.mp hany]
  · next hany =>
    rw [hwithin, Classical.not_not] at hany
    rw [and_iff_right hany]
    split
    · next t ht =>
      split
      · next hlong =>
        have near : i.Near l k b := fun _ _ hshort => absurd hlong (by simp [hshort])
        simp [near, eq_comm]
      · next hshort =>
        rw [Bool.not_eq_true, isLong, Bool.or_eq_false_iff] at hshort
        obtain ⟨rfl, hshort⟩ := hshort
        have hnear : i.Near l k false ↔
            fitsSignedHalf ((l.offset t : Int) - (l.offset k : Int)) = true := by
          simp [Near, ht, isLong, hshort]
        change (if fitsSignedHalf ((l.offset t : Int) - (l.offset k : Int)) = true then _ else _) =
          _ ↔ _
        split
        · next hfits => simp [hnear.mpr hfits, eq_comm]
        · next hfar =>
          have hwiden : i.Widenable ↔ Opcode.isConditionalBranch i.opcode = false := by
            simp [Widenable, ht, hshort]
          rw [← hnear] at hfar
          split
          · next hconditional => simp [hfar, hwiden, hconditional]
          · next hplain => simp [hfar, hwiden, hplain, eq_comm]
    · next hbranch =>
      have near : i.Near l k b := fun t ht => absurd ht (hbranch t)
      simp [near, eq_comm]

theorem pass_eq_ok (hlength : w.length = is.length) :
    passOver is w = .ok w' ↔ w'.length = is.length ∧ ∀ (k : Nat) (i : Instruction) (b b' : Bool),
      is[k]? = some i → w[k]? = some b → w'[k]? = some b' → (∀ t ∈ i.targets, t < is.length) ∧
        (i.Near (.under is w) k b ∧ b' = b ∨ ¬i.Near (.under is w) k b ∧ i.Widenable ∧ b' = true) := by
  have hzip : (is.zip w).zipIdx.length = is.length := by simp [hlength]
  rw [passOver, Fallible.mapM_eq_ok, hzip]
  refine and_congr_right fun _ => forall_congr' fun k => ⟨fun h i b b' hi hb hb' => ?_,
    fun h x b' hx hb' => ?_⟩
  · exact needsLong_eq_ok.mp (h _ b' (getElem?_zip_zipIdx hi hb) hb')
  · rw [List.getElem?_zipIdx, Nat.zero_add] at hx
    obtain ⟨⟨i, b⟩, hzip, rfl⟩ := Option.map_eq_some_iff.mp hx
    obtain ⟨hi, hb⟩ := List.getElem?_zip_eq_some.mp hzip
    exact needsLong_eq_ok.mpr (h i b b' hi hb hb')

/-! ### Choices grow -/

theorem fewer_cons {b b' : Bool} :
    Fewer (b :: v) (b' :: w) ↔ (b = true → b' = true) ∧ Fewer v w := by
  constructor
  · intro h
    exact ⟨fun hb => by simpa using h 0 (by simp [hb]), fun k => by simpa using h (k + 1)⟩
  · rintro ⟨hb, h⟩ k
    cases k with
    | zero => simpa using hb
    | succ k => simpa using h k

theorem Fewer.count_false_le (h : Fewer v w) (hlength : v.length = w.length) :
    w.count false ≤ v.count false ∧ (w.count false = v.count false → w = v) := by
  induction v generalizing w with
  | nil => simp [List.eq_nil_of_length_eq_zero hlength.symm]
  | cons b v ih =>
    obtain ⟨b', w, rfl⟩ := List.exists_cons_of_length_eq_add_one hlength.symm
    obtain ⟨hb, h⟩ := fewer_cons.mp h
    obtain ⟨hle, heq⟩ := ih h (Nat.succ.inj hlength)
    cases b with
    | true =>
      obtain rfl := hb rfl
      simpa using ⟨hle, heq⟩
    | false =>
      cases b' with
      | true =>
        simp only [List.count_cons_self, List.count_cons_of_ne (a := false) (b := true) (by decide)]
        exact ⟨by omega, fun h => by omega⟩
      | false => simpa using ⟨hle, heq⟩

theorem fewer_of_pass (hlength : w.length = is.length) (hpass : passOver is w = .ok w') :
    Fewer w w' := by
  obtain ⟨hlength', hstep⟩ := (pass_eq_ok hlength).mp hpass
  intro k hk
  have hlt : k < is.length := hlength ▸ (List.getElem?_eq_some_iff.mp hk).1
  have hb' : w'[k]? = some w'[k] := List.getElem?_eq_getElem (hlength' ▸ hlt)
  obtain ⟨-, ⟨-, hsame⟩ | ⟨hfar, -⟩⟩ := hstep k _ _ _ (List.getElem?_eq_getElem hlt) hk hb'
  · rw [hb', hsame]
  · exact absurd (near_widened _ _ _) hfar

theorem near_of_pass (hlength : w.length = is.length) (hpass : passOver is w = .ok w) {b : Bool}
    (hi : is[k]? = some i) (hb : w[k]? = some b) : i.Near (.under is w) k b := by
  obtain ⟨-, ⟨near, -⟩ | ⟨-, -, rfl⟩⟩ := ((pass_eq_ok hlength).mp hpass).2 k i b b hi hb hb
  · exact near
  · exact near_widened _ _ _

end Instruction

/-! ### All passes -/

/-- The passes over the instructions from a choice on, one after the other until one asks for no
further long form: how many they are and what comes out. -/
inductive Settles (is : List Instruction) : List Bool → Nat → Except Fault BodyLayout → Prop
  | large {w : List Bool} (large : Code.maxLength < (BodyLayout.under is w).offset is.length) :
    Settles is w 1 (.error (.codeTooLarge ((BodyLayout.under is w).offset is.length)))
  | refused {w : List Bool} {e : Fault}
    (small : (BodyLayout.under is w).offset is.length ≤ Code.maxLength)
    (pass : Instruction.passOver is w = .error e) : Settles is w 1 (.error e)
  | settled {w : List Bool} (small : (BodyLayout.under is w).offset is.length ≤ Code.maxLength)
    (pass : Instruction.passOver is w = .ok w) : Settles is w 1 (.ok (.under is w))
  | again {w w' : List Bool} {passes : Nat} {result : Except Fault BodyLayout}
    (small : (BodyLayout.under is w).offset is.length ≤ Code.maxLength)
    (pass : Instruction.passOver is w = .ok w') (changed : w' ≠ w)
    (rest : Settles is w' passes result) : Settles is w (passes + 1) result

section Settle

variable {is : List Instruction} {w : List Bool} {l : BodyLayout} {passes : Nat}

open Instruction

theorem settle_of_large (large : Code.maxLength < (BodyLayout.under is w).offset is.length) :
    settle is passes w = .error (.codeTooLarge ((BodyLayout.under is w).offset is.length)) := by
  have hlarge : Code.maxLength < (offsetsOf (is.zip w)).getD is.length 0 := large
  unfold settle
  simp only [if_pos hlarge]
  rfl

theorem settle_zero_of_pass (small : (BodyLayout.under is w).offset is.length ≤ Code.maxLength)
    {w' : List Bool} (hpass : passOver is w = .ok w') : settle is 0 w = .ok (.under is w) := by
  have hfits : ¬Code.maxLength < (offsetsOf (is.zip w)).getD is.length 0 := Nat.not_lt.mpr small
  have hmapM : (is.zip w).zipIdx.mapM (needsLong is.length (offsetsOf (is.zip w))) = .ok w' := hpass
  rw [settle]
  simp only [if_neg hfits, hmapM, ite_self]
  rfl

theorem settle_succ_of_pass (small : (BodyLayout.under is w).offset is.length ≤ Code.maxLength)
    {w' : List Bool} (hpass : passOver is w = .ok w') : settle is (passes + 1) w =
      if w' = w then .ok (.under is w) else settle is passes w' := by
  have hfits : ¬Code.maxLength < (offsetsOf (is.zip w)).getD is.length 0 := Nat.not_lt.mpr small
  have hmapM : (is.zip w).zipIdx.mapM (needsLong is.length (offsetsOf (is.zip w))) = .ok w' := hpass
  rw [settle]
  simp only [if_neg hfits, hmapM]
  rfl

theorem settle_of_pass_eq_error (small : (BodyLayout.under is w).offset is.length ≤ Code.maxLength)
    {e : Fault} (hpass : passOver is w = .error e) : settle is passes w = .error e := by
  have hfits : ¬Code.maxLength < (offsetsOf (is.zip w)).getD is.length 0 := Nat.not_lt.mpr small
  have hmapM : (is.zip w).zipIdx.mapM (needsLong is.length (offsetsOf (is.zip w))) = .error e := hpass
  unfold settle
  simp only [if_neg hfits, hmapM]

theorem count_false_lt_of_pass {w' : List Bool} (hlength : w.length = is.length)
    (hpass : passOver is w = .ok w') (changed : w' ≠ w) : w'.count false < w.count false := by
  have hlength' := ((pass_eq_ok hlength).mp hpass).1
  obtain ⟨hle, heq⟩ := (fewer_of_pass hlength hpass).count_false_le (hlength.trans hlength'.symm)
  exact Nat.lt_of_le_of_ne hle (mt heq changed)

theorem settles_one (kept : ∀ w', passOver is w = .ok w' → w' = w) :
    Settles is w 1 (settle is passes w) := by
  by_cases small : (BodyLayout.under is w).offset is.length ≤ Code.maxLength
  · cases hpass : passOver is w with
    | error e =>
      rw [settle_of_pass_eq_error small hpass]
      exact .refused small hpass
    | ok w' =>
      obtain rfl := kept w' hpass
      rw [settle_of_pass small hpass]
      exact .settled small hpass
  · have large := Nat.lt_of_not_le small
    rw [settle_of_large large]
    exact .large large

/-- All passes but the last widen a jump. So there is at most one more than the choice has short
forms, and a layout that makes that many has made all. -/
theorem exists_settles (hlength : w.length = is.length) (hcount : w.count false ≤ passes) :
    ∃ k ≤ passes + 1, Settles is w k (settle is passes w) := by
  induction passes generalizing w with
  | zero =>
    have kept : ∀ w', passOver is w = .ok w' → w' = w := by
      intro w' hpass
      apply Classical.byContradiction
      intro changed
      have hlt := count_false_lt_of_pass hlength hpass changed
      omega
    exact ⟨1, Nat.le_refl _, settles_one kept⟩
  | succ passes ih =>
    by_cases kept : ∀ w', passOver is w = .ok w' → w' = w
    · exact ⟨1, Nat.succ_le_succ (Nat.zero_le _), settles_one kept⟩
    · simp only [Classical.not_forall] at kept
      obtain ⟨w', hpass, changed⟩ := kept
      by_cases small : (BodyLayout.under is w).offset is.length ≤ Code.maxLength
      · have hlength' := ((pass_eq_ok hlength).mp hpass).1
        have hlt := count_false_lt_of_pass hlength hpass changed
        obtain ⟨k, hk, rest⟩ := ih hlength' (by omega)
        rw [settle_succ_of_pass small hpass, if_neg changed]
        exact ⟨k + 1, Nat.succ_le_succ hk, .again small hpass changed rest⟩
      · have large := Nat.lt_of_not_le small
        rw [settle_of_large large]
        exact ⟨1, Nat.succ_le_succ (Nat.zero_le _), .large large⟩

theorem Settles.exists_pass (h : Settles is w passes (.ok l)) (hlength : w.length = is.length) :
    ∃ w', w'.length = is.length ∧ passOver is w' = .ok w' ∧ l = .under is w' := by
  generalize hresult : Except.ok l = result at h
  induction h with
  | large | refused => cases hresult
  | @settled w _ pass =>
    cases hresult
    exact ⟨w, hlength, pass, rfl⟩
  | again _ pass _ _ ih => exact ih ((pass_eq_ok hlength).mp pass).1 hresult

theorem Settles.unique {k : Nat} {result result' : Except Fault BodyLayout}
    (h : Settles is w passes result) (h' : Settles is w k result') :
    k = passes ∧ result' = result := by
  induction h generalizing k with
  | large large =>
    cases h' with
    | large => exact ⟨rfl, rfl⟩
    | refused small | settled small | again small => exact absurd large (Nat.not_lt.mpr small)
  | refused small pass =>
    cases h' with
    | large large => exact absurd large (Nat.not_lt.mpr small)
    | refused _ pass' =>
      cases pass.symm.trans pass'
      exact ⟨rfl, rfl⟩
    | settled _ pass' | again _ pass' => cases pass.symm.trans pass'
  | settled small pass =>
    cases h' with
    | large large => exact absurd large (Nat.not_lt.mpr small)
    | refused _ pass' => cases pass.symm.trans pass'
    | settled => exact ⟨rfl, rfl⟩
    | again _ pass' changed =>
      cases pass.symm.trans pass'
      exact absurd rfl changed
  | again small pass changed _ ih =>
    cases h' with
    | large large => exact absurd large (Nat.not_lt.mpr small)
    | refused _ pass' => cases pass.symm.trans pass'
    | settled _ pass' =>
      cases pass.symm.trans pass'
      exact absurd rfl changed
    | again _ pass' _ rest =>
      cases pass.symm.trans pass'
      obtain ⟨rfl, rfl⟩ := ih rest
      exact ⟨rfl, rfl⟩

end Settle

namespace Code

variable {c : Code} {l : BodyLayout}

theorem exists_settles_layout (nonempty : 0 < c.size) :
    ∃ k ≤ c.size + 1, Settles c.instructions (c.instructions.map fun _ => false) k c.layout := by
  have hlength : (c.instructions.map fun _ => false).length = c.size := List.length_map _
  have hcount : (c.instructions.map fun _ => false).count false ≤ c.size :=
    Nat.le_trans List.count_le_length (Nat.le_of_eq hlength)
  rw [layout, if_neg (by simpa using List.ne_nil_of_length_pos nonempty)]
  exact exists_settles hlength hcount

theorem near_of_layout (h : c.layout = .ok l) {k : Nat} {i : Instruction} {b : Bool}
    (hi : c.instructions[k]? = some i) (hb : l.widened[k]? = some b) : i.Near l k b := by
  obtain ⟨passes, -, hsettles⟩ := exists_settles_layout (nonempty_of_layout h)
  rw [h] at hsettles
  obtain ⟨w, hlength, hpass, rfl⟩ := hsettles.exists_pass (List.length_map _)
  exact Instruction.near_of_pass hlength hpass hi hb

/-! ### Writing under the layout -/

theorem exists_emitAll_of_layout (h : c.layout = .ok l) : ∃ parts, c.emitAll l = .ok parts := by
  rw [emitAll]
  refine Fallible.exists_mapM_eq_ok fun x hx => ?_
  obtain ⟨⟨i, widened⟩, k⟩ := x
  rw [List.mk_mem_zipIdx_iff_getElem?] at hx
  obtain ⟨hi, hwidened⟩ := List.getElem?_zip_eq_some.mp hx
  exact Instruction.exists_emit (near_of_layout h hi hwidened)

end Code

/-! ### What else is refused -/

def Fault.OfTables : Fault → Prop
  | .malformed _ | .invalidEdit _ => True
  | _ => False

section Tables

variable {l : BodyLayout} {e : Fault}

theorem Put.ofTables_of_count {n : Nat} {what : String} (h : count n what = .error e) :
    e.OfTables := by
  rw [count] at h
  split at h
  · cases h
  · cases h
    trivial

theorem FrameKind.ofTables_of_write {kind : FrameKind} {delta : Nat}
    (h : kind.write l delta = .error e) : e.OfTables := by
  cases kind with
  | same | sameWithStack =>
    rw [write] at h
    split at h
    · cases h
    · cases h
  | chop | append => cases h
  | full locals stack =>
    obtain hlocals | ⟨_, -, h⟩ := Fallible.bind_eq_error.mp h
    · exact Put.ofTables_of_count hlocals
    · obtain hstack | ⟨_, -, h⟩ := Fallible.bind_eq_error.mp h
      · exact Put.ofTables_of_count hstack
      · cases h

theorem Frame.ofTables_of_writeInto {previous : Option Nat} {acc : List (List UInt8)}
    {fs : List Frame} (h : writeInto l previous acc fs = .error e) : e.OfTables := by
  induction fs generalizing previous acc with
  | nil => cases h
  | cons f fs ih =>
    simp only [writeInto] at h
    split at h
    · next hdelta =>
      cases h
      unfold frameDelta at hdelta
      split at hdelta
      · cases hdelta
      · split at hdelta
        · cases hdelta
        · cases hdelta
          trivial
    · split at h
      · split at h
        · next hkind =>
          cases h
          exact FrameKind.ofTables_of_write hkind
        · exact ih h
      · cases h
        trivial

theorem CodeAttribute.ofTables_of_write {a : CodeAttribute} (h : a.write l = .error e) :
    e.OfTables := by
  obtain hinfo | ⟨_, -, h⟩ := Fallible.bind_eq_error.mp h
  · cases a with
    | lines | locals =>
      obtain hcount | ⟨_, -, h⟩ := Fallible.bind_eq_error.mp hinfo
      · exact Put.ofTables_of_count hcount
      · cases h
    | stackMap name fs =>
      obtain hcount | ⟨_, -, h⟩ := Fallible.bind_eq_error.mp hinfo
      · exact Put.ofTables_of_count hcount
      · obtain hframes | ⟨_, -, h⟩ := Fallible.bind_eq_error.mp h
        · exact Frame.ofTables_of_writeInto hframes
        · cases h
    | raw => cases hinfo
  · cases h

theorem Code.ofTables_of_encode {c : Code} (hlayout : c.layout = .ok l)
    (h : c.encode = .error e) : e.OfTables := by
  obtain ⟨parts, hparts⟩ := exists_emitAll_of_layout hlayout
  simp only [encode, Fallible.bind_eq_error, hlayout, hparts, Except.ok.injEq, reduceCtorEq,
    false_or, exists_eq_left'] at h
  obtain hhandlers | ⟨_, -, hattributes | ⟨_, -, hattributes | ⟨_, -, h⟩⟩⟩ := h
  · exact Put.ofTables_of_count hhandlers
  · exact Put.ofTables_of_count hattributes
  · obtain ⟨a, -, ha⟩ := Fallible.exists_of_mapM_eq_error hattributes
    exact CodeAttribute.ofTables_of_write ha
  · cases h

end Tables

end PluginGuard.ClassFile
