import PluginGuard.Proofs.ClassFile.Code.Encoding

/-!
# Instructions that were read

An instruction that was read conforms to its opcode, takes the bytes it was read
from, and needs no long form. So the layout of a decoded body is the one its
bytes had, found in the first pass, and every instruction can be emitted there.
-/
namespace PluginGuard.ClassFile

open Reader

namespace Instruction

variable {length pc : Nat} {i : Instruction} {bs : List UInt8}

/-! ### What the spelling of an instruction says -/

/-- What holds of an instruction at `pc` that was read from these bytes: writing
it takes as many bytes, leaves it as it is and reaches its target. -/
structure Kept (pc : Nat) (i : Instruction) (bs : List UInt8) : Prop where
  conforms : i.Conforms
  size_eq : i.size pc false = bs.length
  written_eq : i.written false = i
  near : ∀ t, i.operand = .branch t → i.isLong false = false →
    fitsSignedHalf ((t : Int) - (pc : Int)) = true

theorem SpelledWide.kept (h : i.SpelledWide bs) : i.Kept pc ([Opcode.wide] ++ bs) := by
  have hiinc : Opcode.layout Opcode.iinc = some .iinc := by decide
  have hslot : ∀ op, Opcode.isWidenableSlot op = true → Opcode.layout op = some .slot := by
    refine forall_byte ?_
    decide +kernel
  obtain ⟨op, operand⟩ := i
  obtain ⟨hop, k, rfl, rfl⟩ | ⟨rfl, k, d, rfl, rfl⟩ := h
  · exact ⟨⟨_, hslot op hop, trivial⟩, rfl, rfl, by simp⟩
  · exact ⟨⟨_, hiinc, trivial⟩, rfl, rfl, by simp⟩

theorem kept_of_spelled {op : UInt8} {operand : Operand} {layout : Layout}
    (hlayout : Opcode.layout op = some layout) (h : operand.Spelled length pc layout bs) :
    Kept pc ⟨op, operand⟩ ([op] ++ bs) := by
  cases layout with
  | none =>
    obtain ⟨rfl, rfl⟩ := h
    exact ⟨⟨_, hlayout, trivial⟩, rfl, rfl, by simp⟩
  | byte | short | newArray =>
    obtain ⟨v, rfl, rfl⟩ := h
    exact ⟨⟨_, hlayout, trivial⟩, rfl, rfl, by simp⟩
  | multiNewArray =>
    obtain ⟨k, dimensions, rfl, rfl⟩ := h
    exact ⟨⟨_, hlayout, trivial⟩, rfl, rfl, by simp⟩
  | constant8 =>
    obtain ⟨b, rfl, rfl⟩ := h
    obtain rfl := Opcode.eq_ldc_of_layout op hlayout
    have hbyte := fitsByte_iff.mpr ⟨b, rfl⟩
    refine ⟨⟨_, hlayout, trivial⟩, ?_, ?_, by simp⟩
    · simp [size, hbyte]
    · simp [written, hbyte]
  | constant16 =>
    obtain ⟨k, rfl, rfl⟩ := h
    have hne : (op == Opcode.ldc) = false := by
      simpa using Opcode.ne_ldc_of_layout op hlayout
    refine ⟨⟨_, hlayout, trivial⟩, ?_, ?_, by simp⟩
    · simp [size, hne]
    · simp [written, hne]
  | slot =>
    obtain ⟨b, rfl, rfl⟩ := h
    have hbyte := fitsByte_iff.mpr ⟨b, rfl⟩
    refine ⟨⟨_, hlayout, trivial⟩, ?_, ?_, by simp⟩
    · simp [size, hbyte]
    · simp [written, hbyte]
  | iinc =>
    obtain ⟨b, d, rfl, rfl⟩ := h
    have hbyte := fitsByte_iff.mpr ⟨b, rfl⟩
    have hdelta := fitsSignedByte_iff.mpr ⟨d, rfl⟩
    refine ⟨⟨_, hlayout, trivial⟩, ?_, ?_, by simp⟩
    · simp [size, hbyte, hdelta]
    · simp [written, hbyte, hdelta]
  | branch16 =>
    obtain ⟨t, rfl, ht⟩ := h
    have hplain := Opcode.isLongBranch_eq_false_of_layout op hlayout
    refine ⟨⟨_, hlayout, trivial⟩, ?_, rfl, ?_⟩
    · simp [size, isLong, hplain, ht.length_eq]
    · rintro _ ⟨⟩ -
      obtain ⟨v, ⟨hreaches, -⟩, -⟩ := ht
      have := v.le_toInt
      have := v.toInt_lt
      rw [fitsSignedHalf, Bool.and_eq_true, decide_eq_true_iff, decide_eq_true_iff]
      omega
  | branch32 =>
    obtain ⟨t, rfl, ht⟩ := h
    obtain ⟨hlong, -⟩ := Opcode.isLongBranch_of_layout op hlayout
    refine ⟨⟨_, hlayout, trivial⟩, ?_, rfl, ?_⟩
    · simp [size, isLong, hlong, ht.length_eq]
    · intro _ _ hshort
      simp [isLong, hlong] at hshort
  | tableSwitch =>
    obtain ⟨otherwise, low, high, targets, padding, ds, ts, rfl, hpos, hhigh, hpadding, hds, hts,
      rfl⟩ := h
    have := high.toInt_lt
    refine ⟨⟨_, hlayout, hpos, by omega⟩, ?_, rfl, by simp⟩
    simp only [size, List.length_append, List.length_singleton, hpadding, hds.length_eq,
      hts.length_eq fun _ _ => LongTarget.length_eq, Put.length_word]
    omega
  | lookupSwitch =>
    obtain ⟨otherwise, count, pairs, padding, ds, ps, rfl, hcount, hpadding, hds, hps, rfl⟩ := h
    refine ⟨⟨_, hlayout, trivial⟩, ?_, rfl, by simp⟩
    simp only [size, List.length_append, List.length_singleton, hpadding, hds.length_eq,
      hps.length_eq fun _ _ => CasePair.length_eq, Put.length_word]
    omega
  | invokeInterface =>
    obtain ⟨k, count, last, rfl, hlast, rfl⟩ := h
    refine ⟨⟨_, hlayout, trivial⟩, ?_, rfl, by simp⟩
    simp [size, hlast]
  | invokeDynamic =>
    obtain ⟨k, last, rfl, hlast, rfl⟩ := h
    refine ⟨⟨_, hlayout, trivial⟩, ?_, rfl, by simp⟩
    simp [size, hlast]

theorem Spelled.kept (h : i.Spelled length pc bs) : i.Kept pc bs := by
  obtain ⟨layout, os, hlayout, hos, rfl⟩ | ⟨ws, hws, rfl⟩ := h
  · exact kept_of_spelled hlayout hos
  · exact hws.kept

/-! ### From offsets back to indices -/

theorem conforms_of_mapTargets {f : Nat → Nat} (h : (i.mapTargets f).Conforms) : i.Conforms := by
  obtain ⟨op, operand⟩ := i
  obtain ⟨layout, hlayout, hfits⟩ := h
  refine ⟨layout, hlayout, ?_⟩
  cases operand with
  | table otherwise low targets =>
    cases layout with
    | tableSwitch => simpa [mapTargets, Operand.mapTargets, Operand.Fits] using hfits
    | _ => exact hfits
  | lookup otherwise pairs =>
    cases layout with
    | _ => exact hfits
  | branch t =>
    cases layout with
    | _ => exact hfits
  | _ => exact hfits

theorem size_mapTargets (f : Nat → Nat) (i : Instruction) (pc : Nat) (widened : Bool) :
    (i.mapTargets f).size pc widened = i.size pc widened := by
  obtain ⟨op, operand⟩ := i
  cases operand with
  | table otherwise low targets => simp [mapTargets, Operand.mapTargets, size]
  | lookup otherwise pairs => simp [mapTargets, Operand.mapTargets, size]
  | _ => rfl

theorem written_of_mapTargets {f : Nat → Nat}
    (h : (i.mapTargets f).written false = i.mapTargets f) : i.written false = i := by
  obtain ⟨op, operand⟩ := i
  cases operand with
  | constant | slot | iinc => exact h
  | _ => rfl

theorem Laid.kept {f : Nat → Nat} {k : Nat} {is : List Instruction}
    (h : Laid f length k is bs) : ∀ (j : Nat) (i : Instruction), is[j]? = some i →
      (∃ cs, (i.mapTargets f).Kept (f (k + j)) cs) ∧
        f (k + j + 1) = f (k + j) + i.size (f (k + j)) false := by
  induction is generalizing k bs with
  | nil =>
    intro j i hi
    simp at hi
  | cons i is ih =>
    obtain ⟨cs, ds, hcs, hnext, hds, rfl⟩ := h
    intro j i' hi'
    cases j with
    | zero =>
      cases hi'
      have hkept := hcs.kept
      refine ⟨⟨cs, hkept⟩, ?_⟩
      change f (k + 1) = f k + i.size (f k) false
      rw [hnext, ← hkept.size_eq, size_mapTargets]
    | succ j =>
      have hlater := ih hds j i' hi'
      rwa [Nat.add_right_comm k 1 j] at hlater

end Instruction

theorem placesFrom_of_steps {f : Nat → Nat} {k : Nat} {is : List Instruction}
    (h : ∀ (j : Nat) (i : Instruction), is[j]? = some i →
      f (k + j + 1) = f (k + j) + i.size (f (k + j)) false) :
    placesFrom (f k) (is.map fun i => (i, false)) = (List.range' k (is.length + 1)).map f := by
  induction is generalizing k with
  | nil => rfl
  | cons i is ih =>
    have hstep : f (k + 1) = f k + i.size (f k) false := h 0 i rfl
    rw [List.map_cons, placesFrom, ← hstep, List.length_cons, List.range'_succ, List.map_cons,
      ih fun j i' hi' => ?_]
    have hlater := h (j + 1) i' hi'
    rwa [Nat.add_right_comm k 1 j]

/-! ### The layout of a decoded body -/

theorem zip_map_false (is : List Instruction) :
    is.zip (is.map fun _ => false) = is.map fun i => (i, false) := by
  simpa using List.zip_map' (f := id) (g := fun _ => false) (l := is)

theorem settle_of_pass {is : List Instruction} {passes : Nat} {w : List Bool}
    (small : (offsetsOf (is.zip w)).getD is.length 0 ≤ Code.maxLength)
    (hpass : (is.zip w).zipIdx.mapM (needsLong is.length (offsetsOf (is.zip w))) = .ok w) :
    settle is passes w = .ok ⟨w, offsetsOf (is.zip w)⟩ := by
  unfold settle
  simp only [if_neg (Nat.not_lt.mpr small), hpass, if_true]

namespace Instruction

theorem exists_emit {i : Instruction} {k : Nat} {l : BodyLayout} {widened : Bool}
    (near : ∀ t, i.operand = .branch t → i.isLong widened = false →
      fitsSignedHalf ((l.offset t : Int) - (l.offset k : Int)) = true) :
    ∃ bs, i.emit k l widened = .ok bs := by
  unfold emit
  cases hoperand : i.operand with
  | branch t =>
    simp only
    by_cases hlong : i.isLong widened = true
    · rw [if_pos hlong]
      exact ⟨_, rfl⟩
    · rw [if_neg hlong, if_pos (near t hoperand (by simpa using hlong))]
      exact ⟨_, rfl⟩
  | constant | slot | iinc =>
    simp only
    split
    · exact ⟨_, rfl⟩
    · exact ⟨_, rfl⟩
  | _ => exact ⟨_, rfl⟩

end Instruction

namespace BodyLayout

/-- The layout of a body as it was read: the offsets of its bytes, and no long
form to choose. -/
structure Decoded (l : BodyLayout) (is : List Instruction) (body : List UInt8) : Prop
    extends l.Spells is body where
  widened_eq : l.widened = is.map fun _ => false
  offsets_eq : l.offsets = offsetsOf (is.map fun i => (i, false))

variable {l : BodyLayout} {is : List Instruction} {body : List UInt8}

theorem Spells.size_pos (h : l.Spells is body) : 0 < is.length := by
  have hend := h.end_eq
  have hpos := h.nonempty
  cases is with
  | nil =>
    rw [List.length_nil, h.start] at hend
    omega
  | cons i is => exact Nat.succ_pos _

theorem Spells.kept (h : l.Spells is body) {k : Nat} {i : Instruction} (hi : is[k]? = some i) :
    ∃ cs, (i.mapTargets l.offset).Kept (l.offset k) cs := by
  have hkept := (h.laid.kept k i hi).1
  rwa [Nat.zero_add] at hkept

theorem Spells.near (h : l.Spells is body) {k : Nat} {i : Instruction} (hi : is[k]? = some i)
    (t : Nat) (ht : i.operand = .branch t) (hshort : i.isLong false = false) :
    Instruction.fitsSignedHalf ((l.offset t : Int) - (l.offset k : Int)) = true := by
  obtain ⟨cs, hkept⟩ := h.kept hi
  exact hkept.near _ (by rw [Instruction.mapTargets, ht]; rfl) hshort

theorem Spells.needsLong_eq (h : l.Spells is body) {k : Nat} {i : Instruction}
    (hi : is[k]? = some i) : needsLong is.length l.offsets ((i, false), k) = .ok false := by
  have hwithin := h.within i (List.mem_of_getElem? hi)
  have hany : i.targets.any (is.length ≤ ·) = false := by
    rw [List.any_eq_false]
    intro t ht
    have := hwithin t ht
    simpa using this
  simp only [needsLong, hany, Bool.false_eq_true, if_false]
  cases hoperand : i.operand with
  | branch t =>
    simp only
    -- A jump that was read in its short form reached its target from the same offset.
    by_cases hlong : i.isLong false = true
    · rw [if_pos hlong]
    · have hnear := h.near hi t hoperand (by simpa using hlong)
      simp only [offset] at hnear
      rw [if_neg hlong, if_pos hnear]
  | _ => rfl

theorem decoded_ofPlaced {placed : List (Nat × Instruction)}
    (h : (ofPlaced placed body.length).Spells is body)
    (hplaced : Instruction.readAll body = .ok placed) :
    (ofPlaced placed body.length).Decoded is body := by
  have hlength : placed.length = is.length := by
    rw [Except.ok.inj (hplaced.symm.trans h.readAll), Instruction.length_laidOut]
  have hplaces := placesFrom_of_steps fun j i hi => (h.laid.kept j i hi).2
  have hstarts := @starts_ofPlaced placed body.length
  have hend := @offset_ofPlaced_length placed body.length
  refine ⟨h, ?_, ?_⟩
  · rw [ofPlaced, List.map_const', List.map_const', hlength]
  · apply Array.ext'
    rw [toList_offsetsOf, ← h.start, hplaces, ← hlength, ← List.range_eq_range',
      List.range_succ, List.map_append, ← hstarts, List.map_singleton, hend]
    rfl

end BodyLayout

namespace Code

variable {pool : Pool} {c : Code} {l : BodyLayout} {body : List UInt8}

theorem decoded_of_decode {info : List UInt8} (h : decode info pool = .ok c) :
    ∃ (l : BodyLayout) (body tail : List UInt8),
      info = assembled c.maxStack c.maxLocals body tail ∧ l.Decoded c.instructions body := by
  obtain ⟨body, tail, placed, hinfo, hplaced, hspells⟩ := spells_of_decode h
  exact ⟨_, body, tail, hinfo, BodyLayout.decoded_ofPlaced hspells hplaced⟩

theorem layout_of_decoded (h : l.Decoded c.instructions body) : c.layout = .ok l := by
  have hzip := zip_map_false c.instructions
  have hempty : c.instructions.isEmpty = false := by
    rw [List.isEmpty_eq_false_iff]
    exact List.ne_nil_of_length_pos h.size_pos
  have hpass : (c.instructions.zip (c.instructions.map fun _ => false)).zipIdx.mapM
      (needsLong c.instructions.length (offsetsOf (c.instructions.zip
        (c.instructions.map fun _ => false)))) = .ok (c.instructions.map fun _ => false) := by
    rw [hzip, ← h.offsets_eq, Fallible.mapM_eq_ok]
    refine ⟨by simp, ?_⟩
    intro k x b hx hb
    rw [List.getElem?_zipIdx, List.getElem?_map] at hx
    rw [List.getElem?_map] at hb
    cases hi : c.instructions[k]? with
    | none => simp [hi] at hb
    | some i =>
      obtain rfl : ((i, false), k) = x := by simpa [hi] using hx
      obtain rfl : false = b := by simpa [hi] using hb
      exact h.needsLong_eq hi
  rw [layout, hempty]
  simp only [Bool.false_eq_true, if_false]
  rw [settle_of_pass ?_ hpass, hzip, ← h.offsets_eq, ← h.widened_eq]
  rw [hzip, ← h.offsets_eq]
  have hsmall := h.small
  rw [← h.end_eq] at hsmall
  exact hsmall

/-! ### Writing it again -/

theorem zip_widened (h : l.Decoded c.instructions body) :
    c.instructions.zip l.widened = c.instructions.map fun i => (i, false) := by
  rw [h.widened_eq, zip_map_false]

theorem exists_emitAll (h : l.Decoded c.instructions body) :
    ∃ parts, c.emitAll l = .ok parts := by
  rw [emitAll, zip_widened h]
  refine Fallible.exists_mapM_eq_ok fun x hx => ?_
  obtain ⟨⟨i, widened⟩, k⟩ := x
  rw [List.mk_mem_zipIdx_iff_getElem?, List.getElem?_map] at hx
  cases hi : c.instructions[k]? with
  | none => simp [hi] at hx
  | some i' =>
    obtain ⟨rfl, rfl⟩ : i' = i ∧ false = widened := by simpa [hi] using hx
    exact Instruction.exists_emit (h.near hi)

theorem written_of_decoded (h : l.Decoded c.instructions body) : c.written l = c := by
  have hsame : ∀ i ∈ c.instructions, i.written false = i := by
    intro i hi
    obtain ⟨k, hk⟩ := List.getElem?_of_mem hi
    obtain ⟨cs, hkept⟩ := h.kept hk
    exact Instruction.written_of_mapTargets hkept.written_eq
  have hmap : c.instructions.map (fun i => i.written false) = c.instructions :=
    (List.map_congr_left hsame).trans (List.map_id' _)
  rw [written, zip_widened h, List.map_map]
  change { c with instructions := c.instructions.map fun i => i.written false } = c
  rw [hmap]

theorem wellFormed_of_decoded {tail : List UInt8} (h : l.Decoded c.instructions body)
    (htail : TailSpelled pool l c.size c.handlers c.attributes tail) : c.WellFormed pool := by
  obtain ⟨_, _, hhandlers, ⟨_, ds, hattributes, _⟩, _⟩ := htail
  have spelled := hattributes.exists_of_mem
  refine ⟨h.size_pos, ?_, h.within, (Counted.and_fun_iff.mp hhandlers).2.1, ?_, ?_⟩
  · intro i hi
    obtain ⟨k, hk⟩ := List.getElem?_of_mem hi
    obtain ⟨cs, hkept⟩ := h.kept hk
    exact Instruction.conforms_of_mapTargets hkept.conforms
  · intro a ha
    obtain ⟨_, _, info, _, hcontents, _⟩ := spelled a ha
    exact hcontents.within h.laid.climbs
  · intro a ha
    obtain ⟨_, hnamed, _⟩ := spelled a ha
    exact hnamed

theorem TailSpelled.exists_written {l : BodyLayout} {tail : List UInt8}
    (h : TailSpelled pool l c.size c.handlers c.attributes tail) :
    ∃ tail', TailWritten l c.handlers c.attributes tail' := by
  obtain ⟨_, _, hhandlers, ⟨hattributes, ds, hds, _⟩, _⟩ := h
  have writable : ∀ a ∈ c.attributes, ∃ bs, a.write l = .ok bs := by
    intro a ha
    obtain ⟨_, _, info, _, hcontents, _⟩ := hds.exists_of_mem a ha
    obtain ⟨ws, hws, -⟩ := hcontents.info
    exact ⟨_, CodeAttribute.write_eq_ok.mpr ⟨ws, hws, rfl⟩⟩
  obtain ⟨parts, hparts⟩ := Fallible.exists_mapM_eq_ok writable
  exact ⟨_, (Counted.and_fun_iff.mp hhandlers).1, hattributes, _,
    Each.of_mapM.mpr ⟨parts, hparts, rfl⟩, rfl⟩

end Code

end PluginGuard.ClassFile
