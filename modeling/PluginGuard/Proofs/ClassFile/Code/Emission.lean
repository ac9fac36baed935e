import PluginGuard.Proofs.ClassFile.Code.Settled

/-!
# Writing instructions

Under a layout each instruction takes as many bytes as the layout reserves, and
those bytes spell it with the offsets of its targets, in the form that the
layout chose. So what is written stands for the instructions it was written for.
-/
namespace PluginGuard.ClassFile

open Reader

/-! ### Opcodes and their layouts -/

theorem forall_byte {p : UInt8 → Prop} (h : ∀ n < 256, p (UInt8.ofNat n)) (b : UInt8) :
    p b := by
  have hb := h b.toNat b.toNat_lt
  rwa [UInt8.ofNat_toNat] at hb

namespace Opcode

def suits (op : UInt8) : Layout → Bool
  | .slot => isWidenableSlot op
  | .iinc => op == iinc
  | .constant8 => op == ldc
  | .constant16 => op != ldc
  | .branch16 => !isLongBranch op &&
    (isConditionalBranch op || layout (Instruction.longOpcode op) == some .branch32)
  | .branch32 => isLongBranch op && Instruction.longOpcode op == op
  | _ => true

theorem suits_of_layout {op : UInt8} {l : Layout} (h : layout op = some l) : suits op l = true := by
  have hall : ∀ op, (layout op).all (suits op) = true := by
    refine forall_byte ?_
    decide +kernel
  simpa only [h, Option.all_some] using hall op

theorem isWidenableSlot_of_layout (op : UInt8) (h : layout op = some .slot) :
    isWidenableSlot op = true := suits_of_layout h

theorem eq_iinc_of_layout (op : UInt8) (h : layout op = some .iinc) : op = iinc :=
  beq_iff_eq.mp (suits_of_layout h)

theorem eq_ldc_of_layout (op : UInt8) (h : layout op = some .constant8) : op = ldc :=
  beq_iff_eq.mp (suits_of_layout h)

theorem ne_ldc_of_layout (op : UInt8) (h : layout op = some .constant16) : op ≠ ldc :=
  bne_iff_ne.mp (suits_of_layout h)

theorem isLongBranch_of_layout (op : UInt8) (h : layout op = some .branch32) :
    isLongBranch op = true ∧ Instruction.longOpcode op = op := by
  have hsuits := suits_of_layout h
  rw [suits, Bool.and_eq_true, beq_iff_eq] at hsuits
  exact hsuits

theorem isLongBranch_eq_false_of_layout (op : UInt8) (h : layout op = some .branch16) :
    isLongBranch op = false := by
  have hsuits := suits_of_layout h
  rw [suits, Bool.and_eq_true, Bool.not_eq_true'] at hsuits
  exact hsuits.1

theorem layout_longOpcode (op : UInt8) (h : layout op = some .branch16)
    (hcondition : isConditionalBranch op = false) :
    layout (Instruction.longOpcode op) = some .branch32 := by
  have hsuits := suits_of_layout h
  rw [suits, Bool.and_eq_true, hcondition, Bool.false_or, beq_iff_eq] at hsuits
  exact hsuits.2

end Opcode

/-! ### Short forms -/

namespace Instruction

theorem fitsByte_iff {k : UInt16} : fitsByte k = true ↔ ∃ b : UInt8, k = b.toUInt16 := by
  rw [fitsByte, decide_eq_true_iff]
  constructor
  · intro hk
    refine ⟨k.toUInt8, UInt16.toNat_inj.mp ?_⟩
    rw [UInt8.toNat_toUInt16, UInt16.toNat_toUInt8]
    omega
  · intro h
    rcases h with ⟨b, rfl⟩
    have := b.toNat_lt
    rw [UInt8.toNat_toUInt16]
    omega

theorem fitsSignedByte_iff {d : Int16} :
    fitsSignedByte d = true ↔ ∃ e : Int8, d = e.toInt16 := by
  rw [fitsSignedByte, Bool.and_eq_true, decide_eq_true_iff, decide_eq_true_iff]
  constructor
  · intro h
    rcases h with ⟨hlow, hhigh⟩
    refine ⟨d.toInt8, Int16.toInt_inj.mp ?_⟩
    rw [Int8.toInt_toInt16, Int16.toInt_toInt8, Int.bmod_eq_of_le (by omega) (by omega)]
  · intro h
    rcases h with ⟨e, rfl⟩
    have := e.le_toInt
    have := e.toInt_lt
    rw [Int8.toInt_toInt16]
    omega

/-! ### Sizes -/

theorem length_flatMap_of_forall {α : Type} {write : α → List UInt8} {width : Nat}
    (h : ∀ a, (write a).length = width) (as : List α) :
    (as.flatMap write).length = as.length * width := by
  refine Each.length_eq (fun a bs hbs => ?_) (Each.of_fun.mpr rfl)
  rw [hbs, h a]

theorem length_emit {i : Instruction} {k : Nat} {l : BodyLayout} {widened : Bool}
    {bs : List UInt8} (h : i.emit k l widened = .ok bs) :
    bs.length = i.size (l.offset k) widened := by
  unfold emit at h
  unfold size
  cases hoperand : i.operand with
  | constant | slot | iinc =>
    simp only [hoperand] at h ⊢
    split at h
    · next hcond =>
      cases h
      simp [hcond]
    · next hcond =>
      cases h
      simp [hcond]
  | branch t =>
    simp only [hoperand] at h ⊢
    split at h
    · cases h
      simp [*]
    · split at h
      · cases h
        simp [*]
      · cases h
  | table otherwise low targets =>
    simp only [hoperand, Except.ok.injEq] at h ⊢
    subst h
    have hwords := length_flatMap_of_forall
      (fun t => Put.length_signedWord ((l.offset t : Int) - (l.offset k : Int))) targets
    simp only [List.length_append, List.length_cons, List.length_replicate,
      Put.length_signedWord, hwords]
    omega
  | lookup otherwise pairs =>
    simp only [hoperand, Except.ok.injEq] at h ⊢
    subst h
    have hwords := length_flatMap_of_forall (fun (x : Int32 × Nat) =>
      show (Put.signedWord x.1.toInt ++
        Put.signedWord ((l.offset x.2 : Int) - (l.offset k : Int))).length = 8 from rfl) pairs
    simp only [List.length_append, List.length_cons, List.length_replicate,
      Put.length_signedWord, hwords]
    omega
  | _ =>
    simp only [hoperand, Except.ok.injEq] at h ⊢
    subst h
    rfl

/-! ### Distances -/

variable {l : BodyLayout} {n k : Nat}

theorem reaches_offset (climbs : Climbs l.offset n) {t : Nat} (ht : t < n) :
    Reaches (l.offset n) (l.offset k) (l.offset t) ((l.offset t : Int) - (l.offset k : Int)) := by
  have hlt := climbs.lt ht (Nat.le_refl n)
  exact ⟨by omega, hlt⟩

theorem longTarget_signedWord (climbs : Climbs l.offset n) (small : l.offset n ≤ 65535)
    (hk : k < n) {t : Nat} (ht : t < n) :
    LongTarget (l.offset n) (l.offset k) (l.offset t)
      (Put.signedWord ((l.offset t : Int) - (l.offset k : Int))) := by
  have hlt := climbs.lt ht (Nat.le_refl n)
  have hlt' := climbs.lt hk (Nat.le_refl n)
  refine ⟨Int32.ofInt ((l.offset t : Int) - (l.offset k : Int)), ?_, rfl⟩
  rw [Int32.toInt_ofInt_of_le (by omega) (by omega)]
  exact reaches_offset climbs ht

theorem shortTarget_half (climbs : Climbs l.offset n) {t : Nat} (ht : t < n)
    (hfits : fitsSignedHalf ((l.offset t : Int) - (l.offset k : Int)) = true) :
    ShortTarget (l.offset n) (l.offset k) (l.offset t)
      (Put.half (Int16.ofInt ((l.offset t : Int) - (l.offset k : Int))).toUInt16) := by
  rw [fitsSignedHalf, Bool.and_eq_true, decide_eq_true_iff, decide_eq_true_iff] at hfits
  refine ⟨Int16.ofInt ((l.offset t : Int) - (l.offset k : Int)), ?_, rfl⟩
  rw [Int16.toInt_ofInt_of_le (by omega) (by omega)]
  exact reaches_offset climbs ht

theorem each_map_of_forall {α β : Type} {written : β → List UInt8 → Prop} {g : α → β}
    {write : α → List UInt8} {as : List α} (h : ∀ a ∈ as, written (g a) (write a)) :
    Each written (as.map g) (as.flatMap write) := by
  induction as with
  | nil => exact .nil
  | cons a as ih =>
    obtain ⟨ha, has⟩ := List.forall_mem_cons.mp h
    exact .cons ha (ih has)

/-! ### Spelling -/

theorem spelled_emit_constant {op : UInt8} {index : UInt16} {widened : Bool} {bs : List UInt8}
    (conforms : Conforms ⟨op, .constant index⟩)
    (h : emit ⟨op, .constant index⟩ k l widened = .ok bs) :
    ((written ⟨op, .constant index⟩ widened).mapTargets l.offset).Spelled (l.offset n)
      (l.offset k) bs := by
  have hlong : Opcode.layout Opcode.ldcWide = some .constant16 := by decide
  obtain ⟨layout, hlayout, hfits⟩ := conforms
  cases layout with
  | constant8 =>
    obtain rfl := Opcode.eq_ldc_of_layout op hlayout
    by_cases hbyte : fitsByte index = true
    · simp only [emit, written, hbyte, beq_self_eq_true, Bool.and_self, Bool.not_true,
        Bool.and_false, Bool.false_eq_true, if_false, if_true, Except.ok.injEq] at h ⊢
      obtain ⟨b, rfl⟩ := fitsByte_iff.mp hbyte
      rw [UInt8.toUInt8_toUInt16] at h
      subst h
      exact .inl ⟨_, [_], hlayout, ⟨b, rfl, rfl⟩, rfl⟩
    · simp only [Bool.not_eq_true] at hbyte
      simp only [emit, written, hbyte, beq_self_eq_true, Bool.and_false, Bool.not_false,
        Bool.and_self, Bool.false_eq_true, if_false, if_true, Except.ok.injEq] at h ⊢
      subst h
      exact .inl ⟨_, _, hlong, ⟨index, rfl, rfl⟩, rfl⟩
  | constant16 =>
    have hne : (op == Opcode.ldc) = false := by
      simpa using Opcode.ne_ldc_of_layout op hlayout
    simp only [emit, written, hne, Bool.false_and, Bool.false_eq_true, if_false,
      Except.ok.injEq] at h ⊢
    subst h
    exact .inl ⟨_, _, hlayout, ⟨index, rfl, rfl⟩, rfl⟩
  | _ => exact hfits.elim

theorem spelled_emit_slot {op : UInt8} {index : UInt16} {wide widened : Bool} {bs : List UInt8}
    (conforms : Conforms ⟨op, .slot index wide⟩)
    (h : emit ⟨op, .slot index wide⟩ k l widened = .ok bs) :
    ((written ⟨op, .slot index wide⟩ widened).mapTargets l.offset).Spelled (l.offset n)
      (l.offset k) bs := by
  obtain ⟨layout, hlayout, hfits⟩ := conforms
  cases layout with
  | slot =>
    cases hform : (wide || !fitsByte index) with
    | true =>
      simp only [emit, written, hform, if_true, Except.ok.injEq] at h ⊢
      subst h
      exact .inr ⟨_, .inl ⟨Opcode.isWidenableSlot_of_layout op hlayout, index, rfl, rfl⟩, rfl⟩
    | false =>
      simp only [emit, written, hform, Bool.false_eq_true, if_false, Except.ok.injEq] at h ⊢
      simp only [Bool.or_eq_false_iff, Bool.not_eq_false'] at hform
      obtain ⟨b, rfl⟩ := fitsByte_iff.mp hform.2
      rw [UInt8.toUInt8_toUInt16] at h
      subst h
      exact .inl ⟨_, [_], hlayout, ⟨b, rfl, rfl⟩, rfl⟩
  | _ => exact hfits.elim

theorem spelled_emit_iinc {op : UInt8} {index : UInt16} {delta : Int16} {wide widened : Bool}
    {bs : List UInt8} (conforms : Conforms ⟨op, .iinc index delta wide⟩)
    (h : emit ⟨op, .iinc index delta wide⟩ k l widened = .ok bs) :
    ((written ⟨op, .iinc index delta wide⟩ widened).mapTargets l.offset).Spelled (l.offset n)
      (l.offset k) bs := by
  obtain ⟨layout, hlayout, hfits⟩ := conforms
  cases layout with
  | iinc =>
    cases hform : (wide || !fitsByte index || !fitsSignedByte delta) with
    | true =>
      simp only [emit, written, hform, if_true, Except.ok.injEq] at h ⊢
      subst h
      exact .inr ⟨_, .inr ⟨Opcode.eq_iinc_of_layout op hlayout, index, delta, rfl, rfl⟩, rfl⟩
    | false =>
      simp only [emit, written, hform, Bool.false_eq_true, if_false, Except.ok.injEq] at h ⊢
      simp only [Bool.or_eq_false_iff, Bool.not_eq_false'] at hform
      obtain ⟨b, rfl⟩ := fitsByte_iff.mp hform.1.2
      obtain ⟨d, rfl⟩ := fitsSignedByte_iff.mp hform.2
      rw [UInt8.toUInt8_toUInt16, Int8.toInt8_toInt16] at h
      subst h
      exact .inl ⟨_, [_, _], hlayout, ⟨b, d, rfl, rfl⟩, rfl⟩
  | _ => exact hfits.elim

theorem spelled_emit_branch {op : UInt8} {t : Nat} {widened : Bool} {bs : List UInt8}
    (conforms : Conforms ⟨op, .branch t⟩) (climbs : Climbs l.offset n)
    (small : l.offset n ≤ 65535) (hk : k < n) (ht : t < n)
    (widens : widened = true → Widenable ⟨op, .branch t⟩)
    (h : emit ⟨op, .branch t⟩ k l widened = .ok bs) :
    ((written ⟨op, .branch t⟩ widened).mapTargets l.offset).Spelled (l.offset n)
      (l.offset k) bs := by
  have hfar := longTarget_signedWord climbs small hk ht
  obtain ⟨layout, hlayout, hfits⟩ := conforms
  cases layout with
  | branch32 =>
    obtain ⟨hlong, hsame⟩ := Opcode.isLongBranch_of_layout op hlayout
    simp only [emit, written, isLong, hlong, hsame, Bool.or_true, if_true, ite_self,
      Except.ok.injEq] at h ⊢
    subst h
    exact .inl ⟨_, _, hlayout, ⟨l.offset t, rfl, hfar⟩, rfl⟩
  | branch16 =>
    have hplain := Opcode.isLongBranch_eq_false_of_layout op hlayout
    cases widened with
    | true =>
      have hlong := Opcode.layout_longOpcode op hlayout (widens rfl).2.1
      simp only [emit, written, isLong, Bool.true_or, if_true, Except.ok.injEq] at h ⊢
      subst h
      exact .inl ⟨_, _, hlong, ⟨l.offset t, rfl, hfar⟩, rfl⟩
    | false =>
      simp only [emit, written, isLong, hplain, Bool.or_self, Bool.false_eq_true, if_false] at h ⊢
      split at h
      · next hnear =>
        cases h
        exact .inl ⟨_, _, hlayout, ⟨l.offset t, rfl, shortTarget_half climbs ht hnear⟩, rfl⟩
      · cases h
  | _ => exact hfits.elim

theorem spelled_emit_table {op : UInt8} {otherwise : Nat} {low : Int32} {targets : List Nat}
    {widened : Bool} {bs : List UInt8} (conforms : Conforms ⟨op, .table otherwise low targets⟩)
    (climbs : Climbs l.offset n) (small : l.offset n ≤ 65535) (hk : k < n)
    (within : ∀ t ∈ otherwise :: targets, t < n)
    (h : emit ⟨op, .table otherwise low targets⟩ k l widened = .ok bs) :
    ((written ⟨op, .table otherwise low targets⟩ widened).mapTargets l.offset).Spelled
      (l.offset n) (l.offset k) bs := by
  obtain ⟨layout, hlayout, hfits⟩ := conforms
  obtain ⟨hotherwise, htargets⟩ := List.forall_mem_cons.mp within
  cases layout with
  | tableSwitch =>
    obtain ⟨hpos, hhigh⟩ := hfits
    have hlow := low.le_toInt
    simp only [emit, Except.ok.injEq] at h
    subst h
    refine .inl ⟨_, _, hlayout, ⟨l.offset otherwise, low,
      Int32.ofInt (low.toInt + targets.length - 1), targets.map l.offset,
      List.replicate (switchPadding (l.offset k)) 0, _, _, rfl, ?_, ?_, List.length_replicate,
      longTarget_signedWord climbs small hk hotherwise,
      each_map_of_forall fun t ht => longTarget_signedWord climbs small hk (htargets t ht),
      rfl⟩, ?_⟩
    · rwa [List.length_map]
    · rw [List.length_map, Int32.toInt_ofInt_of_le (by omega) (by omega)]
    · rw [Put.signedWord, Put.signedWord, Put.signedWord, Int32.ofInt_toInt]
      simp only [List.append_assoc, List.cons_append, List.nil_append, Put.signedWord, written]
      rfl
  | _ => exact hfits.elim

theorem spelled_emit_lookup {op : UInt8} {otherwise : Nat} {pairs : List (Int32 × Nat)}
    {widened : Bool} {bs : List UInt8} (conforms : Conforms ⟨op, .lookup otherwise pairs⟩)
    (climbs : Climbs l.offset n) (small : l.offset n ≤ 65535) (hk : k < n)
    (within : ∀ t ∈ otherwise :: pairs.map (·.2), t < n) (sized : pairs.length ≤ 65535)
    (h : emit ⟨op, .lookup otherwise pairs⟩ k l widened = .ok bs) :
    ((written ⟨op, .lookup otherwise pairs⟩ widened).mapTargets l.offset).Spelled
      (l.offset n) (l.offset k) bs := by
  obtain ⟨layout, hlayout, hfits⟩ := conforms
  obtain ⟨hotherwise, htargets⟩ := List.forall_mem_cons.mp within
  have hpair : ∀ x ∈ pairs, CasePair (l.offset n) (l.offset k) (x.1, l.offset x.2)
      (Put.signedWord x.1.toInt ++ Put.signedWord ((l.offset x.2 : Int) - (l.offset k : Int))) := by
    intro x hx
    refine ⟨_, longTarget_signedWord climbs small hk (htargets _ (List.mem_map_of_mem hx)), ?_⟩
    rw [Put.signedWord, Int32.ofInt_toInt]
  cases layout with
  | lookupSwitch =>
    simp only [emit, Except.ok.injEq] at h
    subst h
    refine .inl ⟨_, _, hlayout, ⟨l.offset otherwise, Int32.ofInt pairs.length,
      pairs.map fun x => (x.1, l.offset x.2), List.replicate (switchPadding (l.offset k)) 0,
      _, _, rfl, ?_, List.length_replicate, longTarget_signedWord climbs small hk hotherwise,
      each_map_of_forall hpair, rfl⟩, ?_⟩
    · rw [List.length_map, Int32.toInt_ofInt_of_le (by omega) (by omega)]
    · simp only [List.append_assoc, List.cons_append, List.nil_append, Put.signedWord, written]
      rfl
  | _ => exact hfits.elim

theorem spelled_of_emit {i : Instruction} {widened : Bool} {bs : List UInt8}
    (conforms : i.Conforms) (climbs : Climbs l.offset n) (small : l.offset n ≤ 65535) (hk : k < n)
    (within : ∀ t ∈ i.targets, t < n) (widens : widened = true → i.Widenable)
    (sized : i.size (l.offset k) widened ≤ 65535) (h : i.emit k l widened = .ok bs) :
    ((i.written widened).mapTargets l.offset).Spelled (l.offset n) (l.offset k) bs := by
  obtain ⟨op, operand⟩ := i
  have hconforms := conforms
  obtain ⟨layout, hlayout, hfits⟩ := hconforms
  cases operand with
  | none =>
    cases layout with
    | none =>
      cases h
      exact .inl ⟨_, [], hlayout, ⟨rfl, rfl⟩, rfl⟩
    | _ => exact hfits.elim
  | byte v =>
    cases layout with
    | byte =>
      cases h
      exact .inl ⟨_, [_], hlayout, ⟨v, rfl, rfl⟩, rfl⟩
    | _ => exact hfits.elim
  | newArray kind =>
    cases layout with
    | newArray =>
      cases h
      exact .inl ⟨_, [_], hlayout, ⟨kind, rfl, rfl⟩, rfl⟩
    | _ => exact hfits.elim
  | short v =>
    cases layout with
    | short =>
      cases h
      exact .inl ⟨_, _, hlayout, ⟨v, rfl, rfl⟩, rfl⟩
    | _ => exact hfits.elim
  | constant index => exact spelled_emit_constant conforms h
  | slot index wide => exact spelled_emit_slot conforms h
  | iinc index delta wide => exact spelled_emit_iinc conforms h
  | branch t =>
    exact spelled_emit_branch conforms climbs small hk
      (within t (List.mem_singleton_self t)) widens h
  | table otherwise low targets =>
    exact spelled_emit_table conforms climbs small hk within h
  | lookup otherwise pairs =>
    simp only [size] at sized
    exact spelled_emit_lookup conforms climbs small hk within (by omega) h
  | invokeInterface index count =>
    cases layout with
    | invokeInterface =>
      cases h
      exact .inl ⟨_, _, hlayout, ⟨index, count, [0], rfl, rfl, rfl⟩, rfl⟩
    | _ => exact hfits.elim
  | invokeDynamic index =>
    cases layout with
    | invokeDynamic =>
      cases h
      exact .inl ⟨_, _, hlayout, ⟨index, [0, 0], rfl, rfl, rfl⟩, rfl⟩
    | _ => exact hfits.elim
  | multiNewArray index dimensions =>
    cases layout with
    | multiNewArray =>
      cases h
      exact .inl ⟨_, _, hlayout, ⟨index, dimensions, rfl, rfl⟩, rfl⟩
    | _ => exact hfits.elim

/-! ### All instructions -/

theorem laid_of_emit {w : Widening} {length : Nat} {parts : List (List UInt8)}
    (runs : l.Runs k w)
    (spelled : ∀ (j : Nat) (x : Instruction × Bool) (bs : List UInt8), w[j]? = some x →
      x.1.emit (k + j) l x.2 = .ok bs →
        ((x.1.written x.2).mapTargets l.offset).Spelled length (l.offset (k + j)) bs)
    (h : (w.zipIdx k).mapM (fun ((i, widened), index) => i.emit index l widened) = .ok parts) :
    Laid l.offset length k (w.map fun (i, widened) => i.written widened) parts.flatten := by
  induction w generalizing k parts with
  | nil =>
    obtain rfl := Fallible.pure_eq_ok.mp h
    rfl
  | cons x w ih =>
    obtain ⟨hnext, hruns⟩ := runs
    rw [List.zipIdx_cons, List.mapM_cons] at h
    simp only [Fallible.bind_eq_ok, Fallible.pure_eq_ok] at h
    obtain ⟨bs, hbs, parts, hparts, rfl⟩ := h
    refine ⟨bs, parts.flatten, spelled 0 x bs rfl hbs, ?_, ih hruns ?_ hparts, rfl⟩
    · rw [hnext, length_emit hbs]
    · intro j y cs hy hcs
      rw [Nat.add_right_comm k 1 j] at hcs ⊢
      exact spelled (j + 1) y cs hy hcs

end Instruction

end PluginGuard.ClassFile
