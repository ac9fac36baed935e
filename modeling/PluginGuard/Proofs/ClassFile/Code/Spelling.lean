import PluginGuard.Proofs.ClassFile.Code.WellFormed
import PluginGuard.Proofs.ClassFile.Fields

/-!
# How instructions are spelled

The bytes of one instruction whose targets are byte offsets, as a relation: an
opcode followed by an operand of its layout, or the wide form of an operand. It
admits what readers accept and writers never produce, such as padding that is
not zero. Reading an instruction is exact for it.
-/
namespace PluginGuard.ClassFile

open Reader

/-! ### Targets -/

def Reaches (length pc t : Nat) (delta : Int) : Prop := (pc : Int) + delta = t ∧ t < length

theorem Instruction.offsetFrom_eq_ok {length pc t : Nat} {delta : Int} :
    offsetFrom length pc delta = .ok t ↔ Reaches length pc t delta := by
  unfold offsetFrom Reaches
  simp only
  split
  · simp only [reduceCtorEq, false_iff]
    omega
  · rw [Except.ok.injEq]
    omega

def ShortTarget (length pc t : Nat) (bs : List UInt8) : Prop :=
  ∃ v : Int16, Reaches length pc t v.toInt ∧ bs = Put.half v.toUInt16

def LongTarget (length pc t : Nat) (bs : List UInt8) : Prop :=
  ∃ v : Int32, Reaches length pc t v.toInt ∧ bs = Put.word v.toUInt32

def CasePair (length pc : Nat) (x : Int32 × Nat) (bs : List UInt8) : Prop :=
  ∃ ts, LongTarget length pc x.2 ts ∧ bs = Put.word x.1.toUInt32 ++ ts

theorem ShortTarget.length_eq {length pc t : Nat} {bs : List UInt8}
    (h : ShortTarget length pc t bs) : bs.length = 2 := by
  obtain ⟨v, -, rfl⟩ := h
  rfl

theorem LongTarget.length_eq {length pc t : Nat} {bs : List UInt8}
    (h : LongTarget length pc t bs) : bs.length = 4 := by
  obtain ⟨v, -, rfl⟩ := h
  rfl

theorem CasePair.length_eq {length pc : Nat} {x : Int32 × Nat} {bs : List UInt8}
    (h : CasePair length pc x bs) : bs.length = 8 := by
  obtain ⟨ts, hts, rfl⟩ := h
  rw [List.length_append, Put.length_word, hts.length_eq]

theorem exact_shortTarget (length pc : Nat) :
    Exact (ShortTarget length pc) (Instruction.shortTarget length pc) := by
  intro c t c'
  simp only [Instruction.shortTarget, bind_eq_ok, signedHalf_eq_ok, lift_eq_ok,
    Instruction.offsetFrom_eq_ok, ShortTarget]
  constructor
  · intro h
    rcases h with ⟨v, d, hd, hv, rfl⟩
    exact ⟨_, ⟨v, hv, rfl⟩, hd⟩
  · intro h
    rcases h with ⟨_, ⟨v, hv, rfl⟩, hd⟩
    exact ⟨v, c', hd, hv, rfl⟩

theorem exact_longTarget (length pc : Nat) :
    Exact (LongTarget length pc) (Instruction.longTarget length pc) := by
  intro c t c'
  simp only [Instruction.longTarget, bind_eq_ok, signedWord_eq_ok, lift_eq_ok,
    Instruction.offsetFrom_eq_ok, LongTarget]
  constructor
  · intro h
    rcases h with ⟨v, d, hd, hv, rfl⟩
    exact ⟨_, ⟨v, hv, rfl⟩, hd⟩
  · intro h
    rcases h with ⟨_, ⟨v, hv, rfl⟩, hd⟩
    exact ⟨v, c', hd, hv, rfl⟩

theorem exact_readPair (length pc : Nat) :
    Exact (CasePair length pc) (Instruction.readPair length pc) := by
  intro c x c'
  simp only [Instruction.readPair, bind_eq_ok, signedWord_eq_ok, exact_longTarget _ _ _ _ _,
    pure_eq_ok, CasePair]
  constructor
  · intro h
    rcases h with ⟨key, d, hd, t, e, ⟨bs, ht, he⟩, rfl, rfl⟩
    exact ⟨_, ⟨bs, ht, rfl⟩, hd.trans he⟩
  · intro h
    rcases h with ⟨_, ⟨ts, ht, rfl⟩, hp⟩
    obtain ⟨d, hd, hd'⟩ := Cursor.Past.append_iff.mp hp
    exact ⟨x.1, d, hd, x.2, c', ⟨ts, ht, hd'⟩, rfl, rfl⟩

/-! ### Operands -/

def Operand.Spelled (length pc : Nat) (layout : Layout) (o : Operand) (bs : List UInt8) : Prop :=
  match layout with
  | .none => o = .none ∧ bs = []
  | .byte => ∃ v, o = .byte v ∧ bs = [v.toUInt8]
  | .short => ∃ v, o = .short v ∧ bs = Put.half v.toUInt16
  | .constant8 => ∃ b : UInt8, o = .constant b.toUInt16 ∧ bs = [b]
  | .constant16 => ∃ k, o = .constant k ∧ bs = Put.half k
  | .slot => ∃ b : UInt8, o = .slot b.toUInt16 false ∧ bs = [b]
  | .iinc => ∃ (b : UInt8) (d : Int8), o = .iinc b.toUInt16 d.toInt16 false ∧ bs = [b, d.toUInt8]
  | .branch16 => ∃ t, o = .branch t ∧ ShortTarget length pc t bs
  | .branch32 => ∃ t, o = .branch t ∧ LongTarget length pc t bs
  | .tableSwitch =>
    ∃ (otherwise : Nat) (low high : Int32) (targets : List Nat) (padding ds ts : List UInt8),
      o = .table otherwise low targets ∧ 0 < targets.length ∧
      high.toInt = low.toInt + targets.length - 1 ∧ padding.length = switchPadding pc ∧
      LongTarget length pc otherwise ds ∧ Each (LongTarget length pc) targets ts ∧
      bs = padding ++ (ds ++ (Put.word low.toUInt32 ++ (Put.word high.toUInt32 ++ ts)))
  | .lookupSwitch =>
    ∃ (otherwise : Nat) (count : Int32) (pairs : List (Int32 × Nat)) (padding ds ps : List UInt8),
      o = .lookup otherwise pairs ∧ count.toInt = pairs.length ∧
      padding.length = switchPadding pc ∧ LongTarget length pc otherwise ds ∧
      Each (CasePair length pc) pairs ps ∧
      bs = padding ++ (ds ++ (Put.word count.toUInt32 ++ ps))
  | .invokeInterface =>
    ∃ (k : UInt16) (count : UInt8) (last : List UInt8), o = .invokeInterface k count ∧
      last.length = 1 ∧ bs = Put.half k ++ ([count] ++ last)
  | .invokeDynamic =>
    ∃ (k : UInt16) (last : List UInt8), o = .invokeDynamic k ∧
      last.length = 2 ∧ bs = Put.half k ++ last
  | .newArray => ∃ kind, o = .newArray kind ∧ bs = [kind]
  | .multiNewArray => ∃ k dimensions, o = .multiNewArray k dimensions ∧
      bs = Put.half k ++ [dimensions]

namespace Instruction

theorem exact_readTable (length pc : Nat) :
    Exact (Operand.Spelled length pc .tableSwitch) (readTable length pc) := by
  intro c o c'
  constructor
  · intro h
    simp only [readTable, bind_eq_ok, skip_eq_ok, exact_longTarget _ _ _ _ _,
      signedWord_eq_ok] at h
    obtain ⟨_, c1, ⟨padding, hpadding, h1⟩, otherwise, c2, ⟨ds, hds, h2⟩, low, c3, h3, high, c4,
      h4, h⟩ := h
    split at h
    · cases h
    · next hge =>
      rw [bind_eq_ok] at h
      obtain ⟨_, _, hget, h⟩ := h
      obtain ⟨rfl, rfl⟩ := get_eq_ok.mp hget
      split at h
      · simp only [bind_eq_ok, (exact_longTarget _ _).repeated _ _ _ _, pure_eq_ok] at h
        obtain ⟨targets, c5, ⟨ts, ⟨hcount, hts⟩, h5⟩, rfl, rfl⟩ := h
        refine ⟨_, ⟨otherwise, low, high, targets, padding, ds, ts, rfl, by omega, by omega,
          hpadding, hds, hts, rfl⟩, ?_⟩
        exact h1.trans (h2.trans (h3.trans (h4.trans h5)))
      · cases h
  · intro h
    rcases h with ⟨bs, hbs, hp⟩
    obtain ⟨otherwise, low, high, targets, padding, ds, ts, rfl, hpos, hhigh, hpadding, hds, hts,
      rfl⟩ := hbs
    obtain ⟨c1, h1, hp⟩ := Cursor.Past.append_iff.mp hp
    obtain ⟨c2, h2, hp⟩ := Cursor.Past.append_iff.mp hp
    obtain ⟨c3, h3, hp⟩ := Cursor.Past.append_iff.mp hp
    obtain ⟨c4, h4, h5⟩ := Cursor.Past.append_iff.mp hp
    have hcount : (high.toInt - low.toInt + 1).toNat = targets.length := by omega
    have hroom := h5.has
    rw [hts.length_eq fun _ _ => LongTarget.length_eq] at hroom
    simp only [readTable, bind_eq_ok, skip_eq_ok, exact_longTarget _ _ _ _ _, signedWord_eq_ok]
    refine ⟨(), c1, ⟨padding, hpadding, h1⟩, otherwise, c2, ⟨ds, hds, h2⟩, low, c3, h3, high,
      c4, h4, ?_⟩
    rw [if_neg (by omega), hcount, bind_eq_ok]
    refine ⟨c4, c4, get_eq_ok.mpr ⟨rfl, rfl⟩, ?_⟩
    rw [if_pos hroom, bind_eq_ok]
    exact ⟨targets, c', ((exact_longTarget _ _).repeated ..).mpr ⟨ts, ⟨rfl, hts⟩, h5⟩,
      pure_eq_ok.mpr ⟨rfl, rfl⟩⟩

theorem exact_readLookup (length pc : Nat) :
    Exact (Operand.Spelled length pc .lookupSwitch) (readLookup length pc) := by
  intro c o c'
  constructor
  · intro h
    simp only [readLookup, bind_eq_ok, skip_eq_ok, exact_longTarget _ _ _ _ _,
      signedWord_eq_ok, get_eq_ok] at h
    obtain ⟨_, c1, ⟨padding, hpadding, h1⟩, otherwise, c2, ⟨ds, hds, h2⟩, count, c3, h3, _, _,
      ⟨rfl, rfl⟩, h⟩ := h
    split at h
    · cases h
    · next hge =>
      simp only [bind_eq_ok, (exact_readPair _ _).repeated _ _ _ _, pure_eq_ok] at h
      obtain ⟨pairs, c4, ⟨ps, ⟨hcount, hps⟩, h4⟩, rfl, rfl⟩ := h
      refine ⟨_, ⟨otherwise, count, pairs, padding, ds, ps, rfl, by omega, hpadding, hds, hps,
        rfl⟩, ?_⟩
      exact h1.trans (h2.trans (h3.trans h4))
  · intro h
    rcases h with ⟨bs, hbs, hp⟩
    obtain ⟨otherwise, count, pairs, padding, ds, ps, rfl, hcount, hpadding, hds, hps, rfl⟩ := hbs
    obtain ⟨c1, h1, hp⟩ := Cursor.Past.append_iff.mp hp
    obtain ⟨c2, h2, hp⟩ := Cursor.Past.append_iff.mp hp
    obtain ⟨c3, h3, h4⟩ := Cursor.Past.append_iff.mp hp
    have hnat : count.toInt.toNat = pairs.length := by omega
    have hroom := h4.has
    rw [hps.length_eq fun _ _ => CasePair.length_eq] at hroom
    simp only [readLookup, bind_eq_ok, skip_eq_ok, exact_longTarget _ _ _ _ _,
      signedWord_eq_ok, get_eq_ok]
    refine ⟨(), c1, ⟨padding, hpadding, h1⟩, otherwise, c2, ⟨ds, hds, h2⟩, count, c3, h3, c3,
      c3, ⟨rfl, rfl⟩, ?_⟩
    rw [hnat, hroom, if_neg (by simp; omega), bind_eq_ok]
    exact ⟨pairs, c', ((exact_readPair _ _).repeated ..).mpr ⟨ps, ⟨rfl, hps⟩, h4⟩,
      pure_eq_ok.mpr ⟨rfl, rfl⟩⟩

theorem exact_readOperand (length pc : Nat) (layout : Layout) :
    Exact (Operand.Spelled length pc layout) (readOperand length pc layout) := by
  intro c o c'
  cases layout with
  | tableSwitch => exact exact_readTable length pc c o c'
  | lookupSwitch => exact exact_readLookup length pc c o c'
  | none =>
    simp only [readOperand, pure_eq_ok, Operand.Spelled]
    constructor
    · intro h
      rcases h with ⟨rfl, rfl⟩
      exact ⟨[], ⟨rfl, rfl⟩, .refl _⟩
    · intro h
      rcases h with ⟨bs, ⟨rfl, rfl⟩, hp⟩
      exact ⟨rfl, Cursor.Past.nil_iff.mp hp⟩
  | iinc =>
    simp only [readOperand, bind_eq_ok, byte_eq_ok, signedByte_eq_ok, pure_eq_ok,
      Operand.Spelled]
    constructor
    · intro h
      rcases h with ⟨b, c1, h1, d, c2, h2, rfl, rfl⟩
      exact ⟨_, ⟨b, d, rfl, rfl⟩, h1.trans h2⟩
    · intro h
      rcases h with ⟨bs, ⟨b, d, rfl, rfl⟩, hp⟩
      obtain ⟨c1, h1, h2⟩ := Cursor.Past.cons_iff.mp hp
      exact ⟨b, c1, h1, d, c', h2, rfl, rfl⟩
  | invokeInterface =>
    simp only [readOperand, bind_eq_ok, half_eq_ok, byte_eq_ok, skip_eq_ok, pure_eq_ok,
      Operand.Spelled]
    constructor
    · intro h
      rcases h with ⟨k, c1, h1, count, c2, h2, _, c3, ⟨last, hlast, h3⟩, rfl, rfl⟩
      exact ⟨_, ⟨k, count, last, rfl, hlast, rfl⟩, h1.trans (h2.trans h3)⟩
    · intro h
      rcases h with ⟨bs, ⟨k, count, last, rfl, hlast, rfl⟩, hp⟩
      obtain ⟨c1, h1, hp⟩ := Cursor.Past.append_iff.mp hp
      obtain ⟨c2, h2, h3⟩ := Cursor.Past.append_iff.mp hp
      exact ⟨k, c1, h1, count, c2, h2, (), c', ⟨last, hlast, h3⟩, rfl, rfl⟩
  | invokeDynamic =>
    simp only [readOperand, bind_eq_ok, half_eq_ok, skip_eq_ok, pure_eq_ok, Operand.Spelled]
    constructor
    · intro h
      rcases h with ⟨k, c1, h1, _, c2, ⟨last, hlast, h2⟩, rfl, rfl⟩
      exact ⟨_, ⟨k, last, rfl, hlast, rfl⟩, h1.trans h2⟩
    · intro h
      rcases h with ⟨bs, ⟨k, last, rfl, hlast, rfl⟩, hp⟩
      obtain ⟨c1, h1, h2⟩ := Cursor.Past.append_iff.mp hp
      exact ⟨k, c1, h1, (), c', ⟨last, hlast, h2⟩, rfl, rfl⟩
  | multiNewArray =>
    simp only [readOperand, bind_eq_ok, half_eq_ok, byte_eq_ok, pure_eq_ok, Operand.Spelled]
    constructor
    · intro h
      rcases h with ⟨k, c1, h1, dimensions, c2, h2, rfl, rfl⟩
      exact ⟨_, ⟨k, dimensions, rfl, rfl⟩, h1.trans h2⟩
    · intro h
      rcases h with ⟨bs, ⟨k, dimensions, rfl, rfl⟩, hp⟩
      obtain ⟨c1, h1, h2⟩ := Cursor.Past.append_iff.mp hp
      exact ⟨k, c1, h1, dimensions, c', h2, rfl, rfl⟩
  | branch16 | branch32 =>
    simp only [readOperand, bind_eq_ok, exact_shortTarget _ _ _ _ _, exact_longTarget _ _ _ _ _,
      pure_eq_ok, Operand.Spelled]
    constructor
    · intro h
      rcases h with ⟨t, c1, ⟨bs, ht, h1⟩, rfl, rfl⟩
      exact ⟨bs, ⟨t, rfl, ht⟩, h1⟩
    · intro h
      rcases h with ⟨bs, ⟨t, rfl, ht⟩, h1⟩
      exact ⟨t, c', ⟨bs, ht, h1⟩, rfl, rfl⟩
  | _ =>
    simp only [readOperand, bind_eq_ok, signedByte_eq_ok, signedHalf_eq_ok, byte_eq_ok,
      half_eq_ok, pure_eq_ok, Operand.Spelled]
    constructor
    · intro h
      rcases h with ⟨v, c1, h1, rfl, rfl⟩
      exact ⟨_, ⟨v, rfl, rfl⟩, h1⟩
    · intro h
      rcases h with ⟨bs, ⟨v, rfl, rfl⟩, h1⟩
      exact ⟨v, c', h1, rfl, rfl⟩

end Instruction

end PluginGuard.ClassFile
