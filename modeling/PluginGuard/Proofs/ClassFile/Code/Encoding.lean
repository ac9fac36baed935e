import PluginGuard.Proofs.ClassFile.Code.Emission

/-!
# Encoded bodies

The bytes of an encoded body are its instructions under the layout, then its
tables. The layout spells the instructions in them, long forms included, and
the tables are spelled too, unless the contents of an attribute are too long
for the four bytes that announce them.
-/
namespace PluginGuard.ClassFile

open Reader

theorem Instruction.targets_written (i : Instruction) (widened : Bool) :
    (i.written widened).targets = i.targets := by
  obtain ⟨op, operand⟩ := i
  cases operand with
  | constant index =>
    simp only [written]
    split
    · rfl
    · rfl
  | _ => rfl

theorem CodeAttribute.write_eq_ok {l : BodyLayout} {a : CodeAttribute} {bs : List UInt8} :
    a.write l = .ok bs ↔ ∃ info, a.info l = .ok info ∧
      bs = Put.half a.name ++ (Put.word (UInt32.ofNat info.length) ++ info) := by
  simp only [write, Fallible.bind_eq_ok, Fallible.pure_eq_ok, List.append_assoc]

namespace Code

variable {pool : Pool} {c : Code} {l : BodyLayout}

/-! ### The parts of an encoded body -/

def TailWritten (l : BodyLayout) (handlers : List Handler) (attributes : List CodeAttribute)
    (tail : List UInt8) : Prop :=
  handlers.length < 65536 ∧ attributes.length < 65536 ∧
    ∃ as, Each (fun a bs => a.write l = .ok bs) attributes as ∧
      tail = (Put.lowHalf handlers.length ++ handlers.flatMap (Handler.write l)) ++
        (Put.lowHalf attributes.length ++ as)

theorem encode_eq_ok {bytes : List UInt8} :
    c.encode = .ok bytes ↔ ∃ l parts tail, c.layout = .ok l ∧ c.emitAll l = .ok parts ∧
      TailWritten l c.handlers c.attributes tail ∧
      bytes = Put.half c.maxStack ++ (Put.half c.maxLocals ++
        (Put.word (UInt32.ofNat (l.offset c.size)) ++ (parts.flatten ++ tail))) := by
  simp only [encode, Fallible.bind_eq_ok, Put.count_eq_ok, Fallible.pure_eq_ok, TailWritten,
    Each.of_mapM]
  constructor
  · intro h
    rcases h with ⟨l, hl, parts, hparts, _, ⟨hhandlers, rfl⟩, _, ⟨hattributes, rfl⟩, as, has, rfl⟩
    refine ⟨l, parts, _, hl, hparts, ⟨hhandlers, hattributes, _, ⟨as, has, rfl⟩, rfl⟩, ?_⟩
    simp only [List.append_assoc]
  · intro h
    rcases h with ⟨l, parts, _, hl, hparts, ⟨hhandlers, hattributes, _, ⟨as, has, rfl⟩, rfl⟩, rfl⟩
    refine ⟨l, hl, parts, hparts, _, ⟨hhandlers, rfl⟩, _, ⟨hattributes, rfl⟩, as, has, ?_⟩
    simp only [List.append_assoc]

/-! ### Sizes and places -/

/-- One run of bytes for each instruction, as long as the layout reserved for it
and written where the layout places it. -/
structure Emits (c : Code) (l : BodyLayout) (parts : List (List UInt8)) : Prop where
  count : parts.length = c.size
  start : ∀ k ≤ c.size, (parts.take k).flatten.length = l.offset k
  emitted : ∀ (k : Nat) (i : Instruction), c.instructions[k]? = some i →
    ∃ widened bytes, l.widened[k]? = some widened ∧ parts[k]? = some bytes ∧
      i.emit k l widened = .ok bytes ∧ bytes.length = i.size (l.offset k) widened

/-- Nothing is asked of operands and opcodes: the sizes follow the same cases as the bytes. -/
theorem emits_of_emitAll (settled : l.Settled c.instructions) {parts : List (List UInt8)}
    (h : c.emitAll l = .ok parts) : c.Emits l parts := by
  obtain ⟨hlength, hstep⟩ := Fallible.mapM_eq_ok.mp h
  obtain ⟨hstart, hruns⟩ := settled.runs
  have count : parts.length = c.size := by
    rw [hlength, List.length_zipIdx, List.length_zip, settled.widens.length_eq, Nat.min_self, size]
  have emitted : ∀ (k : Nat) (i : Instruction), c.instructions[k]? = some i →
      ∃ widened bytes, l.widened[k]? = some widened ∧ parts[k]? = some bytes ∧
        i.emit k l widened = .ok bytes ∧ bytes.length = i.size (l.offset k) widened := by
    intro k i hi
    have hk : k < c.size := (List.getElem?_eq_some_iff.mp hi).1
    have hwidened := List.getElem?_eq_getElem (Nat.lt_of_lt_of_eq hk settled.widens.length_eq.symm)
    have hpart := List.getElem?_eq_getElem (Nat.lt_of_lt_of_eq hk count.symm)
    have hbytes := hstep k _ _ (Instruction.getElem?_zip_zipIdx hi hwidened) hpart
    exact ⟨_, _, hwidened, hpart, hbytes, Instruction.length_emit hbytes⟩
  refine ⟨count, ?_, emitted⟩
  intro k hk
  -- The bytes before an instruction are counted up to it, one size after the other.
  induction k with
  | zero => exact hstart.symm
  | succ k ih =>
    obtain ⟨widened, bytes, hwidened, hpart, -, hbytes⟩ :=
      emitted k _ (List.getElem?_eq_getElem hk)
    have hx : (c.instructions.zip l.widened)[k]? = some (c.instructions[k], widened) :=
      List.getElem?_zip_eq_some.mpr ⟨List.getElem?_eq_getElem hk, hwidened⟩
    have hnext := hruns.step hx
    rw [Nat.zero_add] at hnext
    rw [List.take_add_one, hpart, List.flatten_append, List.length_append, ih (Nat.le_of_lt hk),
      hnext]
    simp [hbytes]

/-- An encoded body announces as many bytes as it has, and holds every instruction at its offset
with its size, whatever its operands and opcodes. -/
theorem emits_of_encode {bytes : List UInt8} (hl : c.layout = .ok l) (h : c.encode = .ok bytes) :
    ∃ (length : UInt32) (parts : List (List UInt8)) (tail : List UInt8),
      bytes = Put.half c.maxStack ++ (Put.half c.maxLocals ++
        (Put.word length ++ (parts.flatten ++ tail))) ∧
      length.toNat = parts.flatten.length ∧ length.toNat = l.offset c.size ∧
      c.Emits l parts ∧ TailWritten l c.handlers c.attributes tail := by
  obtain ⟨l', parts, tail, hl', hparts, htail, rfl⟩ := encode_eq_ok.mp h
  obtain rfl : l' = l := Except.ok.inj (hl'.symm.trans hl)
  have settled := settled_of_layout hl
  have hemits := emits_of_emitAll settled hparts
  have hend : parts.flatten.length = l'.offset c.size := by
    rw [← hemits.start c.size (Nat.le_refl _), ← hemits.count, List.take_length]
  have hsmall : l'.offset c.size ≤ 65535 := settled.small
  have hlength : (UInt32.ofNat (l'.offset c.size)).toNat = l'.offset c.size :=
    UInt32.toNat_ofNat_of_lt (Nat.lt_of_le_of_lt hsmall (by decide))
  exact ⟨_, parts, tail, rfl, hlength.trans hend.symm, hlength, hemits, htail⟩

/-- Operands under opcodes that never take them, one of each size that depends on more. -/
def mismatched : Code where
  maxStack := 1
  maxLocals := 1
  instructions := [⟨0x00, .constant 7⟩, ⟨0xB1, .slot 256 false⟩, ⟨0x12, .constant 7⟩,
    ⟨0x2A, .iinc 1 128 false⟩, ⟨0x60, .lookup 0 [(5, 1)]⟩, ⟨0xC8, .branch 0⟩]
  handlers := []
  attributes := []

def mismatchedBytes : List UInt8 :=
  [0, 1, 0, 1, 0, 0, 0, 37, 0x00, 0, 7, 0xC4, 0xB1, 1, 0, 0x12, 7, 0xC4, 0x2A, 0, 1, 0, 128, 0x60,
    0xFF, 0xFF, 0xFF, 0xF1, 0, 0, 0, 1, 0, 0, 0, 5, 0xFF, 0xFF, 0xFF, 0xF4, 0xC8, 0xFF, 0xFF, 0xFF,
    0xE0, 0, 0, 0, 0]

theorem emits_of_encode_mismatched :
    mismatched.encode = .ok mismatchedBytes ∧ ∃ l, mismatched.layout = .ok l ∧
      ∃ (length : UInt32) (parts : List (List UInt8)) (tail : List UInt8),
        mismatchedBytes = Put.half 1 ++ (Put.half 1 ++
          (Put.word length ++ (parts.flatten ++ tail))) ∧
        length.toNat = parts.flatten.length ∧ length.toNat = l.offset 6 ∧
        mismatched.Emits l parts ∧ TailWritten l [] [] tail := by
  have h : mismatched.encode = .ok mismatchedBytes := Fallible.eq_ok_of_toOption (by decide +kernel)
  obtain ⟨l, -, -, hl, -⟩ := encode_eq_ok.mp h
  exact ⟨h, l, hl, emits_of_encode hl h⟩

/-! ### Instructions -/

theorem size_written (settled : l.Settled c.instructions) : (c.written l).size = c.size := by
  simp [written, size, settled.widens.length_eq]

theorem WellFormed.spells (wf : c.WellFormed pool) (settled : l.Settled c.instructions)
    {parts : List (List UInt8)} (h : c.emitAll l = .ok parts) :
    l.Spells (c.written l).instructions parts.flatten := by
  obtain ⟨hstart, hruns⟩ := settled.runs
  have climbs := settled.climbs
  have spelled : ∀ (j : Nat) (x : Instruction × Bool) (bs : List UInt8),
      (c.instructions.zip l.widened)[j]? = some x → x.1.emit (0 + j) l x.2 = .ok bs →
        ((x.1.written x.2).mapTargets l.offset).Spelled (l.offset c.size) (l.offset (0 + j))
          bs := by
    intro j x bs hx hbs
    obtain ⟨hi, hwidened⟩ := List.getElem?_zip_eq_some.mp hx
    have hmem := List.mem_of_getElem? hi
    have hj : j < c.size := (List.getElem?_eq_some_iff.mp hi).1
    have hstep := hruns.step hx
    have hle : l.offset (j + 1) ≤ l.offset c.size := climbs.le hj (Nat.le_refl _)
    have hsmall : l.offset c.size ≤ 65535 := settled.small
    rw [Nat.zero_add] at hbs hstep ⊢
    refine Instruction.spelled_of_emit (wf.conforms _ hmem) climbs settled.small hj
      (wf.targets _ hmem) (fun hlong => settled.widens.widenable j _ hi (hlong ▸ hwidened)) ?_ hbs
    omega
  have hlaid := Instruction.laid_of_emit hruns spelled h
  have hlength : (c.written l).instructions.length = c.size := size_written settled
  have hend : l.offset c.size = parts.flatten.length := by
    have hend := hlaid.end_eq
    change l.offset (0 + (c.written l).instructions.length) = _ at hend
    rwa [hlength, hstart, Nat.zero_add, Nat.zero_add] at hend
  rw [hend] at hlaid
  refine ⟨hstart, hlaid, ?_, ?_, ?_⟩
  · rw [hlength]
    intro i hi
    obtain ⟨⟨i, widened⟩, hx, rfl⟩ := List.mem_map.mp hi
    rw [Instruction.targets_written]
    exact wf.targets i (List.of_mem_zip hx).1
  · have hpos := climbs.lt wf.nonempty (Nat.le_refl _)
    change l.offset 0 < l.offset c.size at hpos
    omega
  · rw [← hend]
    exact settled.small

/-! ### Tables -/

theorem TailWritten.spelled (wf : c.WellFormed pool) (fits : c.ContentsFit l) {tail : List UInt8}
    (h : TailWritten l c.handlers c.attributes tail) :
    TailSpelled pool l c.size c.handlers c.attributes tail := by
  obtain ⟨hhandlers, hattributes, as, has, rfl⟩ := h
  refine ⟨_, _, Counted.and_fun_iff.mpr ⟨hhandlers, wf.handlers, rfl⟩,
    ⟨hattributes, as, has.mono fun a ha bs hbs => ?_, rfl⟩, rfl⟩
  obtain ⟨info, hinfo, rfl⟩ := CodeAttribute.write_eq_ok.mp hbs
  exact ⟨wf.named a ha, info, fits a ha info hinfo,
    CodeAttribute.contents_of_info (wf.attributes a ha) hinfo, rfl⟩

theorem TailSpelled.contentsFit {tail : List UInt8}
    (h : TailSpelled pool l c.size c.handlers c.attributes tail) : c.ContentsFit l := by
  obtain ⟨_, _, _, ⟨_, cs, hcs, _⟩, _⟩ := h
  intro a ha info hinfo
  obtain ⟨_, _, info', hlength, hcontents, _⟩ := hcs.exists_of_mem a ha
  obtain ⟨ws, hws, hle⟩ := hcontents.info
  cases hws.symm.trans hinfo
  exact Nat.lt_of_le_of_lt hle hlength

theorem TailWritten.contentsFit {tail : List UInt8}
    (h : TailWritten l c.handlers c.attributes tail) (hlt : tail.length < 4294967296) :
    c.ContentsFit l := by
  obtain ⟨-, -, as, has, rfl⟩ := h
  intro a ha info hinfo
  obtain ⟨bs, hbs, hle⟩ := has.exists_length_le a ha
  obtain ⟨info', hinfo', rfl⟩ := CodeAttribute.write_eq_ok.mp hbs
  cases hinfo.symm.trans hinfo'
  simp only [List.length_append] at hlt hle
  omega

theorem TailWritten.spelled_iff (wf : c.WellFormed pool) {tail : List UInt8}
    (h : TailWritten l c.handlers c.attributes tail) :
    TailSpelled pool l c.size c.handlers c.attributes tail ↔ c.ContentsFit l :=
  ⟨TailSpelled.contentsFit, fun fits => h.spelled wf fits⟩

end Code

end PluginGuard.ClassFile
