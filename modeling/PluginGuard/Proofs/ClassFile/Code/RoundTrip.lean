import PluginGuard.Proofs.ClassFile.Code.Passes

/-!
# Bodies there and back

A well-formed body that encodes decodes to itself, long forms aside. A body that
decodes encodes again with every instruction at the offset it had, and the new
bytes decode to the same body, whatever spelling the old ones had.
-/
namespace PluginGuard.ClassFile

open Reader

namespace Code

variable {pool : Pool} {c : Code} {l : BodyLayout}

theorem encode_parts {bytes : List UInt8} (wf : c.WellFormed pool) (h : c.encode = .ok bytes) :
    ∃ (l : BodyLayout) (body tail : List UInt8), c.layout = .ok l ∧
      l.Spells (c.written l).instructions body ∧ TailWritten l c.handlers c.attributes tail ∧
      bytes = assembled c.maxStack c.maxLocals body tail := by
  obtain ⟨l, parts, tail, hl, hparts, htail, rfl⟩ := encode_eq_ok.mp h
  have settled := settled_of_layout hl
  have hspells := wf.spells settled hparts
  have hend := hspells.end_eq
  have hlength : (c.written l).instructions.length = c.size := size_written settled
  rw [hlength] at hend
  exact ⟨l, parts.flatten, tail, hl, hspells, htail, by rw [assembled, hend]⟩

theorem decode_iff_contentsFit {bytes : List UInt8} (wf : c.WellFormed pool)
    (hl : c.layout = .ok l) (h : c.encode = .ok bytes) :
    decode bytes pool = .ok (c.written l) ↔ c.ContentsFit l := by
  obtain ⟨l', body, tail, hl', hspells, htail, rfl⟩ := encode_parts wf h
  obtain rfl : l = l' := Except.ok.inj (hl.symm.trans hl')
  have hlength : (c.written l).instructions.length = c.size := size_written (settled_of_layout hl)
  rw [decode_assembled hspells, hlength, ← htail.spelled_iff wf]
  exact ⟨fun hread => hread.2.2.2, fun hspelled => ⟨rfl, rfl, rfl, hspelled⟩⟩

theorem contentsFit_of_encode {bytes : List UInt8} (hl : c.layout = .ok l)
    (h : c.encode = .ok bytes) (hlt : bytes.length < 4294967296) : c.ContentsFit l := by
  obtain ⟨l', parts, tail, hl', -, htail, rfl⟩ := encode_eq_ok.mp h
  obtain rfl : l = l' := Except.ok.inj (hl.symm.trans hl')
  simp only [List.length_append] at hlt
  exact htail.contentsFit (by omega)

def specimenPool : Pool :=
  ⟨#[none, some (.utf8 [] "LineNumberTable"), some (.utf8 [] "StackMapTable")]⟩

/-- A variable and a constant that short forms do not reach, and all kinds of references. -/
def specimen : Code where
  maxStack := 1
  maxLocals := 301
  instructions := [⟨0x15, .slot 300 false⟩, ⟨0xAA, .table 0 5 [0, 2]⟩, ⟨0x12, .constant 256⟩,
    ⟨0xA7, .branch 0⟩]
  handlers := [⟨0, 4, 2, 0⟩]
  attributes := [.lines 1 [⟨0, 10⟩, ⟨2, 11⟩],
    .stackMap 2 [⟨0, .append [.int]⟩, ⟨2, .full [.int, .uninitialized 1] []⟩]]

def specimenBytes : List UInt8 :=
  [0, 1, 1, 45, 0, 0, 0, 34, 0xC4, 0x15, 1, 44, 0xAA, 0, 0, 0, 0xFF, 0xFF, 0xFF, 0xFC, 0, 0, 0, 5,
    0, 0, 0, 6, 0xFF, 0xFF, 0xFF, 0xFC, 0, 0, 0, 24, 0x13, 1, 0, 0xA7, 0xFF, 0xE1, 0, 1, 0, 0, 0,
    34, 0, 28, 0, 0, 0, 2, 0, 1, 0, 0, 0, 10, 0, 2, 0, 0, 0, 10, 0, 28, 0, 11, 0, 2, 0, 0, 0, 17,
    0, 2, 252, 0, 0, 1, 255, 0, 27, 0, 2, 1, 8, 0, 4, 0, 0]

theorem wellFormed_specimen : specimen.WellFormed specimenPool where
  nonempty := by decide
  conforms := by
    simp only [specimen, List.forall_mem_cons]
    exact ⟨⟨_, rfl, trivial⟩, ⟨_, rfl, by simp [Operand.Fits]⟩, ⟨_, rfl, trivial⟩,
      ⟨_, rfl, trivial⟩, List.forall_mem_nil _⟩
  targets := by decide
  handlers := by simp [specimen, Handler.Within, size]
  attributes := by
    simp only [specimen, List.forall_mem_cons]
    refine ⟨by simp [CodeAttribute.Within, size], ⟨?_, ?_⟩, List.forall_mem_nil _⟩
    · simp only [List.forall_mem_cons]
      refine ⟨⟨by decide, by simp [FrameKind.Sized], ?_⟩, ⟨by decide, trivial, ?_⟩,
        List.forall_mem_nil _⟩
      · simp [FrameKind.types, Verification.Within]
      · simp [FrameKind.types, Verification.Within, size]
    · simp [Frame.Ordered]
  named := by
    simp only [specimen, List.forall_mem_cons]
    exact ⟨rfl, rfl, List.forall_mem_nil _⟩

/-- A jump over more bytes than two bytes of offset reach. -/
def far : Code where
  maxStack := 1
  maxLocals := 0
  instructions := ⟨0xA7, .branch 34⟩ ::
    (List.replicate 33 ⟨0xAA, .table 34 0 (List.replicate 250 34)⟩ ++ [⟨0xB1, .none⟩])
  handlers := []
  attributes := []

def holding (contents : List UInt8) : Code :=
  { Code.ofInstructions 0 0 [.simple 0xB1] with attributes := [.raw 0 contents] }

def readPlaces : Reader (List Nat) := do
  skip 4
  let length ← word
  let placed ← lift (Instruction.readAll (← bytes length.toNat))
  return placed.map (·.1) ++ [length.toNat]

def places (info : List UInt8) : Except Fault (List Nat) := runOn readPlaces info

theorem places_assembled {is : List Instruction} {maxStack maxLocals : UInt16}
    {body tail : List UInt8} (h : l.Spells is body) :
    places (assembled maxStack maxLocals body tail) =
      .ok ((List.range (is.length + 1)).map l.offset) := by
  obtain ⟨c1, c2, c3, c4, -, h1, h2, h3, h4, -⟩ := past_assembled maxStack maxLocals body tail
  have hskip : skip 4 (Cursor.start (assembled maxStack maxLocals body tail)) = .ok ((), c2) :=
    skip_eq_ok.mpr ⟨_, rfl, h1.trans h2⟩
  rw [places, runOn, readPlaces, bind_of_eq_ok hskip, bind_of_eq_ok (word_eq_ok.mpr h3),
    h.toNat_length, bind_of_eq_ok (bytes_eq_ok.mpr ⟨rfl, h4⟩),
    bind_of_eq_ok (lift_eq_ok.mpr ⟨h.readAll, rfl⟩), Instruction.starts_laidOut, ← h.end_eq,
    List.range_succ, List.map_append]
  rfl

theorem wellFormed_of_decode {info : List UInt8} (h : decode info pool = .ok c) :
    c.WellFormed pool := by
  obtain ⟨l, body, tail, rfl, hdecoded⟩ := decoded_of_decode h
  obtain ⟨-, -, -, htail⟩ := (decode_assembled hdecoded.toSpells).mp h
  exact wellFormed_of_decoded hdecoded htail

/-- What decodes is well formed and encodes again. Nothing moves in the new bytes, and they decode
to the same body. -/
theorem encode_of_decode {info : List UInt8} (h : decode info pool = .ok c) :
    c.WellFormed pool ∧ ∃ info', c.encode = .ok info' ∧ decode info' pool = .ok c ∧
      ∃ offsets, places info = .ok offsets ∧ places info' = .ok offsets := by
  obtain ⟨l, body, tail, rfl, hdecoded⟩ := decoded_of_decode h
  obtain ⟨-, -, -, htail⟩ := (decode_assembled hdecoded.toSpells).mp h
  have wf := wellFormed_of_decoded hdecoded htail
  have hlayout := layout_of_decoded hdecoded
  obtain ⟨parts, hparts⟩ := exists_emitAll hdecoded
  obtain ⟨tail', htail'⟩ := htail.exists_written
  have hencode := encode_eq_ok.mpr ⟨l, parts, tail', hlayout, hparts, htail', rfl⟩
  have hspells := wf.spells (settled_of_layout hlayout) hparts
  rw [written_of_decoded hdecoded] at hspells
  have hend : l.offset c.size = parts.flatten.length := hspells.end_eq
  rw [hend] at hencode
  refine ⟨wf, _, hencode, ?_, _, places_assembled hdecoded.toSpells, places_assembled hspells⟩
  exact (decode_assembled hspells).mpr ⟨rfl, rfl, rfl, htail'.spelled wf htail.contentsFit⟩

/-- A needless wide form, padding that is not zero, a long jump where a short one would do, and a
frame in its long form with a byte behind it. -/
def looseBytes : List UInt8 :=
  [0, 1, 0, 2, 0, 0, 0, 30, 0xC4, 0x15, 0, 1, 0xAA, 9, 9, 9, 0, 0, 0, 20, 0, 0, 0, 0, 0, 0, 0, 0,
    0, 0, 0, 20, 0xC8, 0xFF, 0xFF, 0xFF, 0xE8, 0xB1, 0, 0, 0, 1, 0, 2, 0, 0, 0, 6, 0, 1, 251, 0,
    24, 0xEE]

def looseBody : Code where
  maxStack := 1
  maxLocals := 2
  instructions := [⟨0x15, .slot 1 true⟩, ⟨0xAA, .table 2 0 [2]⟩, ⟨0xC8, .branch 0⟩, ⟨0xB1, .none⟩]
  handlers := []
  attributes := [.stackMap 2 [⟨2, .same⟩]]

theorem encode_of_decode_loose :
    decode looseBytes specimenPool = .ok looseBody ∧ looseBody.WellFormed specimenPool ∧
      ∃ info', looseBody.encode = .ok info' ∧ decode info' specimenPool = .ok looseBody ∧
        ∃ offsets, places looseBytes = .ok offsets ∧ places info' = .ok offsets := by
  have h : decode looseBytes specimenPool = .ok looseBody :=
    Fallible.eq_ok_of_toOption (by decide +kernel)
  exact ⟨h, encode_of_decode h⟩

end Code

end PluginGuard.ClassFile
