import Mathlib.Data.List.Basic
import PluginGuard.Proofs.Text.Utf8
import PluginGuard.Text.ModifiedUtf8

/-!
# Modified UTF-8 read back

Decoding undoes encoding for every text. Unit by unit, each encoded unit is read
as itself and the units of a character join to that character again. What is
read as ordinary UTF-8 instead would be read alike unit by unit, but for
sequences of four bytes, which no encoded text has.
-/
namespace PluginGuard.Text.ModifiedUtf8

/-! ### Units -/

theorem unitsInto_one {a : UInt8} (ha : a.toNat < 0x80) (acc : List UInt16) (rest : List UInt8) :
    unitsInto acc (a :: rest) = unitsInto (a.toUInt16 :: acc) rest := by
  rw [unitsInto.eq_def]
  exact if_pos (UInt8.lt_iff_toNat_lt.mpr ha)

theorem unitsInto_two {a : UInt8} (hlo : 0xC0 ≤ a.toNat) (hhi : a.toNat < 0xE0)
    (acc : List UInt16) (b : UInt8) (rest : List UInt8) :
    unitsInto acc (a :: b :: rest) = unitsInto (twoByteUnit a b :: acc) rest := by
  have h1 : ¬a < 0x80 := by
    rw [UInt8.lt_iff_toNat_lt]
    exact Nat.not_lt.mpr (Nat.le_trans (by decide) hlo)
  have h2 : (0xC0 ≤ a && a < 0xE0) = true := by
    simp only [Bool.and_eq_true, decide_eq_true_eq, UInt8.le_iff_toNat_le, UInt8.lt_iff_toNat_lt]
    exact ⟨hlo, hhi⟩
  rw [unitsInto.eq_def]
  simp only [h1, h2, if_true, if_false]

theorem unitsInto_three {a : UInt8} (hlo : 0xE0 ≤ a.toNat) (hhi : a.toNat < 0xF0)
    (acc : List UInt16) (b c : UInt8) (rest : List UInt8) :
    unitsInto acc (a :: b :: c :: rest) = unitsInto (threeByteUnit a b c :: acc) rest := by
  have h1 : ¬a < 0x80 := by
    rw [UInt8.lt_iff_toNat_lt]
    exact Nat.not_lt.mpr (Nat.le_trans (by decide) hlo)
  have h2 : (0xC0 ≤ a && a < 0xE0) = false := by
    simp only [Bool.and_eq_false_iff, decide_eq_false_iff_not, UInt8.lt_iff_toNat_lt]
    exact .inr (Nat.not_lt.mpr hlo)
  have h3 : (0xE0 ≤ a && a < 0xF0) = true := by
    simp only [Bool.and_eq_true, decide_eq_true_eq, UInt8.le_iff_toNat_le, UInt8.lt_iff_toNat_lt]
    exact ⟨hlo, hhi⟩
  rw [unitsInto.eq_def]
  simp only [h1, h2, h3, if_true, if_false, Bool.false_eq_true]

theorem unitsInto_encodeUnit (acc : List UInt16) (u : UInt16) (rest : List UInt8) :
    unitsInto acc (encodeUnit u ++ rest) = unitsInto (u :: acc) rest := by
  have hu := u.toNat_lt
  unfold encodeUnit
  simp only
  generalize hn : u.toNat = n at hu
  split
  · next h1 =>
    simp only [Bool.and_eq_true, decide_eq_true_eq] at h1
    have hb : (UInt8.ofNat n).toUInt16 = u := by
      apply UInt16.toNat_inj.mp
      simp only [UInt8.toNat_toUInt16, UInt8.toNat_ofNat']
      omega
    rw [List.singleton_append, unitsInto_one (by rw [UInt8.toNat_ofNat']; omega), hb]
  · split
    · next h2 =>
      have hb : twoByteUnit (UInt8.ofNat (0xC0 + n / 64)) (UInt8.ofNat (0x80 + n % 64)) = u := by
        apply UInt16.toNat_inj.mp
        simp only [twoByteUnit, UInt16.toNat_ofNat', UInt8.toNat_ofNat']
        omega
      rw [List.cons_append, List.singleton_append, unitsInto_two, hb]
      all_goals rw [UInt8.toNat_ofNat']; omega
    · next h2 =>
      have hb : threeByteUnit (UInt8.ofNat (0xE0 + n / 4096)) (UInt8.ofNat (0x80 + n / 64 % 64))
          (UInt8.ofNat (0x80 + n % 64)) = u := by
        apply UInt16.toNat_inj.mp
        simp only [threeByteUnit, UInt16.toNat_ofNat', UInt8.toNat_ofNat']
        omega
      rw [List.cons_append, List.cons_append, List.singleton_append, unitsInto_three, hb]
      all_goals rw [UInt8.toNat_ofNat']; omega

theorem units_flatMap_encodeUnit (us : List UInt16) : units (us.flatMap encodeUnit) = us := by
  have into : ∀ acc, unitsInto acc (us.flatMap encodeUnit) = acc.reverse ++ us := by
    induction us with
    | nil => intro acc; simp [unitsInto]
    | cons u us ih =>
      intro acc
      rw [List.flatMap_cons, unitsInto_encodeUnit, ih]
      simp
  exact into []

/-! ### Characters -/

theorem toNat_ranges (c : Char) :
    c.toNat < 0xD800 ∨ 0xDFFF < c.toNat ∧ c.toNat < 0x110000 := c.valid

theorem not_surrogate {u : UInt16} (h : u.toNat < 0xD800 ∨ 0xDFFF < u.toNat) :
    isHigh u = false ∧ isLow u = false := by
  simp only [isHigh, isLow, Bool.and_eq_false_iff, decide_eq_false_iff_not,
    UInt16.le_iff_toNat_le, UInt16.reduceToNat]
  omega

theorem charsInto_unitsOf (acc : List Char) (c : Char) (us : List UInt16) :
    charsInto acc (unitsOf c ++ us) = charsInto (c :: acc) us := by
  have hc := toNat_ranges c
  unfold unitsOf
  simp only
  split
  · next hlt =>
    have hu : (UInt16.ofNat c.toNat).toNat = c.toNat := UInt16.toNat_ofNat_of_lt' hlt
    obtain ⟨hh, hl⟩ := not_surrogate (u := UInt16.ofNat c.toNat) (by omega)
    cases us with
    | nil => simp [charsInto, hh, hl, hu]
    | cons v us => simp [charsInto, hh, hl, hu]
  · next hge =>
    generalize hm : c.toNat - 0x10000 = m
    have hhn : (UInt16.ofNat (0xD800 + m / 1024)).toNat = 0xD800 + m / 1024 :=
      UInt16.toNat_ofNat_of_lt' (by simp only [UInt16.size]; omega)
    have hln : (UInt16.ofNat (0xDC00 + m % 1024)).toNat = 0xDC00 + m % 1024 :=
      UInt16.toNat_ofNat_of_lt' (by simp only [UInt16.size]; omega)
    have hhigh : isHigh (UInt16.ofNat (0xD800 + m / 1024)) = true := by
      simp only [isHigh, Bool.and_eq_true, decide_eq_true_eq, UInt16.le_iff_toNat_le, hhn,
        UInt16.reduceToNat]
      omega
    have hlow : isLow (UInt16.ofNat (0xDC00 + m % 1024)) = true := by
      simp only [isLow, Bool.and_eq_true, decide_eq_true_eq, UInt16.le_iff_toNat_le, hln,
        UInt16.reduceToNat]
      omega
    have hjoin : join (UInt16.ofNat (0xD800 + m / 1024)) (UInt16.ofNat (0xDC00 + m % 1024)) =
        c := by
      rw [join, hhn, hln]
      have : 0x10000 + (0xD800 + m / 1024 - 0xD800) * 1024 + (0xDC00 + m % 1024 - 0xDC00) =
          c.toNat := by omega
      rw [this, Char.ofNat_toNat]
    rw [List.cons_append, List.singleton_append, charsInto, if_pos hhigh, if_pos hlow, hjoin]

theorem charsOfUnits_flatMap_unitsOf (cs : List Char) :
    charsOfUnits (cs.flatMap unitsOf) = cs := by
  have into : ∀ acc, charsInto acc (cs.flatMap unitsOf) = acc.reverse ++ cs := by
    induction cs with
    | nil => intro acc; simp [charsInto]
    | cons c cs ih =>
      intro acc
      rw [List.flatMap_cons, charsInto_unitsOf, ih]
      simp
  exact into []

theorem decodeUnits_encodeChars (cs : List Char) : decodeUnits (encodeChars cs) = cs := by
  rw [decodeUnits, encodeChars, units_flatMap_encodeUnit, charsOfUnits_flatMap_unitsOf]

/-! ### The bytes of an encoded text -/

theorem bounds_of_mem_encodeUnit {u : UInt16} {b : UInt8} (hb : b ∈ encodeUnit u) :
    0 < b.toNat ∧ b.toNat < 0xF0 := by
  have hu := u.toNat_lt
  unfold encodeUnit at hb
  simp only at hb
  generalize u.toNat = n at hu hb
  split at hb
  · next h1 =>
    simp only [Bool.and_eq_true, decide_eq_true_eq] at h1
    obtain rfl := List.mem_singleton.mp hb
    rw [UInt8.toNat_ofNat']
    omega
  · split at hb
    · simp only [List.mem_cons, List.not_mem_nil, or_false] at hb
      obtain rfl | rfl := hb
      all_goals
        rw [UInt8.toNat_ofNat']
        omega
    · simp only [List.mem_cons, List.not_mem_nil, or_false] at hb
      obtain rfl | rfl | rfl := hb
      all_goals
        rw [UInt8.toNat_ofNat']
        omega

theorem bounds_of_mem_encode {t : String} {b : UInt8} (hb : b ∈ encode t) :
    0 < b.toNat ∧ b.toNat < 0xF0 := by
  obtain ⟨u, -, hb⟩ := List.mem_flatMap.mp hb
  exact bounds_of_mem_encodeUnit hb

/-! ### Ordinary UTF-8 read unit by unit -/

theorem unitsInto_none {a : UInt8} (hlo : 0x80 ≤ a.toNat) (hno : a.toNat < 0xC0 ∨ 0xF0 ≤ a.toNat)
    (acc : List UInt16) (rest : List UInt8) :
    unitsInto acc (a :: rest) = unitsInto (0xFFFD :: acc) rest := by
  have h1 : ¬a < 0x80 := by
    rw [UInt8.lt_iff_toNat_lt]
    exact Nat.not_lt.mpr hlo
  have h2 : (0xC0 ≤ a && a < 0xE0) = false := by
    simp only [Bool.and_eq_false_iff, decide_eq_false_iff_not, UInt8.le_iff_toNat_le,
      UInt8.lt_iff_toNat_lt, UInt8.reduceToNat]
    omega
  have h3 : (0xE0 ≤ a && a < 0xF0) = false := by
    simp only [Bool.and_eq_false_iff, decide_eq_false_iff_not, UInt8.le_iff_toNat_le,
      UInt8.lt_iff_toNat_lt, UInt8.reduceToNat]
    omega
  rw [unitsInto.eq_def]
  simp only [h1, h2, h3, if_false, Bool.false_eq_true]

/-- What the reading unit by unit makes of a character: the four bytes of a supplementary one are
four sequences that it does not know. -/
def shown (c : Char) : List Char :=
  if c.toNat < 0x10000 then [c] else List.replicate 4 Utf8.replacement

theorem encodeUnit_ofNat {c : Char} (hpos : 0 < c.toNat) (hlt : c.toNat < 0x10000) :
    encodeUnit (UInt16.ofNat c.toNat) = Utf8.encodeChar c := by
  have hu : (UInt16.ofNat c.toNat).toNat = c.toNat := UInt16.toNat_ofNat_of_lt' hlt
  simp only [encodeUnit, Utf8.encodeChar, hu, hpos, hlt, decide_true, Bool.true_and, if_true,
    decide_eq_true_eq]

theorem unitsInto_encodeChar (acc : List UInt16) (c : Char) (rest : List UInt8) :
    unitsInto acc (Utf8.encodeChar c ++ rest) =
      unitsInto (((shown c).flatMap unitsOf).reverse ++ acc) rest := by
  have hc := toNat_ranges c
  by_cases hlt : c.toNat < 0x10000
  · rw [shown, if_pos hlt, List.flatMap_singleton, unitsOf]
    simp only [if_pos hlt, List.reverse_singleton, List.singleton_append]
    by_cases hnul : c.toNat = 0
    · obtain rfl : c = '\x00' := Char.toNat_inj.mp hnul
      exact unitsInto_one (by decide) acc rest
    · rw [← encodeUnit_ofNat (Nat.pos_of_ne_zero hnul) hlt, unitsInto_encodeUnit]
  · have hunits : ((shown c).flatMap unitsOf).reverse = List.replicate 4 0xFFFD := by
      rw [shown, if_neg hlt]
      rfl
    rw [hunits, Utf8.encodeChar]
    simp only [if_neg hlt, if_neg (show ¬c.toNat < 0x80 by omega),
      if_neg (show ¬c.toNat < 0x800 by omega), List.cons_append, List.nil_append]
    generalize c.toNat = n at hc hlt
    rw [unitsInto_none, unitsInto_none, unitsInto_none, unitsInto_none]
    · rfl
    all_goals
      rw [UInt8.toNat_ofNat']
      omega

theorem decodeUnits_flatMap_encodeChar (cs : List Char) :
    decodeUnits (cs.flatMap Utf8.encodeChar) = cs.flatMap shown := by
  have into : ∀ acc, unitsInto acc (cs.flatMap Utf8.encodeChar) =
      acc.reverse ++ (cs.flatMap shown).flatMap unitsOf := by
    induction cs with
    | nil => intro acc; simp [unitsInto]
    | cons c cs ih =>
      intro acc
      rw [List.flatMap_cons, unitsInto_encodeChar, ih]
      simp
  rw [decodeUnits, units, into, List.reverse_nil, List.nil_append, charsOfUnits_flatMap_unitsOf]

theorem flatMap_shown_iff {cs : List Char} :
    cs.flatMap shown = cs ↔ ∀ c ∈ cs, c.toNat < 0x10000 := by
  constructor
  · intro h c hc
    rw [← h] at hc
    obtain ⟨d, -, hd⟩ := List.mem_flatMap.mp hc
    rw [shown] at hd
    split at hd
    · next hlt =>
      obtain rfl := List.mem_singleton.mp hd
      exact hlt
    · rw [List.eq_of_mem_replicate hd]
      decide
  · intro h
    have hsame : ∀ c ∈ cs, shown c = [c] := fun c hc => if_pos (h c hc)
    rw [List.flatMap_congr hsame, List.flatMap_singleton']

theorem forall_mem_encodeChar_iff {c : Char} :
    (∀ b ∈ Utf8.encodeChar c, b < 0xF0) ↔ c.toNat < 0x10000 := by
  have hc := toNat_ranges c
  rw [Utf8.encodeChar]
  simp only [UInt8.lt_iff_toNat_lt, UInt8.reduceToNat]
  generalize c.toNat = n at hc
  repeat' split
  all_goals
    simp only [List.forall_mem_cons, List.not_mem_nil, false_implies, implies_true, and_true,
      UInt8.toNat_ofNat']
    omega

theorem decodeUnits_eq_iff {bytes : List UInt8} {cs : List Char} (h : Utf8.decode? bytes = some cs) :
    decodeUnits bytes = cs ↔ ∀ b ∈ bytes, b < 0xF0 := by
  obtain rfl := Utf8.decode?_eq_some_iff.mp h
  rw [decodeUnits_flatMap_encodeChar, flatMap_shown_iff, List.forall_mem_flatMap]
  simp only [forall_mem_encodeChar_iff]

theorem decode_encode (t : String) : decode (encode t) = t := by
  have hunits : decodeUnits (encode t) = t.toList := decodeUnits_encodeChars t.toList
  have hchars : decodeChars (encode t) = t.toList := by
    unfold decodeChars
    split
    · next cs hcs =>
      split
      · exact hunits
      · have hlow : ∀ b ∈ encode t, b < 0xF0 := fun b hb =>
          UInt8.lt_iff_toNat_lt.mpr (bounds_of_mem_encode hb).2
        exact ((decodeUnits_eq_iff hcs).mpr hlow).symm.trans hunits
    · exact hunits
  rw [decode, hchars, String.ofList_toList]

/-- Every text is read back from its bytes, none of which is zero or begins a sequence of four. -/
theorem encoded_text (t : String) :
    decode (encode t) = t ∧ ∀ b ∈ encode t, b ≠ 0 ∧ b < 0xF0 := by
  refine ⟨decode_encode t, fun b hb => ?_⟩
  obtain ⟨hpos, hlt⟩ := bounds_of_mem_encode hb
  refine ⟨?_, UInt8.lt_iff_toNat_lt.mpr hlt⟩
  rintro rfl
  exact Nat.lt_irrefl 0 hpos

def mixed : String := String.ofList ['\x00', 'A', '\uD7FF', Char.ofNat 0x1F600]

theorem encoded_text_mixed :
    encode mixed = [0xC0, 0x80, 0x41, 0xED, 0x9F, 0xBF, 0xED, 0xA0, 0xBD, 0xED, 0xB8, 0x80] ∧
      decode (encode mixed) = mixed ∧ 0xED ∈ encode mixed ∧ (0xED : UInt8) ≠ 0 ∧
      (0xED : UInt8) < 0xF0 := by
  have hbytes : encode mixed =
      [0xC0, 0x80, 0x41, 0xED, 0x9F, 0xBF, 0xED, 0xA0, 0xBD, 0xED, 0xB8, 0x80] := by
    decide
  have hmem : 0xED ∈ encode mixed := by
    rw [hbytes]
    decide
  obtain ⟨hback, hbounds⟩ := encoded_text mixed
  exact ⟨hbytes, hback, hmem, hbounds 0xED hmem⟩

/-- Text that is read as ordinary UTF-8 would be read alike unit by unit exactly if no byte of it
begins a sequence of four. -/
theorem decode_eq_decodeUnits_iff {bytes : List UInt8} {cs : List Char}
    (hstrict : Utf8.decode? bytes = some cs) (hed : 0xED ∉ bytes) :
    decode bytes = String.ofList cs ∧
      (decode bytes = String.ofList (decodeUnits bytes) ↔ ∀ b ∈ bytes, b < 0xF0) := by
  have hdecode : decode bytes = String.ofList cs := by
    simp [decode, decodeChars, hstrict, hed]
  refine ⟨hdecode, ?_⟩
  rw [hdecode, String.ofList_inj, eq_comm]
  exact decodeUnits_eq_iff hstrict

def widths : List UInt8 :=
  [0x00, 0x7F, 0xC2, 0x80, 0xDF, 0xBF, 0xE0, 0xA0, 0x80, 0xEF, 0xBF, 0xBF]

def supplementary : List UInt8 := [0xF0, 0x90, 0x80, 0x80]

theorem decode_eq_decodeUnits_iff_widths :
    Utf8.decode? widths = some ['\x00', '\x7F', '\u0080', '\u07FF', '\u0800', '\uFFFF'] ∧
      0xED ∉ widths ∧
      decode widths =
        String.ofList ['\x00', '\x7F', '\u0080', '\u07FF', '\u0800', '\uFFFF'] ∧
      decode widths = String.ofList (decodeUnits widths) ∧
      decode supplementary ≠ String.ofList (decodeUnits supplementary) := by
  have hstrict : Utf8.decode? widths =
      some ['\x00', '\x7F', '\u0080', '\u07FF', '\u0800', '\uFFFF'] :=
    Utf8.decode?_eq_some_iff.mpr (by decide)
  have hed : 0xED ∉ widths := by decide
  have hlow : ∀ b ∈ widths, b < 0xF0 := by simp [widths]
  obtain ⟨hdecode, hiff⟩ := decode_eq_decodeUnits_iff hstrict hed
  have hstrict' : Utf8.decode? supplementary = some [Char.ofNat 0x10000] :=
    Utf8.decode?_eq_some_iff.mpr (by decide)
  have hed' : 0xED ∉ supplementary := by decide
  have hhigh : ¬∀ b ∈ supplementary, b < 0xF0 := by simp [supplementary]
  obtain ⟨-, hiff'⟩ := decode_eq_decodeUnits_iff hstrict' hed'
  exact ⟨hstrict, hed, hdecode, hiff.mpr hlow, mt hiff'.mp hhigh⟩

end PluginGuard.Text.ModifiedUtf8
