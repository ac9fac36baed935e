import PluginGuard.Text.Utf8

/-!
# Bytes read as UTF-8

The strict reading accepts the encodings of texts and nothing else. Each of its steps takes off the
bytes of the character that it reads, since the bounds of the second byte keep out forms longer than
needed, surrogates and numbers past the last character.
-/
namespace PluginGuard.Text.Utf8

variable {b d e f lo hi : UInt8} {tail rest bytes : List UInt8} {c : Char} {cs acc : List Char}
  {more n m : Nat}

/-! ### The bytes of a character -/

theorem second_eq_some (h : second b = some (more, lo, hi)) :
    (more = 1 ∧ 0xC2 ≤ b.toNat ∧ b.toNat ≤ 0xDF ∧ 0x80 ≤ lo.toNat ∧ hi.toNat ≤ 0xBF) ∨
    (more = 2 ∧ 0xE0 ≤ b.toNat ∧ b.toNat ≤ 0xEF ∧ 0x80 ≤ lo.toNat ∧ hi.toNat ≤ 0xBF ∧
      (b.toNat = 0xE0 → 0xA0 ≤ lo.toNat) ∧ (b.toNat = 0xED → hi.toNat ≤ 0x9F)) ∨
    (more = 3 ∧ 0xF0 ≤ b.toNat ∧ b.toNat ≤ 0xF4 ∧ 0x80 ≤ lo.toNat ∧ hi.toNat ≤ 0xBF ∧
      (b.toNat = 0xF0 → 0x90 ≤ lo.toNat) ∧ (b.toNat = 0xF4 → hi.toNat ≤ 0x8F)) := by
  simp only [second, Bool.and_eq_true, decide_eq_true_eq, beq_iff_eq, UInt8.le_iff_toNat_le,
    ← UInt8.toNat_inj, UInt8.reduceToNat] at h
  repeat' split at h
  all_goals cases h
  all_goals simp
  all_goals omega

theorem isTail_iff : isTail b = true ↔ 0x80 ≤ b.toNat ∧ b.toNat ≤ 0xBF := by
  simp only [isTail, Bool.and_eq_true, decide_eq_true_eq, UInt8.le_iff_toNat_le, UInt8.reduceToNat]

theorem within_iff : ¬(!(lo ≤ b && b ≤ hi)) = true ↔ lo.toNat ≤ b.toNat ∧ b.toNat ≤ hi.toNat := by
  simp only [Bool.not_eq_true, Bool.not_eq_false', Bool.and_eq_true, decide_eq_true_eq,
    UInt8.le_iff_toNat_le]

theorem toNat_ofNat (h : n.isValidChar) : (Char.ofNat n).toNat = n := by
  rw [Char.ofNat, dif_pos h]
  rfl

theorem ofNat_eq (h : n = b.toNat) : UInt8.ofNat n = b := by
  rw [h, UInt8.ofNat_toNat]

theorem encodeChar_one (hb : b.toNat < 0x80) : encodeChar (Char.ofNat b.toNat) = [b] := by
  have hvalid : b.toNat.isValidChar := .inl (by omega)
  rw [encodeChar, toNat_ofNat hvalid, if_pos hb, ofNat_eq rfl]

theorem encodeChar_two (hb : 0xC2 ≤ b.toNat) (hb' : b.toNat ≤ 0xDF) (hd : isTail d = true) :
    encodeChar (Char.ofNat (b.toNat % 32 * 64 + bits d)) = [b, d] := by
  rw [isTail_iff] at hd
  rw [bits]
  generalize hn : b.toNat % 32 * 64 + d.toNat % 64 = n
  have hvalid : n.isValidChar := .inl (by omega)
  have hlead : 0xC0 + n / 64 = b.toNat := by omega
  have hlast : 0x80 + n % 64 = d.toNat := by omega
  rw [encodeChar, toNat_ofNat hvalid, if_neg (by omega), if_pos (by omega), ofNat_eq hlead,
    ofNat_eq hlast]

theorem encodeChar_three (hb : 0xE0 ≤ b.toNat) (hb' : b.toNat ≤ 0xEF) (hd : isTail d = true)
    (hlong : b.toNat = 0xE0 → 0xA0 ≤ d.toNat) (hsurrogate : b.toNat = 0xED → d.toNat ≤ 0x9F)
    (he : isTail e = true) :
    encodeChar (Char.ofNat (b.toNat % 16 * 4096 + bits d * 64 + bits e)) = [b, d, e] := by
  rw [isTail_iff] at hd he
  rw [bits, bits]
  generalize hn : b.toNat % 16 * 4096 + d.toNat % 64 * 64 + e.toNat % 64 = n
  have hvalid : n.isValidChar := by
    rw [Nat.isValidChar]
    omega
  have hlead : 0xE0 + n / 4096 = b.toNat := by omega
  have hmiddle : 0x80 + n / 64 % 64 = d.toNat := by omega
  have hlast : 0x80 + n % 64 = e.toNat := by omega
  rw [encodeChar, toNat_ofNat hvalid, if_neg (by omega), if_neg (by omega), if_pos (by omega),
    ofNat_eq hlead, ofNat_eq hmiddle, ofNat_eq hlast]

theorem encodeChar_four (hb : 0xF0 ≤ b.toNat) (hb' : b.toNat ≤ 0xF4) (hd : isTail d = true)
    (hlong : b.toNat = 0xF0 → 0x90 ≤ d.toNat) (hpast : b.toNat = 0xF4 → d.toNat ≤ 0x8F)
    (he : isTail e = true) (hf : isTail f = true) :
    encodeChar (Char.ofNat (b.toNat % 8 * 262144 + bits d * 4096 + bits e * 64 + bits f)) =
      [b, d, e, f] := by
  rw [isTail_iff] at hd he hf
  rw [bits, bits, bits]
  generalize hn : b.toNat % 8 * 262144 + d.toNat % 64 * 4096 + e.toNat % 64 * 64 + f.toNat % 64 = n
  have hvalid : n.isValidChar := .inr (by omega)
  have hlead : 0xF0 + n / 262144 = b.toNat := by omega
  have hsecond : 0x80 + n / 4096 % 64 = d.toNat := by omega
  have hthird : 0x80 + n / 64 % 64 = e.toNat := by omega
  have hlast : 0x80 + n % 64 = f.toNat := by omega
  rw [encodeChar, toNat_ofNat hvalid, if_neg (by omega), if_neg (by omega), if_neg (by omega),
    ofNat_eq hlead, ofNat_eq hsecond, ofNat_eq hthird, ofNat_eq hlast]

/-! ### What a step takes off -/

theorem eq_append_of_next (h : next b tail = .char c rest) : b :: tail = encodeChar c ++ rest := by
  revert h
  -- Of the cases of a step, these read one, two, three and four bytes. The others read none.
  fun_cases next b tail with
  | case1 _ hone =>
    rintro ⟨⟩
    rw [encodeChar_one (UInt8.lt_iff_toNat_lt.mp hone), List.singleton_append]
  | case5 _ lo hi d _ hd hsecond =>
    rintro ⟨⟩
    have hbounds := second_eq_some hsecond
    have htail := within_iff.mp hd
    rw [encodeChar_two (by omega) (by omega) (isTail_iff.mpr (by omega))]
    rfl
  | case8 _ lo hi d hd e _ he hsecond =>
    rintro ⟨⟩
    have hbounds := second_eq_some hsecond
    have htail := within_iff.mp hd
    rw [encodeChar_three (by omega) (by omega) (isTail_iff.mpr (by omega)) (by omega) (by omega)
      (by simpa using he)]
    rfl
  | case11 _ more lo hi hsecond d hd hone e he htwo f _ hf =>
    rintro ⟨⟩
    have hbounds := second_eq_some hsecond
    have htail := within_iff.mp hd
    rw [encodeChar_four (by omega) (by omega) (isTail_iff.mpr (by omega)) (by omega) (by omega)
      (by simpa using he) (by simpa using hf)]
    rfl
  | _ => rintro ⟨⟩

/-! ### Steps over the bytes of a character -/

theorem second_two : ∀ k < 32, 2 ≤ k → second (UInt8.ofNat (0xC0 + k)) = some (1, 0x80, 0xBF) := by
  decide

theorem second_three : ∀ k < 16, second (UInt8.ofNat (0xE0 + k)) =
    some (2, UInt8.ofNat (if k = 0 then 0xA0 else 0x80),
      UInt8.ofNat (if k = 13 then 0x9F else 0xBF)) := by
  decide

theorem second_four : ∀ k < 5, second (UInt8.ofNat (0xF0 + k)) =
    some (3, UInt8.ofNat (if k = 0 then 0x90 else 0x80),
      UInt8.ofNat (if k = 4 then 0x8F else 0xBF)) := by
  decide

theorem toNat_lead (hlo : 0x80 ≤ n) (hhi : n < 0x100) :
    (UInt8.ofNat n).toNat = n ∧ ¬UInt8.ofNat n < 0x80 := by
  have hb : (UInt8.ofNat n).toNat = n := UInt8.toNat_ofNat_of_lt' hhi
  refine ⟨hb, ?_⟩
  rw [UInt8.lt_iff_toNat_lt, hb]
  exact Nat.not_lt.mpr hlo

theorem toNat_tail (hm : m < 64) : (UInt8.ofNat (0x80 + m)).toNat = 0x80 + m := by
  rw [UInt8.toNat_ofNat']
  omega

theorem isTail_tail (hm : m < 64) : isTail (UInt8.ofNat (0x80 + m)) = true := by
  rw [isTail_iff, toNat_tail hm]
  omega

theorem bits_tail (hm : m < 64) : bits (UInt8.ofNat (0x80 + m)) = m := by
  rw [bits, toNat_tail hm]
  omega

theorem next_one (hn : n < 0x80) : next (UInt8.ofNat n) rest = .char (Char.ofNat n) rest := by
  have hb : (UInt8.ofNat n).toNat = n := UInt8.toNat_ofNat_of_lt' (Nat.lt_trans hn (by decide))
  rw [next, if_pos (UInt8.lt_iff_toNat_lt.mpr (by rw [hb]; exact hn)), hb]

theorem next_two (hlo : 0x80 ≤ n) (hhi : n < 0x800) :
    next (UInt8.ofNat (0xC0 + n / 64)) (UInt8.ofNat (0x80 + n % 64) :: rest) =
      .char (Char.ofNat n) rest := by
  obtain ⟨hb, hone⟩ := toNat_lead (n := 0xC0 + n / 64) (by omega) (by omega)
  have hd := toNat_tail (m := n % 64) (by omega)
  have hwithin : (0x80 ≤ UInt8.ofNat (0x80 + n % 64) &&
      UInt8.ofNat (0x80 + n % 64) ≤ 0xBF) = true := by
    simp only [Bool.and_eq_true, decide_eq_true_eq, UInt8.le_iff_toNat_le, hd, UInt8.reduceToNat]
    omega
  have hvalue : (0xC0 + n / 64) % 32 * 64 + n % 64 = n := by omega
  simp only [next, hone, second_two (n / 64) (by omega) (by omega), hwithin, if_false, if_true,
    Bool.not_true, Bool.false_eq_true, hb, bits_tail (m := n % 64) (by omega), hvalue]

theorem next_three (hlo : 0x800 ≤ n) (hhi : n < 0x10000) (hvalid : n < 0xD800 ∨ 0xDFFF < n) :
    next (UInt8.ofNat (0xE0 + n / 4096)) (UInt8.ofNat (0x80 + n / 64 % 64) ::
      UInt8.ofNat (0x80 + n % 64) :: rest) = .char (Char.ofNat n) rest := by
  obtain ⟨hb, hone⟩ := toNat_lead (n := 0xE0 + n / 4096) (by omega) (by omega)
  have hd := toNat_tail (m := n / 64 % 64) (by omega)
  have hwithin : (UInt8.ofNat (if n / 4096 = 0 then 0xA0 else 0x80) ≤
      UInt8.ofNat (0x80 + n / 64 % 64) && UInt8.ofNat (0x80 + n / 64 % 64) ≤
        UInt8.ofNat (if n / 4096 = 13 then 0x9F else 0xBF)) = true := by
    simp only [Bool.and_eq_true, decide_eq_true_eq, UInt8.le_iff_toNat_le, hd]
    split <;> split <;> simp <;> omega
  have hvalue : (0xE0 + n / 4096) % 16 * 4096 + n / 64 % 64 * 64 + n % 64 = n := by omega
  simp only [next, hone, second_three (n / 4096) (by omega), hwithin, if_false, Bool.not_true,
    Bool.false_eq_true, hb, bits_tail (m := n / 64 % 64) (by omega),
    bits_tail (m := n % 64) (by omega), isTail_tail (m := n % 64) (by omega), hvalue]
  rfl

theorem next_four (hlo : 0x10000 ≤ n) (hhi : n < 0x110000) :
    next (UInt8.ofNat (0xF0 + n / 262144)) (UInt8.ofNat (0x80 + n / 4096 % 64) ::
      UInt8.ofNat (0x80 + n / 64 % 64) :: UInt8.ofNat (0x80 + n % 64) :: rest) =
        .char (Char.ofNat n) rest := by
  obtain ⟨hb, hone⟩ := toNat_lead (n := 0xF0 + n / 262144) (by omega) (by omega)
  have hd := toNat_tail (m := n / 4096 % 64) (by omega)
  have hwithin : (UInt8.ofNat (if n / 262144 = 0 then 0x90 else 0x80) ≤
      UInt8.ofNat (0x80 + n / 4096 % 64) && UInt8.ofNat (0x80 + n / 4096 % 64) ≤
        UInt8.ofNat (if n / 262144 = 4 then 0x8F else 0xBF)) = true := by
    simp only [Bool.and_eq_true, decide_eq_true_eq, UInt8.le_iff_toNat_le, hd]
    split <;> split <;> simp <;> omega
  have hvalue : (0xF0 + n / 262144) % 8 * 262144 + n / 4096 % 64 * 4096 + n / 64 % 64 * 64 +
      n % 64 = n := by omega
  simp only [next, hone, second_four (n / 262144) (by omega), hwithin, if_false, Bool.not_true,
    Bool.false_eq_true, hb, bits_tail (m := n / 4096 % 64) (by omega),
    bits_tail (m := n / 64 % 64) (by omega), bits_tail (m := n % 64) (by omega),
    isTail_tail (m := n / 64 % 64) (by omega), isTail_tail (m := n % 64) (by omega), hvalue]
  rfl

/-! ### Texts -/

theorem decodeInto_eq_some (h : decodeInto acc bytes = some cs) :
    ∃ read, cs = acc.reverse ++ read ∧ bytes = read.flatMap encodeChar := by
  fun_induction decodeInto acc bytes with
  | case1 acc =>
    cases h
    exact ⟨[], (List.append_nil _).symm, rfl⟩
  | case2 acc b tail _ c rest hnext ih =>
    obtain ⟨read, rfl, rfl⟩ := ih h
    exact ⟨c :: read, by simp, eq_append_of_next hnext⟩
  | case3 => cases h

theorem decodeInto_char (h : next b tail = .char c rest) :
    decodeInto acc (b :: tail) = decodeInto (c :: acc) rest := by
  rw [decodeInto.eq_def]
  simp only
  split
  · next c' rest' h' =>
    obtain ⟨rfl, rfl⟩ := by simpa [h] using h'
    rfl
  · next h' => simp [h] at h'

theorem decodeInto_encodeChar (acc : List Char) (c : Char) (rest : List UInt8) :
    decodeInto acc (encodeChar c ++ rest) = decodeInto (c :: acc) rest := by
  have hc : c.toNat < 0xD800 ∨ 0xDFFF < c.toNat ∧ c.toNat < 0x110000 := c.valid
  have hback : Char.ofNat c.toNat = c := Char.ofNat_toNat c
  unfold encodeChar
  simp only
  generalize c.toNat = n at hc hback
  subst hback
  split
  · next hone => exact decodeInto_char (next_one hone)
  · split
    · next htwo => exact decodeInto_char (next_two (by omega) htwo)
    · split
      · next hthree => exact decodeInto_char (next_three (by omega) hthree (by omega))
      · exact decodeInto_char (next_four (by omega) (by omega))

theorem decode?_eq_some_iff : decode? bytes = some cs ↔ bytes = cs.flatMap encodeChar := by
  constructor
  · intro h
    obtain ⟨read, rfl, hbytes⟩ := decodeInto_eq_some h
    exact hbytes
  · rintro rfl
    have into : ∀ acc, decodeInto acc (cs.flatMap encodeChar) = some (acc.reverse ++ cs) := by
      induction cs with
      | nil => intro acc; simp [decodeInto]
      | cons c cs ih =>
        intro acc
        rw [List.flatMap_cons, decodeInto_encodeChar, ih]
        simp
    exact into []

end PluginGuard.Text.Utf8
