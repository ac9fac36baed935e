import PluginGuard.Proofs.ClassFile.Reading

/-!
# Fields of fixed width

Each big-endian field is read exactly from what its writer puts: one lemma a
width says when the reader succeeds, in both directions. Signed fields are the
same bytes under another reading of the number.
-/
namespace PluginGuard.ClassFile

open Reader

/-! ### Numbers and their bytes -/

theorem Put.half_ofNat_bytes (a b : UInt8) :
    Put.half (UInt16.ofNat (a.toNat * 256 + b.toNat)) = [a, b] := by
  have ha := a.toNat_lt
  have hb := b.toNat_lt
  have hv : (UInt16.ofNat (a.toNat * 256 + b.toNat)).toNat = a.toNat * 256 + b.toNat := by
    rw [UInt16.toNat_ofNat']
    omega
  have hhigh : (a.toNat * 256 + b.toNat) / 256 = a.toNat := by omega
  have hlow : (a.toNat * 256 + b.toNat) % 256 = b.toNat := by omega
  rw [Put.half, hv, hhigh, hlow, UInt8.ofNat_toNat, UInt8.ofNat_toNat]

theorem Put.ofNat_halves (v : UInt16) :
    UInt16.ofNat ((UInt8.ofNat (v.toNat / 256)).toNat * 256 +
      (UInt8.ofNat (v.toNat % 256)).toNat) = v := by
  have hv := v.toNat_lt
  apply UInt16.toNat_inj.mp
  simp only [UInt16.toNat_ofNat', UInt8.toNat_ofNat']
  omega

theorem Put.word_ofNat_bytes (a b d e : UInt8) :
    Put.word (UInt32.ofNat (((a.toNat * 256 + b.toNat) * 256 + d.toNat) * 256 + e.toNat)) =
      [a, b, d, e] := by
  have ha := a.toNat_lt
  have hb := b.toNat_lt
  have hd := d.toNat_lt
  have he := e.toNat_lt
  generalize hn : ((a.toNat * 256 + b.toNat) * 256 + d.toNat) * 256 + e.toNat = n
  have hv : (UInt32.ofNat n).toNat = n := by
    rw [UInt32.toNat_ofNat']
    omega
  have h1 : n / 16777216 = a.toNat := by omega
  have h2 : n / 65536 % 256 = b.toNat := by omega
  have h3 : n / 256 % 256 = d.toNat := by omega
  have h4 : n % 256 = e.toNat := by omega
  simp only [Put.word, hv, h1, h2, h3, h4, UInt8.ofNat_toNat]

theorem Put.ofNat_quarters (v : UInt32) :
    UInt32.ofNat ((((UInt8.ofNat (v.toNat / 16777216)).toNat * 256 +
      (UInt8.ofNat (v.toNat / 65536 % 256)).toNat) * 256 +
      (UInt8.ofNat (v.toNat / 256 % 256)).toNat) * 256 +
      (UInt8.ofNat (v.toNat % 256)).toNat) = v := by
  have hv := v.toNat_lt
  apply UInt32.toNat_inj.mp
  simp only [UInt32.toNat_ofNat', UInt8.toNat_ofNat']
  omega

@[simp] theorem Put.length_half (v : UInt16) : (Put.half v).length = 2 := rfl

@[simp] theorem Put.length_lowHalf (n : Nat) : (Put.lowHalf n).length = 2 := rfl

@[simp] theorem Put.length_word (v : UInt32) : (Put.word v).length = 4 := rfl

@[simp] theorem Put.length_signedWord (v : Int) : (Put.signedWord v).length = 4 := rfl

/-! ### Reading them -/

namespace Reader

theorem byte_eq_ok {c c' : Cursor} {b : UInt8} :
    byte c = .ok (b, c') ↔ c.Past [b] c' := by
  obtain ⟨p, rest⟩ := c
  obtain ⟨p', rest'⟩ := c'
  cases rest with
  | nil =>
    constructor
    · intro h
      cases h
    · intro h
      cases h.rest_eq
  | cons a rest =>
    constructor
    · intro h
      cases h
      exact ⟨rfl, rfl⟩
    · intro h
      rcases h with ⟨hr, hp⟩
      obtain ⟨rfl, rfl⟩ := by simpa using hr
      obtain rfl : p' = p + 1 := hp
      rfl

theorem half_eq_ok {c c' : Cursor} {v : UInt16} :
    half c = .ok (v, c') ↔ c.Past (Put.half v) c' := by
  obtain ⟨p, rest⟩ := c
  obtain ⟨p', rest'⟩ := c'
  constructor
  · intro h
    rcases rest with _ | ⟨a, _ | ⟨b, rest⟩⟩
    · cases h
    · cases h
    · cases h
      exact ⟨by rw [Put.half_ofNat_bytes]; rfl, rfl⟩
  · intro h
    rcases h with ⟨hr, hp⟩
    obtain rfl : rest = Put.half v ++ rest' := hr
    obtain rfl : p' = p + 2 := hp
    simp only [half, Put.half, List.cons_append, List.nil_append, Put.ofNat_halves]

theorem half_eq_ok_lowHalf {c c' : Cursor} {v : UInt16} :
    half c = .ok (v, c') ↔ c.Past (Put.lowHalf v.toNat) c' := by
  rw [Put.lowHalf, UInt16.ofNat_toNat, half_eq_ok]

theorem word_eq_ok {c c' : Cursor} {v : UInt32} :
    word c = .ok (v, c') ↔ c.Past (Put.word v) c' := by
  obtain ⟨p, rest⟩ := c
  obtain ⟨p', rest'⟩ := c'
  constructor
  · intro h
    rcases rest with _ | ⟨a, _ | ⟨b, _ | ⟨d, _ | ⟨e, rest⟩⟩⟩⟩
    iterate 4 cases h
    cases h
    exact ⟨by rw [Put.word_ofNat_bytes]; rfl, rfl⟩
  · intro h
    rcases h with ⟨hr, hp⟩
    obtain rfl : rest = Put.word v ++ rest' := hr
    obtain rfl : p' = p + 4 := hp
    simp only [word, Put.word, List.cons_append, List.nil_append, Put.ofNat_quarters]

theorem long_eq_ok {c c' : Cursor} {v : UInt64} :
    long c = .ok (v, c') ↔ c.Past (Put.long v) c' := by
  have hlt := v.toNat_lt
  simp only [long, bind_eq_ok, word_eq_ok, pure_eq_ok]
  constructor
  · intro h
    rcases h with ⟨high, d, hd, low, d', hd', rfl, rfl⟩
    have hh := high.toNat_lt
    have hl := low.toNat_lt
    generalize hn : high.toNat * 4294967296 + low.toNat = n
    have hv : (UInt64.ofNat n).toNat = n := by
      rw [UInt64.toNat_ofNat']
      omega
    have hhigh : n / 4294967296 = high.toNat := by omega
    have hlow : n % 4294967296 = low.toNat := by omega
    rw [Put.long, hv, hhigh, hlow, UInt32.ofNat_toNat, UInt32.ofNat_toNat]
    exact hd.trans hd'
  · intro h
    obtain ⟨d, hd, hd'⟩ := Cursor.Past.append_iff.mp h
    refine ⟨_, d, hd, _, c', hd', ?_, rfl⟩
    apply UInt64.toNat_inj.mp
    simp only [UInt64.toNat_ofNat', UInt32.toNat_ofNat']
    omega

theorem signedByte_eq_ok {c c' : Cursor} {v : Int8} :
    signedByte c = .ok (v, c') ↔ c.Past [v.toUInt8] c' := by
  simp only [signedByte, bind_eq_ok, byte_eq_ok, pure_eq_ok]
  constructor
  · intro h
    rcases h with ⟨b, d, hd, rfl, rfl⟩
    exact hd
  · exact fun h => ⟨_, c', h, rfl, rfl⟩

theorem signedHalf_eq_ok {c c' : Cursor} {v : Int16} :
    signedHalf c = .ok (v, c') ↔ c.Past (Put.half v.toUInt16) c' := by
  simp only [signedHalf, bind_eq_ok, half_eq_ok, pure_eq_ok]
  constructor
  · intro h
    rcases h with ⟨b, d, hd, rfl, rfl⟩
    exact hd
  · exact fun h => ⟨_, c', h, rfl, rfl⟩

theorem signedWord_eq_ok {c c' : Cursor} {v : Int32} :
    signedWord c = .ok (v, c') ↔ c.Past (Put.word v.toUInt32) c' := by
  simp only [signedWord, bind_eq_ok, word_eq_ok, pure_eq_ok]
  constructor
  · intro h
    rcases h with ⟨b, d, hd, rfl, rfl⟩
    exact hd
  · exact fun h => ⟨_, c', h, rfl, rfl⟩

theorem splitInto_eq_some {n : Nat} {acc rest taken rest' : List UInt8} :
    splitInto acc n rest = some (taken, rest') ↔
      ∃ new, taken = acc.reverse ++ new ∧ new.length = n ∧ rest = new ++ rest' := by
  induction n generalizing acc rest with
  | zero =>
    simp only [splitInto, Option.some.injEq, Prod.mk.injEq, List.length_eq_zero_iff]
    constructor
    · intro h
      rcases h with ⟨rfl, rfl⟩
      exact ⟨[], by simp⟩
    · intro h
      rcases h with ⟨_, rfl, rfl, rfl⟩
      simp
  | succ n ih =>
    cases rest with
    | nil =>
      simp only [splitInto, reduceCtorEq, false_iff, not_exists, not_and]
      intro new _ hn h
      have hnil : new = [] := (List.append_eq_nil_iff.mp h.symm).1
      simp [hnil] at hn
    | cons b rest =>
      rw [splitInto, ih]
      constructor
      · intro h
        rcases h with ⟨new, rfl, hn, rfl⟩
        exact ⟨b :: new, by simp, by simp [hn], rfl⟩
      · intro h
        rcases h with ⟨new, rfl, hn, h⟩
        cases new with
        | nil => simp at hn
        | cons b' new =>
          obtain ⟨rfl, rfl⟩ := by simpa using h
          exact ⟨new, by simp, by simpa using hn, rfl⟩

theorem bytes_eq_ok {n : Nat} {c c' : Cursor} {bs : List UInt8} :
    bytes n c = .ok (bs, c') ↔ bs.length = n ∧ c.Past bs c' := by
  obtain ⟨p, rest⟩ := c
  obtain ⟨p', rest'⟩ := c'
  simp only [bytes]
  constructor
  · intro h
    split at h
    · next taken rest'' hs =>
      cases h
      obtain ⟨new, rfl, hn, rfl⟩ := splitInto_eq_some.mp hs
      exact ⟨by simpa using hn, ⟨rfl, by simp [hn]⟩⟩
    · cases h
  · intro h
    rcases h with ⟨rfl, hr, hp⟩
    have hs : splitInto [] bs.length rest = some (bs, rest') :=
      splitInto_eq_some.mpr ⟨bs, rfl, rfl, hr⟩
    simp only at hp
    simp only [hs, hp]

theorem skip_eq_ok {n : Nat} {c c' : Cursor} {u : Unit} :
    skip n c = .ok (u, c') ↔ ∃ bs : List UInt8, bs.length = n ∧ c.Past bs c' := by
  simp only [skip, bind_eq_ok, bytes_eq_ok, pure_eq_ok]
  constructor
  · intro h
    rcases h with ⟨bs, d, ⟨hn, hd⟩, -, rfl⟩
    exact ⟨bs, hn, hd⟩
  · intro h
    rcases h with ⟨bs, hn, h⟩
    exact ⟨bs, c', ⟨hn, h⟩, trivial, rfl⟩

end Reader

/-! ### Counts -/

theorem Put.count_eq_ok {n : Nat} {what : String} {bs : List UInt8} :
    Put.count n what = .ok bs ↔ n < 65536 ∧ bs = Put.lowHalf n := by
  unfold Put.count Put.lowHalf
  split <;> simp [*, eq_comm]

def Counted {α : Type} (written : α → List UInt8 → Prop) (as : List α) (bs : List UInt8) : Prop :=
  as.length < 65536 ∧ ∃ cs, Each written as cs ∧ bs = Put.lowHalf as.length ++ cs

theorem Counted.and_fun_iff {α : Type} {p : α → Prop} {write : α → List UInt8}
    {as : List α} {bs : List UInt8} :
    Counted (fun a bs => p a ∧ bs = write a) as bs ↔
      as.length < 65536 ∧ (∀ a ∈ as, p a) ∧ bs = Put.lowHalf as.length ++ as.flatMap write := by
  simp only [Counted, Reader.Each.and_fun_iff]
  constructor
  · intro h
    rcases h with ⟨hlt, _, ⟨has, rfl⟩, rfl⟩
    exact ⟨hlt, has, rfl⟩
  · intro h
    rcases h with ⟨hlt, has, rfl⟩
    exact ⟨hlt, _, ⟨has, rfl⟩, rfl⟩

theorem Reader.Exact.counted {α : Type} {written : α → List UInt8 → Prop} {one : Reader α}
    (exact : Exact written one) : Exact (Counted written) (counted one) := by
  intro c as c'
  simp only [Reader.counted, bind_eq_ok, half_eq_ok, exact.repeated _ _ _ _]
  constructor
  · intro h
    rcases h with ⟨n, d, hd, cs, ⟨hn, hw⟩, hd'⟩
    have hlt := n.toNat_lt
    refine ⟨Put.half n ++ cs, ⟨by omega, cs, hw, ?_⟩, hd.trans hd'⟩
    rw [hn, Put.lowHalf, UInt16.ofNat_toNat]
  · intro h
    rcases h with ⟨bs, ⟨hlt, cs, hw, rfl⟩, h⟩
    obtain ⟨d, hd, hd'⟩ := Cursor.Past.append_iff.mp h
    exact ⟨_, d, hd, cs, ⟨(UInt16.toNat_ofNat_of_lt' hlt).symm, hw⟩, hd'⟩

end PluginGuard.ClassFile
