import PluginGuard.ClassFile.Pool
import PluginGuard.Proofs.ClassFile.Fields

/-!
# Pools and their bytes

A pool that was read is sound: slot zero is empty, exactly one empty slot stands
behind each eight-byte constant, and every text is what its stored bytes decode
to. Reading gives exactly the sound pools, each from the bytes that writing it
gives.
-/
namespace PluginGuard.ClassFile

open Reader

def Constant.Decoded : Constant → Prop
  | .utf8 raw text => text = Text.ModifiedUtf8.decode raw
  | _ => True

theorem Constant.write_eq_ok {k : Constant} {bs : List UInt8} :
    k.write = .ok bs ↔ ∃ cs, k.body = .ok cs ∧ bs = k.tag :: cs := by
  simp only [Constant.write, Fallible.bind_eq_ok, Fallible.pure_eq_ok]

theorem Constant.body_utf8_eq_ok {raw cs : List UInt8} {text : String} :
    (Constant.utf8 raw text).body = .ok cs ↔
      raw.length < 65536 ∧ cs = Put.lowHalf raw.length ++ raw := by
  simp only [Constant.body, Fallible.bind_eq_ok, Fallible.pure_eq_ok, Put.count_eq_ok]
  constructor
  · intro h
    rcases h with ⟨_, ⟨hlt, rfl⟩, rfl⟩
    exact ⟨hlt, rfl⟩
  · intro h
    rcases h with ⟨hlt, rfl⟩
    exact ⟨_, ⟨hlt, rfl⟩, rfl⟩

theorem Constant.exact_read (slot : Nat) :
    Exact (fun k bs => k.Decoded ∧ k.write = .ok bs) (Constant.read slot) := by
  intro c k c'
  simp only [Constant.read, bind_eq_ok, byte_eq_ok]
  constructor
  · intro h
    rcases h with ⟨tag, d, hd, h⟩
    split at h
    all_goals
      simp only [bind_eq_ok, pure_eq_ok, byte_eq_ok, half_eq_ok, word_eq_ok, long_eq_ok,
        bytes_eq_ok, fail_eq_ok] at h
    case h_1 =>
      obtain ⟨n, e, he, raw, e', ⟨hn, he'⟩, rfl, rfl⟩ := h
      have hlt := n.toNat_lt
      refine ⟨_, ⟨rfl, write_eq_ok.mpr ⟨_, body_utf8_eq_ok.mpr ⟨by omega, rfl⟩, rfl⟩⟩, ?_⟩
      rw [hn, Put.lowHalf, UInt16.ofNat_toNat]
      exact hd.trans (he.trans he')
    case h_2 | h_3 | h_4 | h_5 | h_6 | h_7 | h_13 | h_16 | h_17 =>
      obtain ⟨v, e, he, rfl, rfl⟩ := h
      exact ⟨_, ⟨trivial, write_eq_ok.mpr ⟨_, rfl, rfl⟩⟩, hd.trans he⟩
    case h_8 | h_9 | h_10 | h_11 | h_12 | h_14 | h_15 =>
      obtain ⟨v, e, he, w, e', he', rfl, rfl⟩ := h
      exact ⟨_, ⟨trivial, write_eq_ok.mpr ⟨_, rfl, rfl⟩⟩, hd.trans (he.trans he')⟩
  · intro h
    rcases h with ⟨bs, ⟨hdec, hw⟩, hp⟩
    obtain ⟨cs, hb, rfl⟩ := write_eq_ok.mp hw
    obtain ⟨d, hd, hd'⟩ := Cursor.Past.cons_iff.mp hp
    refine ⟨k.tag, d, hd, ?_⟩
    cases k with
    | utf8 raw text =>
      obtain rfl : text = Text.ModifiedUtf8.decode raw := hdec
      obtain ⟨hlt, rfl⟩ := body_utf8_eq_ok.mp hb
      obtain ⟨e, he, he'⟩ := Cursor.Past.append_iff.mp hd'
      simp only [Constant.tag, bind_eq_ok, half_eq_ok, bytes_eq_ok, pure_eq_ok]
      exact ⟨_, e, he, raw, c', ⟨(UInt16.toNat_ofNat_of_lt' hlt).symm, he'⟩, rfl, rfl⟩
    | int v | float v =>
      cases hb
      simp only [Constant.tag, bind_eq_ok, word_eq_ok, pure_eq_ok]
      exact ⟨v, c', hd', rfl, rfl⟩
    | long v | double v =>
      cases hb
      simp only [Constant.tag, bind_eq_ok, long_eq_ok, pure_eq_ok]
      exact ⟨v, c', hd', rfl, rfl⟩
    | classRef v | string v | methodType v | moduleRef v | packageRef v =>
      cases hb
      simp only [Constant.tag, bind_eq_ok, half_eq_ok, pure_eq_ok]
      exact ⟨v, c', hd', rfl, rfl⟩
    | nameAndType v w | dynamic v w | invokeDynamic v w =>
      cases hb
      obtain ⟨e, he, he'⟩ := Cursor.Past.append_iff.mp hd'
      simp only [Constant.tag, bind_eq_ok, half_eq_ok, pure_eq_ok]
      exact ⟨v, e, he, w, c', he', rfl, rfl⟩
    | member kind v w =>
      cases hb
      obtain ⟨e, he, he'⟩ := Cursor.Past.append_iff.mp hd'
      cases kind <;>
        simp only [Constant.tag, MemberKind.tag, bind_eq_ok, half_eq_ok, pure_eq_ok] <;>
        exact ⟨v, e, he, w, c', he', rfl, rfl⟩
    | handle kind w =>
      cases hb
      obtain ⟨e, he, he'⟩ := Cursor.Past.cons_iff.mp hd'
      simp only [Constant.tag, bind_eq_ok, byte_eq_ok, half_eq_ok, pure_eq_ok]
      exact ⟨kind, e, he, w, c', he', rfl, rfl⟩

namespace Pool

/-- Slots filled constant by constant: none stays empty but those behind
eight-byte constants. -/
inductive Cells : List (Option Constant) → Prop
  | nil : Cells []
  | narrow {k : Constant} {rest : List (Option Constant)} :
    k.isWide = false → k.Decoded → Cells rest → Cells (some k :: rest)
  | wide {k : Constant} {rest : List (Option Constant)} :
    k.isWide = true → k.Decoded → Cells rest → Cells (some k :: none :: rest)

def Sound (p : Pool) : Prop := ∃ cells, p.slots.toList = none :: cells ∧ Cells cells

abbrev Bodies (cells : List (Option Constant)) (bs : List UInt8) : Prop :=
  Each (fun k bs => k.write = .ok bs) (cells.filterMap id) bs

theorem cells_of_readInto {n : Nat} {slots : Array (Option Constant)} {p : Pool}
    {c c' : Cursor} (h : readInto n slots c = .ok (p, c')) :
    ∃ cells bs, p.slots.toList = slots.toList ++ cells ∧ cells.length = n ∧ Cells cells ∧
      Bodies cells bs ∧ c.Past bs c' := by
  fun_induction readInto n slots c with
  | case1 slots c =>
    obtain ⟨rfl, rfl⟩ := by simpa using h
    exact ⟨[], [], by simp, rfl, .nil, .nil, .refl _⟩
  | case2 => cases h
  | case3 => cases h
  | case4 slots c k d hk hwide m ih =>
    obtain ⟨bs, ⟨hdec, hw⟩, hd⟩ := (Constant.exact_read _ _ _ _).mp hk
    obtain ⟨cells, cs, hp, hn, hc, hb, hd'⟩ := ih h
    exact ⟨some k :: none :: cells, bs ++ cs, by simp [hp], by simp [hn], .wide hwide hdec hc,
      .cons hw hb, hd.trans hd'⟩
  | case5 slots c n k d hk hnarrow ih =>
    obtain ⟨bs, ⟨hdec, hw⟩, hd⟩ := (Constant.exact_read _ _ _ _).mp hk
    obtain ⟨cells, cs, hp, hn, hc, hb, hd'⟩ := ih h
    exact ⟨some k :: cells, bs ++ cs, by simp [hp], by simp [hn],
      .narrow (by simpa using hnarrow) hdec hc, .cons hw hb, hd.trans hd'⟩

theorem readInto_of_cells {cells : List (Option Constant)} (filled : Cells cells)
    {slots : Array (Option Constant)} {bs : List UInt8} {c c' : Cursor}
    (hb : Bodies cells bs) (hp : c.Past bs c') :
    readInto cells.length slots c = .ok (⟨slots ++ cells.toArray⟩, c') := by
  -- By the slots, not by their number: a wide constant takes two of them in one step.
  induction filled generalizing slots bs c with
  | nil =>
    obtain rfl := Each.nil_iff.mp hb
    obtain rfl := Cursor.Past.nil_iff.mp hp
    simp [readInto]
  | @narrow k rest hnarrow hdec _ ih =>
    obtain ⟨cs, ds, hk, hrest, rfl⟩ := Each.cons_iff.mp hb
    obtain ⟨d, hd, hd'⟩ := Cursor.Past.append_iff.mp hp
    have hread := (Constant.exact_read slots.size c k d).mpr ⟨cs, ⟨hdec, hk⟩, hd⟩
    rw [List.length_cons, readInto, hread]
    simp [hnarrow, ih hrest hd']
  | @wide k rest hwide hdec _ ih =>
    obtain ⟨cs, ds, hk, hrest, rfl⟩ := Each.cons_iff.mp hb
    obtain ⟨d, hd, hd'⟩ := Cursor.Past.append_iff.mp hp
    have hread := (Constant.exact_read slots.size c k d).mpr ⟨cs, ⟨hdec, hk⟩, hd⟩
    rw [List.length_cons, List.length_cons, readInto, hread]
    simp [hwide, ih hrest hd']

theorem write_eq_ok {p : Pool} {bs : List UInt8} :
    p.write = .ok bs ↔ p.size < 65536 ∧
      ∃ cs, Bodies p.slots.toList cs ∧ bs = Put.lowHalf p.size ++ cs := by
  unfold write
  split
  · next hlt =>
    simp only [Fallible.bind_eq_ok, Fallible.pure_eq_ok, Bodies, Each.of_mapM]
    constructor
    · intro h
      rcases h with ⟨parts, hparts, rfl⟩
      exact ⟨hlt, _, ⟨parts, hparts, rfl⟩, rfl⟩
    · intro h
      rcases h with ⟨-, _, ⟨parts, hparts, rfl⟩, rfl⟩
      exact ⟨parts, hparts, rfl⟩
  · next hge => simp [hge, throw, throwThe, MonadExceptOf.throw]

theorem exact_read : Exact (fun p bs => p.Sound ∧ p.write = .ok bs) read := by
  intro c p c'
  simp only [read, bind_eq_ok, half_eq_ok, write_eq_ok]
  constructor
  · intro h
    rcases h with ⟨count, d, hd, h⟩
    split at h
    · cases h
    · next hcount =>
      obtain ⟨cells, cs, hp, hn, hc, hb, hd'⟩ := cells_of_readInto h
      have hlt := count.toNat_lt
      have hsize : p.size = count.toNat := by
        have := congrArg List.length hp
        simp at this
        simp only [size]
        omega
      refine ⟨_, ⟨⟨cells, by simpa using hp, hc⟩, by omega, cs, ?_, rfl⟩, ?_⟩
      · simpa [Bodies, hp] using hb
      · rw [hsize, Put.lowHalf, UInt16.ofNat_toNat]
        exact hd.trans hd'
  · intro h
    rcases h with ⟨bs, ⟨⟨cells, hp, hc⟩, hlt, cs, hb, rfl⟩, hpast⟩
    obtain ⟨d, hd, hd'⟩ := Cursor.Past.append_iff.mp hpast
    have hsize : p.size = cells.length + 1 := by
      simpa [size] using congrArg List.length hp
    have hcount : (UInt16.ofNat p.size).toNat = cells.length + 1 := by
      rw [UInt16.toNat_ofNat_of_lt' hlt, hsize]
    refine ⟨_, d, hd, ?_⟩
    have hb' : Bodies cells cs := by simpa [Bodies, hp] using hb
    rw [hcount, if_neg (by omega), Nat.add_sub_cancel, readInto_of_cells hc hb' hd']
    have hslots : p.slots = #[none] ++ cells.toArray := by
      apply Array.toList_inj.mp
      simpa using hp
    rw [← hslots]

end Pool

end PluginGuard.ClassFile
