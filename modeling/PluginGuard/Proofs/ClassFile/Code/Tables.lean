import PluginGuard.Proofs.ClassFile.Code.Targets
import PluginGuard.Proofs.ClassFile.Fields

/-!
# Tables of a body

Handlers, line numbers, variable ranges and types hold places of the body. Over
offsets that climb and fit two bytes each of them has one spelling, the one
that is written, and reading is exact for it.
-/
namespace PluginGuard.ClassFile

open Reader

/-! ### Places -/

variable {l : BodyLayout} {n : Nat}

theorem toNat_ofNat_offset (climbs : Climbs l.offset n) (small : l.offset n ≤ 65535)
    {i : Nat} (hi : i ≤ n) : (UInt16.ofNat (l.offset i)).toNat = l.offset i := by
  have hle := climbs.le hi (Nat.le_refl n)
  exact UInt16.toNat_ofNat_of_lt' (show l.offset i < 65536 by omega)

theorem offset_eq_toNat_iff (climbs : Climbs l.offset n) (small : l.offset n ≤ 65535)
    {i : Nat} (hi : i ≤ n) {v : UInt16} :
    l.offset i = v.toNat ↔ v = UInt16.ofNat (l.offset i) := by
  constructor
  · intro h
    rw [h, UInt16.ofNat_toNat]
  · intro h
    rw [h, toNat_ofNat_offset climbs small hi]

theorem toNat_sub_offset (climbs : Climbs l.offset n) (small : l.offset n ≤ 65535)
    {i j : Nat} (hij : i ≤ j) (hj : j ≤ n) :
    (UInt16.ofNat (l.offset j) - UInt16.ofNat (l.offset i)).toNat = l.offset j - l.offset i := by
  have hle := climbs.le hij hj
  have hi := toNat_ofNat_offset climbs small (Nat.le_trans hij hj)
  have hj := toNat_ofNat_offset climbs small hj
  rw [UInt16.toNat_sub_of_le _ _ (UInt16.le_iff_toNat_le.mpr (by omega)), hi, hj]

def StartSpelled (l : BodyLayout) (n i : Nat) (bs : List UInt8) : Prop :=
  i < n ∧ bs = Put.lowHalf (l.offset i)

theorem exact_readStart (climbs : Climbs l.offset n) (small : l.offset n ≤ 65535) :
    Exact (StartSpelled l n) (Boundaries.along l.offset n).readStart := by
  intro c i c'
  simp only [Boundaries.readStart, bind_eq_ok, half_eq_ok, lift_eq_ok,
    Boundaries.startAt_eq_ok climbs, StartSpelled]
  constructor
  · intro h
    rcases h with ⟨v, d, hd, ⟨hi, hv⟩, rfl⟩
    rw [offset_eq_toNat_iff climbs small (Nat.le_of_lt hi)] at hv
    rw [hv] at hd
    exact ⟨_, ⟨hi, rfl⟩, hd⟩
  · intro h
    rcases h with ⟨_, ⟨hi, rfl⟩, hd⟩
    exact ⟨_, c', hd, ⟨hi, (offset_eq_toNat_iff climbs small (Nat.le_of_lt hi)).mpr rfl⟩, rfl⟩

/-! ### Entries -/

def Handler.Spelled (l : BodyLayout) (n : Nat) (h : Handler) (bs : List UInt8) : Prop :=
  h.Within n ∧ bs = h.write l

theorem Handler.exact_read (climbs : Climbs l.offset n) (small : l.offset n ≤ 65535) :
    Exact (Handler.Spelled l n) (read (Boundaries.along l.offset n)) := by
  have place {i : Nat} (hi : i ≤ n) {v : UInt16} := @offset_eq_toNat_iff l n climbs small i hi v
  intro c handler c'
  simp only [read, bind_eq_ok, exact_readStart climbs small _ _ _, half_eq_ok, lift_eq_ok,
    Boundaries.endAt_eq_ok climbs, pure_eq_ok, Spelled, Within, write, StartSpelled]
  constructor
  · intro h
    rcases h with ⟨start, c1, ⟨_, ⟨hstart, rfl⟩, h1⟩, v, c2, h2, stop, c3, ⟨⟨hstop, hv⟩, rfl⟩,
      entry, c4, ⟨_, ⟨hentry, rfl⟩, h4⟩, k, c5, h5, rfl, rfl⟩
    rw [place hstop] at hv
    rw [hv] at h2
    refine ⟨_, ⟨⟨hstart, hstop, hentry⟩, rfl⟩, ?_⟩
    exact ((h1.trans h2).trans h4).trans h5
  · intro h
    rcases h with ⟨_, ⟨⟨hstart, hstop, hentry⟩, rfl⟩, hp⟩
    obtain ⟨c4, hp, h5⟩ := Cursor.Past.append_iff.mp hp
    obtain ⟨c3, hp, h4⟩ := Cursor.Past.append_iff.mp hp
    obtain ⟨c2, h1, h2⟩ := Cursor.Past.append_iff.mp hp
    exact ⟨handler.start, c2, ⟨_, ⟨hstart, rfl⟩, h1⟩, _, c3, h2, handler.stop, c3,
      ⟨⟨hstop, (place hstop).mpr rfl⟩, rfl⟩, handler.entry, c4, ⟨_, ⟨hentry, rfl⟩, h4⟩,
      handler.catchType, c', h5, rfl, rfl⟩

def LineEntry.Spelled (l : BodyLayout) (n : Nat) (e : LineEntry) (bs : List UInt8) : Prop :=
  e.at_ < n ∧ bs = e.write l

theorem LineEntry.exact_read (climbs : Climbs l.offset n) (small : l.offset n ≤ 65535) :
    Exact (LineEntry.Spelled l n) (read (Boundaries.along l.offset n)) := by
  intro c e c'
  simp only [read, bind_eq_ok, exact_readStart climbs small _ _ _, half_eq_ok, pure_eq_ok,
    Spelled, write, StartSpelled]
  constructor
  · intro h
    rcases h with ⟨i, c1, ⟨_, ⟨hi, rfl⟩, h1⟩, line, c2, h2, rfl, rfl⟩
    exact ⟨_, ⟨hi, rfl⟩, h1.trans h2⟩
  · intro h
    rcases h with ⟨_, ⟨hi, rfl⟩, hp⟩
    obtain ⟨c1, h1, h2⟩ := Cursor.Past.append_iff.mp hp
    exact ⟨e.at_, c1, ⟨_, ⟨hi, rfl⟩, h1⟩, e.line, c', h2, rfl, rfl⟩

def LocalVariable.Spelled (l : BodyLayout) (n : Nat) (v : LocalVariable) (bs : List UInt8) :
    Prop :=
  v.Within n ∧ bs = v.write l

/-- A range is read as a start and a length, and both of its ends are places. -/
theorem LocalVariable.exact_read (climbs : Climbs l.offset n) (small : l.offset n ≤ 65535) :
    Exact (LocalVariable.Spelled l n) (read (Boundaries.along l.offset n)) := by
  intro c v c'
  simp only [read, bind_eq_ok, half_eq_ok, lift_eq_ok, Boundaries.endAt_eq_ok climbs, pure_eq_ok,
    Spelled, Within]
  constructor
  · intro h
    rcases h with ⟨pc, c1, h1, span, c2, h2, start, _, ⟨⟨hstart, hpc⟩, rfl⟩, stop, _, ⟨⟨hstop,
      hend⟩, rfl⟩, name, c3, h3, descriptor, c4, h4, slot, c5, h5, rfl, rfl⟩
    have hle : start ≤ stop := by
      by_cases hlt : stop < start
      · have := climbs.lt hlt hstart
        omega
      · exact Nat.le_of_not_lt hlt
    obtain rfl := (offset_eq_toNat_iff climbs small hstart).mp hpc
    obtain rfl : span = UInt16.ofNat (l.offset stop) - UInt16.ofNat (l.offset start) := by
      apply UInt16.toNat_inj.mp
      rw [toNat_sub_offset climbs small hle hstop]
      omega
    refine ⟨_, ⟨⟨hle, hstop⟩, rfl⟩, ?_⟩
    exact (((h1.trans h2).trans h3).trans h4).trans h5
  · intro h
    rcases h with ⟨_, ⟨⟨hle, hstop⟩, rfl⟩, hp⟩
    have hstart := Nat.le_trans hle hstop
    have hoffsets := climbs.le hle hstop
    obtain ⟨c4, hp, h5⟩ := Cursor.Past.append_iff.mp hp
    obtain ⟨c3, hp, h4⟩ := Cursor.Past.append_iff.mp hp
    obtain ⟨c2, hp, h3⟩ := Cursor.Past.append_iff.mp hp
    obtain ⟨c1, h1, h2⟩ := Cursor.Past.append_iff.mp hp
    refine ⟨_, c1, h1, _, c2, h2, v.start, c2, ⟨⟨hstart, ?_⟩, rfl⟩, v.stop, c2,
      ⟨⟨hstop, ?_⟩, rfl⟩, v.name, c3, h3, v.descriptor, c4, h4, v.slot, c', h5, rfl, rfl⟩
    · exact (offset_eq_toNat_iff climbs small hstart).mpr rfl
    · rw [toNat_sub_offset climbs small hle hstop,
        toNat_ofNat_offset climbs small hstart]
      omega

def Verification.Spelled (l : BodyLayout) (n : Nat) (t : Verification) (bs : List UInt8) : Prop :=
  t.Within n ∧ bs = t.write l

theorem Verification.exact_read (climbs : Climbs l.offset n) (small : l.offset n ≤ 65535) :
    Exact (Verification.Spelled l n) (read (Boundaries.along l.offset n)) := by
  intro c t c'
  simp only [read, bind_eq_ok, byte_eq_ok]
  constructor
  · intro h
    rcases h with ⟨tag, c1, h1, h⟩
    split at h
    case h_8 =>
      simp only [bind_eq_ok, half_eq_ok, pure_eq_ok] at h
      obtain ⟨k, c2, h2, rfl, rfl⟩ := h
      exact ⟨_, ⟨trivial, rfl⟩, Cursor.Past.cons_iff.mpr ⟨c1, h1, h2⟩⟩
    case h_9 =>
      simp only [bind_eq_ok, exact_readStart climbs small _ _ _, pure_eq_ok, StartSpelled] at h
      obtain ⟨i, c2, ⟨_, ⟨hi, rfl⟩, h2⟩, rfl, rfl⟩ := h
      exact ⟨_, ⟨hi, rfl⟩, Cursor.Past.cons_iff.mpr ⟨c1, h1, h2⟩⟩
    case h_10 => cases h
    all_goals
      obtain ⟨rfl, rfl⟩ := pure_eq_ok.mp h
      exact ⟨_, ⟨trivial, rfl⟩, h1⟩
  · intro h
    rcases h with ⟨_, ⟨hwithin, rfl⟩, hp⟩
    cases t with
    | object k =>
      obtain ⟨c1, h1, h2⟩ := Cursor.Past.cons_iff.mp hp
      refine ⟨7, c1, h1, ?_⟩
      simp only [bind_eq_ok, half_eq_ok, pure_eq_ok]
      exact ⟨k, c', h2, rfl, rfl⟩
    | uninitialized i =>
      obtain ⟨c1, h1, h2⟩ := Cursor.Past.cons_iff.mp hp
      refine ⟨8, c1, h1, ?_⟩
      simp only [bind_eq_ok, exact_readStart climbs small _ _ _, pure_eq_ok, StartSpelled]
      exact ⟨i, c', ⟨_, ⟨hwithin, rfl⟩, h2⟩, rfl, rfl⟩
    | _ => exact ⟨_, c', hp, rfl⟩

end PluginGuard.ClassFile
