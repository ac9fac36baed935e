import PluginGuard.Proofs.ClassFile.Code.Tables

/-!
# Stack frames

A frame gives its distance from the frame before it, in a short form up to 63
and in a long form always. Both forms are read, so a frame has two spellings;
the written one is never the longer. The distances fix the places of all frames
of a table, which lie behind one another.
-/
namespace PluginGuard.ClassFile

open Reader

variable {l : BodyLayout} {n : Nat}

/-! ### One frame -/

namespace FrameKind

def Spelled (l : BodyLayout) (n delta : Nat) (kind : FrameKind) (bs : List UInt8) : Prop :=
  match kind with
  | .same =>
    delta ≤ 63 ∧ bs = [UInt8.ofNat delta] ∨ delta < 65536 ∧ bs = [251] ++ Put.lowHalf delta
  | .sameWithStack t =>
    ∃ ts, t.Spelled l n ts ∧ (delta ≤ 63 ∧ bs = [UInt8.ofNat (64 + delta)] ++ ts ∨
      delta < 65536 ∧ bs = [247] ++ (Put.lowHalf delta ++ ts))
  | .chop count =>
    (1 ≤ count.toNat ∧ count.toNat ≤ 3) ∧ delta < 65536 ∧ bs = [251 - count] ++ Put.lowHalf delta
  | .append locals =>
    ∃ ts, (1 ≤ locals.length ∧ locals.length ≤ 3) ∧ Each (Verification.Spelled l n) locals ts ∧
      delta < 65536 ∧ bs = [UInt8.ofNat (251 + locals.length)] ++ (Put.lowHalf delta ++ ts)
  | .full locals stack =>
    ∃ ts us, Counted (Verification.Spelled l n) locals ts ∧
      Counted (Verification.Spelled l n) stack us ∧ delta < 65536 ∧
      bs = [255] ++ (Put.lowHalf delta ++ (ts ++ us))

theorem chop_tag (type : UInt8) : 251 - (251 - type) = type := by
  apply UInt8.toNat_inj.mp
  have := type.toNat_lt
  simp only [UInt8.toNat_sub, UInt8.reduceToNat]
  omega

theorem toNat_chop {type : UInt8} (h : type.toNat ≤ 251) :
    (251 - type).toNat = 251 - type.toNat := by
  rw [UInt8.toNat_sub_of_le _ _ (UInt8.le_iff_toNat_le.mpr h)]
  rfl

theorem spelled_of_read (climbs : Climbs l.offset n) (small : l.offset n ≤ 65535)
    {delta : Nat} {kind : FrameKind} {c c' : Cursor}
    (h : read (Boundaries.along l.offset n) c = .ok ((delta, kind), c')) :
    ∃ bs, kind.Spelled l n delta bs ∧ c.Past bs c' := by
  have types := Verification.exact_read climbs small
  simp only [read, bind_eq_ok, byte_eq_ok] at h
  obtain ⟨type, c1, h1, h⟩ := h
  have hlt := type.toNat_lt
  have htype : UInt8.ofNat type.toNat = type := UInt8.ofNat_toNat
  split at h
  · next hshort =>
    obtain ⟨heq, rfl⟩ := pure_eq_ok.mp h
    cases heq
    exact ⟨_, .inl ⟨hshort, rfl⟩, by rwa [htype]⟩
  split at h
  · next hshort =>
    simp only [bind_eq_ok, types _ _ _, pure_eq_ok] at h
    obtain ⟨t, c2, ⟨ts, ht, h2⟩, heq, rfl⟩ := h
    cases heq
    have htag : 64 + (type.toNat - 64) = type.toNat := by omega
    refine ⟨[type] ++ ts, ⟨ts, ht, .inl ⟨by omega, ?_⟩⟩, h1.trans h2⟩
    rw [htag, htype]
  split at h
  · cases h
  · simp only [bind_eq_ok, half_eq_ok_lowHalf] at h
    obtain ⟨v, c2, h2, h⟩ := h
    have hv := v.toNat_lt
    split at h
    · next htag =>
      simp only [bind_eq_ok, types _ _ _, pure_eq_ok] at h
      obtain ⟨t, c3, ⟨ts, ht, h3⟩, heq, rfl⟩ := h
      cases heq
      obtain rfl : type = 247 := UInt8.toNat_inj.mp htag
      exact ⟨_, ⟨ts, ht, .inr ⟨hv, rfl⟩⟩, h1.trans (h2.trans h3)⟩
    split at h
    · obtain ⟨heq, rfl⟩ := pure_eq_ok.mp h
      cases heq
      have hcount := @toNat_chop type (by omega)
      refine ⟨[type] ++ Put.lowHalf v.toNat, ⟨by omega, hv, ?_⟩, h1.trans h2⟩
      rw [chop_tag]
    split at h
    · next htag =>
      obtain ⟨heq, rfl⟩ := pure_eq_ok.mp h
      cases heq
      obtain rfl : type = 251 := UInt8.toNat_inj.mp htag
      exact ⟨_, .inr ⟨hv, rfl⟩, h1.trans h2⟩
    split at h
    · simp only [bind_eq_ok, types.repeated _ _ _ _, pure_eq_ok] at h
      obtain ⟨locals, c3, ⟨ts, ⟨hlength, hts⟩, h3⟩, heq, rfl⟩ := h
      cases heq
      have htag : 251 + locals.length = type.toNat := by omega
      refine ⟨[type] ++ (Put.lowHalf v.toNat ++ ts), ⟨ts, by omega, hts, hv, ?_⟩,
        h1.trans (h2.trans h3)⟩
      rw [htag, htype]
    · simp only [bind_eq_ok, types.counted _ _ _, pure_eq_ok] at h
      obtain ⟨locals, c3, ⟨ts, hts, h3⟩, stack, c4, ⟨us, hus, h4⟩, heq, rfl⟩ := h
      cases heq
      obtain rfl : type = 255 := UInt8.toNat_inj.mp (show type.toNat = 255 by omega)
      exact ⟨_, ⟨ts, us, hts, hus, hv, rfl⟩, h1.trans (h2.trans (h3.trans h4))⟩

theorem read_of_spelled (climbs : Climbs l.offset n) (small : l.offset n ≤ 65535)
    {delta : Nat} {kind : FrameKind} {c c' : Cursor} {bs : List UInt8}
    (h : kind.Spelled l n delta bs) (hp : c.Past bs c') :
    read (Boundaries.along l.offset n) c = .ok ((delta, kind), c') := by
  have types := Verification.exact_read climbs small
  have tag {k : Nat} (hk : k < 256) : (UInt8.ofNat k).toNat = k := UInt8.toNat_ofNat_of_lt' hk
  simp only [read, bind_eq_ok, byte_eq_ok]
  cases kind with
  | same =>
    obtain ⟨hshort, rfl⟩ | ⟨hlong, rfl⟩ := h
    · refine ⟨_, c', hp, ?_⟩
      rw [tag (by omega), if_pos hshort, pure_eq_ok]
      exact ⟨rfl, rfl⟩
    · obtain ⟨c1, h1, h2⟩ := Cursor.Past.append_iff.mp hp
      refine ⟨251, c1, h1, ?_⟩
      rw [if_neg (by decide), if_neg (by decide), if_neg (by decide), bind_eq_ok]
      refine ⟨_, c', half_eq_ok.mpr h2, ?_⟩
      rw [if_neg (by decide), if_neg (by decide), if_pos (by decide), pure_eq_ok,
        UInt16.toNat_ofNat_of_lt' hlong]
      exact ⟨rfl, rfl⟩
  | sameWithStack t =>
    obtain ⟨ts, ht, ⟨hshort, rfl⟩ | ⟨hlong, rfl⟩⟩ := h
    · obtain ⟨c1, h1, h2⟩ := Cursor.Past.append_iff.mp hp
      refine ⟨_, c1, h1, ?_⟩
      rw [tag (by omega), if_neg (by omega), if_pos (by omega), Nat.add_sub_cancel_left]
      simp only [bind_eq_ok, types _ _ _, pure_eq_ok]
      exact ⟨t, c', ⟨ts, ht, h2⟩, rfl, rfl⟩
    · obtain ⟨c1, h1, hp⟩ := Cursor.Past.append_iff.mp hp
      obtain ⟨c2, h2, h3⟩ := Cursor.Past.append_iff.mp hp
      refine ⟨247, c1, h1, ?_⟩
      rw [if_neg (by decide), if_neg (by decide), if_neg (by decide), bind_eq_ok]
      refine ⟨_, c2, half_eq_ok.mpr h2, ?_⟩
      rw [if_pos (by decide), UInt16.toNat_ofNat_of_lt' hlong]
      simp only [bind_eq_ok, types _ _ _, pure_eq_ok]
      exact ⟨t, c', ⟨ts, ht, h3⟩, rfl, rfl⟩
  | chop count =>
    obtain ⟨⟨hpos, hle⟩, hlong, rfl⟩ := h
    obtain ⟨c1, h1, h2⟩ := Cursor.Past.append_iff.mp hp
    have htag := @toNat_chop count (by omega)
    refine ⟨_, c1, h1, ?_⟩
    rw [htag, if_neg (by omega), if_neg (by omega), if_neg (by omega), bind_eq_ok]
    refine ⟨_, c', half_eq_ok.mpr h2, ?_⟩
    rw [if_neg (by omega), if_pos (by omega), pure_eq_ok, chop_tag,
      UInt16.toNat_ofNat_of_lt' hlong]
    exact ⟨rfl, rfl⟩
  | append locals =>
    obtain ⟨ts, ⟨hpos, hle⟩, hts, hlong, rfl⟩ := h
    obtain ⟨c1, h1, hp⟩ := Cursor.Past.append_iff.mp hp
    obtain ⟨c2, h2, h3⟩ := Cursor.Past.append_iff.mp hp
    refine ⟨_, c1, h1, ?_⟩
    rw [tag (by omega), if_neg (by omega), if_neg (by omega), if_neg (by omega), bind_eq_ok]
    refine ⟨_, c2, half_eq_ok.mpr h2, ?_⟩
    rw [if_neg (by omega), if_neg (by omega), if_neg (by omega), if_pos (by omega),
      UInt16.toNat_ofNat_of_lt' hlong, Nat.add_sub_cancel_left]
    simp only [bind_eq_ok, types.repeated _ _ _ _, pure_eq_ok]
    exact ⟨locals, c', ⟨ts, ⟨rfl, hts⟩, h3⟩, rfl, rfl⟩
  | full locals stack =>
    obtain ⟨ts, us, hts, hus, hlong, rfl⟩ := h
    obtain ⟨c1, h1, hp⟩ := Cursor.Past.append_iff.mp hp
    obtain ⟨c2, h2, hp⟩ := Cursor.Past.append_iff.mp hp
    obtain ⟨c3, h3, h4⟩ := Cursor.Past.append_iff.mp hp
    refine ⟨255, c1, h1, ?_⟩
    rw [if_neg (by decide), if_neg (by decide), if_neg (by decide), bind_eq_ok]
    refine ⟨_, c2, half_eq_ok.mpr h2, ?_⟩
    rw [if_neg (by decide), if_neg (by decide), if_neg (by decide), if_neg (by decide),
      UInt16.toNat_ofNat_of_lt' hlong]
    simp only [bind_eq_ok, types.counted _ _ _, pure_eq_ok]
    exact ⟨locals, c3, ⟨ts, hts, h3⟩, stack, c', ⟨us, hus, h4⟩, rfl, rfl⟩

theorem exact_read (climbs : Climbs l.offset n) (small : l.offset n ≤ 65535) :
    Exact (fun (x : Nat × FrameKind) bs => x.2.Spelled l n x.1 bs)
      (read (Boundaries.along l.offset n)) := by
  rintro c ⟨delta, kind⟩ c'
  constructor
  · exact spelled_of_read climbs small
  · intro h
    rcases h with ⟨bs, hbs, hp⟩
    exact read_of_spelled climbs small hbs hp

/-! ### The written form -/

theorem spelled_of_write {delta : Nat} {kind : FrameKind} {bs : List UInt8}
    (sized : kind.Sized) (types : ∀ t ∈ kind.types, t.Within n) (hdelta : delta < 65536)
    (h : kind.write l delta = .ok bs) : kind.Spelled l n delta bs := by
  cases kind with
  | same =>
    rw [write] at h
    split at h
    · next hshort =>
      cases h
      exact .inl ⟨hshort, rfl⟩
    · cases h
      exact .inr ⟨hdelta, rfl⟩
  | sameWithStack t =>
    have ht : t.Spelled l n (t.write l) := ⟨types t (List.mem_singleton_self t), rfl⟩
    rw [write] at h
    split at h
    · next hshort =>
      cases h
      exact ⟨_, ht, .inl ⟨hshort, rfl⟩⟩
    · cases h
      exact ⟨_, ht, .inr ⟨hdelta, rfl⟩⟩
  | chop count =>
    cases h
    exact ⟨sized, hdelta, rfl⟩
  | append locals =>
    cases h
    exact ⟨_, sized, Each.and_fun_iff.mpr ⟨types, rfl⟩, hdelta, rfl⟩
  | full locals stack =>
    simp only [write, Fallible.bind_eq_ok, Put.count_eq_ok, Fallible.pure_eq_ok] at h
    obtain ⟨_, ⟨hlocals, rfl⟩, _, ⟨hstack, rfl⟩, rfl⟩ := h
    obtain ⟨hls, hss⟩ := List.forall_mem_append.mp types
    refine ⟨_, _, Counted.and_fun_iff.mpr ⟨hlocals, hls, rfl⟩,
      Counted.and_fun_iff.mpr ⟨hstack, hss, rfl⟩, hdelta, ?_⟩
    simp [writeTypes]

theorem Spelled.write {delta : Nat} {kind : FrameKind} {bs : List UInt8}
    (h : kind.Spelled l n delta bs) :
    ∃ ws, kind.write l delta = .ok ws ∧ ws.length ≤ bs.length := by
  cases kind with
  | same =>
    rw [FrameKind.write]
    by_cases hshort : delta ≤ 63
    · rw [if_pos hshort]
      obtain ⟨-, rfl⟩ | ⟨-, rfl⟩ := h
      · exact ⟨_, rfl, by simp⟩
      · exact ⟨_, rfl, by simp⟩
    · rw [if_neg hshort]
      obtain ⟨hle, -⟩ | ⟨-, rfl⟩ := h
      · exact absurd hle hshort
      · exact ⟨_, rfl, by simp⟩
  | sameWithStack t =>
    rw [FrameKind.write]
    by_cases hshort : delta ≤ 63
    · rw [if_pos hshort]
      obtain ⟨ts, ⟨-, rfl⟩, ⟨-, rfl⟩ | ⟨-, rfl⟩⟩ := h
      · exact ⟨_, rfl, by simp⟩
      · exact ⟨_, rfl, by simp⟩
    · rw [if_neg hshort]
      obtain ⟨ts, ⟨-, rfl⟩, ⟨hle, -⟩ | ⟨-, rfl⟩⟩ := h
      · exact absurd hle hshort
      · exact ⟨_, rfl, by simp⟩
  | chop count =>
    obtain ⟨-, -, rfl⟩ := h
    exact ⟨_, rfl, Nat.le_refl _⟩
  | append locals =>
    obtain ⟨ts, -, hts, -, rfl⟩ := h
    obtain ⟨-, rfl⟩ := Each.and_fun_iff.mp hts
    exact ⟨_, rfl, Nat.le_refl _⟩
  | full locals stack =>
    obtain ⟨_, _, hlocals, hstack, -, rfl⟩ := h
    obtain ⟨hls, -, rfl⟩ := Counted.and_fun_iff.mp hlocals
    obtain ⟨hss, -, rfl⟩ := Counted.and_fun_iff.mp hstack
    simp only [FrameKind.write, Fallible.bind_eq_ok, Put.count_eq_ok, Fallible.pure_eq_ok]
    refine ⟨_, ⟨_, ⟨hls, rfl⟩, _, ⟨hss, rfl⟩, rfl⟩, ?_⟩
    simp [writeTypes]

theorem Spelled.delta_lt {delta : Nat} {kind : FrameKind} {bs : List UInt8}
    (h : kind.Spelled l n delta bs) : delta < 65536 := by
  cases kind with
  | same =>
    obtain ⟨hshort, -⟩ | ⟨hlong, -⟩ := h
    · omega
    · exact hlong
  | sameWithStack t =>
    obtain ⟨ts, -, ⟨hshort, -⟩ | ⟨hlong, -⟩⟩ := h
    · omega
    · exact hlong
  | chop count => exact h.2.1
  | append locals =>
    obtain ⟨_, _, _, hlong, _⟩ := h
    exact hlong
  | full locals stack =>
    obtain ⟨_, _, _, _, hlong, _⟩ := h
    exact hlong

theorem Spelled.sized {delta : Nat} {kind : FrameKind} {bs : List UInt8}
    (h : kind.Spelled l n delta bs) : kind.Sized := by
  cases kind with
  | chop count => exact h.1
  | append locals =>
    obtain ⟨_, hsize, _⟩ := h
    exact hsize
  | _ => trivial

theorem Spelled.types {delta : Nat} {kind : FrameKind} {bs : List UInt8}
    (h : kind.Spelled l n delta bs) : ∀ t ∈ kind.types, t.Within n := by
  cases kind with
  | same | chop count => exact List.forall_mem_nil _
  | sameWithStack t =>
    obtain ⟨ts, ⟨ht, -⟩, -⟩ := h
    simpa [FrameKind.types] using ht
  | append locals =>
    obtain ⟨_, -, hts, -⟩ := h
    exact (Each.and_fun_iff.mp hts).1
  | full locals stack =>
    obtain ⟨_, _, hlocals, hstack, -⟩ := h
    exact List.forall_mem_append.mpr
      ⟨(Counted.and_fun_iff.mp hlocals).2.1, (Counted.and_fun_iff.mp hstack).2.1⟩

end FrameKind

/-! ### Frames behind one another -/

theorem frameDelta_eq_ok {previous : Option Nat} {pc delta : Nat} :
    frameDelta previous pc = .ok delta ↔
      pc = match previous with
        | none => delta
        | some p => p + delta + 1 := by
  unfold frameDelta
  cases previous with
  | none => simp
  | some p =>
    simp only
    split
    · rw [Except.ok.injEq]
      omega
    · simp only [reduceCtorEq, false_iff]
      omega

namespace Frame

inductive Chain (l : BodyLayout) (one : Nat → Frame → List UInt8 → Prop) :
    Option Nat → List Frame → List UInt8 → Prop
  | nil (previous : Option Nat) : Chain l one previous [] []
  | cons {previous : Option Nat} {f : Frame} {fs : List Frame} {delta : Nat}
      {bs cs : List UInt8} :
    frameDelta previous (l.offset f.target) = .ok delta → one delta f bs →
      Chain l one (some (l.offset f.target)) fs cs → Chain l one previous (f :: fs) (bs ++ cs)

def Spelled (l : BodyLayout) (n delta : Nat) (f : Frame) (bs : List UInt8) : Prop :=
  f.target < n ∧ f.kind.Spelled l n delta bs

def Written (l : BodyLayout) (delta : Nat) (f : Frame) (bs : List UInt8) : Prop :=
  delta < 65536 ∧ f.kind.write l delta = .ok bs

theorem readInto_eq_ok (climbs : Climbs l.offset n) (small : l.offset n ≤ 65535)
    {k : Nat} {previous : Option Nat} {acc fs : List Frame} {c c' : Cursor} :
    readInto (Boundaries.along l.offset n) k previous acc c = .ok (fs, c') ↔
      ∃ new bs, fs = acc.reverse ++ new ∧ new.length = k ∧
        Chain l (Spelled l n) previous new bs ∧ c.Past bs c' := by
  -- Each frame is placed from the one before, so the induction is for any previous place.
  induction k generalizing previous acc c with
  | zero =>
    simp only [readInto, Except.ok.injEq, Prod.mk.injEq]
    constructor
    · intro h
      rcases h with ⟨rfl, rfl⟩
      exact ⟨[], [], (List.append_nil _).symm, rfl, .nil _, .refl _⟩
    · intro h
      rcases h with ⟨new, bs, rfl, hnew, hchain, hp⟩
      obtain rfl := List.length_eq_zero_iff.mp hnew
      cases hchain
      obtain rfl := Cursor.Past.nil_iff.mp hp
      exact ⟨(List.append_nil _).symm, rfl⟩
  | succ k ih =>
    constructor
    · intro h
      simp only [readInto] at h
      split at h
      · cases h
      · next delta kind d hkind =>
        split at h
        · cases h
        · next target htarget =>
          obtain ⟨bs, hbs, hd⟩ := (FrameKind.exact_read climbs small _ _ _).mp hkind
          obtain ⟨hlt, hoffset⟩ := (Boundaries.startAt_eq_ok climbs).mp htarget
          obtain ⟨new, cs, rfl, hnew, hchain, hp⟩ := ih.mp h
          rw [← hoffset] at hchain
          refine ⟨⟨target, kind⟩ :: new, bs ++ cs, by simp, by simp [hnew], ?_, hd.trans hp⟩
          exact .cons (frameDelta_eq_ok.mpr hoffset) ⟨hlt, hbs⟩ hchain
    · intro h
      rcases h with ⟨new, bs, rfl, hnew, hchain, hp⟩
      cases hchain with
      | nil => cases hnew
      | @cons _ f fs delta bs cs hdelta hone hchain =>
        obtain ⟨d, hd, hp⟩ := Cursor.Past.append_iff.mp hp
        have hplace := frameDelta_eq_ok.mp hdelta
        have htarget := (Boundaries.startAt_eq_ok climbs).mpr ⟨hone.1, hplace⟩
        have hkind := (FrameKind.exact_read climbs small c (delta, f.kind) d).mpr
          ⟨bs, hone.2, hd⟩
        rw [hplace] at hchain
        simp only [readInto, hkind]
        split
        · next e herror => cases herror.symm.trans htarget
        · next target hok =>
          cases hok.symm.trans htarget
          exact ih.mpr ⟨fs, cs, by simp, Nat.succ.inj hnew, hchain, hp⟩

def TableSpelled (l : BodyLayout) (n : Nat) (fs : List Frame) (bs : List UInt8) : Prop :=
  fs.length < 65536 ∧ ∃ cs, Chain l (Spelled l n) none fs cs ∧ bs = Put.lowHalf fs.length ++ cs

theorem exact_readAll (climbs : Climbs l.offset n) (small : l.offset n ≤ 65535) :
    Exact (TableSpelled l n) (readAll (Boundaries.along l.offset n)) := by
  intro c fs c'
  simp only [readAll, bind_eq_ok, half_eq_ok, readInto_eq_ok climbs small, TableSpelled]
  constructor
  · intro h
    rcases h with ⟨v, d, hd, _, cs, rfl, hlength, hchain, hp⟩
    have hlt := v.toNat_lt
    refine ⟨Put.half v ++ cs, ⟨hlength ▸ hlt, cs, hchain, ?_⟩, hd.trans hp⟩
    rw [hlength, Put.lowHalf, UInt16.ofNat_toNat]
  · intro h
    rcases h with ⟨_, ⟨hlt, cs, hchain, rfl⟩, hp⟩
    obtain ⟨d, hd, hp⟩ := Cursor.Past.append_iff.mp hp
    exact ⟨_, d, hd, fs, cs, rfl, (UInt16.toNat_ofNat_of_lt' hlt).symm, hchain, hp⟩

theorem writeInto_eq_ok {previous : Option Nat} {acc : List (List UInt8)} {fs : List Frame}
    {bs : List UInt8} :
    writeInto l previous acc fs = .ok bs ↔
      ∃ cs, Chain l (Written l) previous fs cs ∧ bs = acc.reverse.flatten ++ cs := by
  induction fs generalizing previous acc with
  | nil =>
    rw [writeInto, Except.ok.injEq]
    constructor
    · intro h
      subst h
      exact ⟨[], .nil _, (List.append_nil _).symm⟩
    · intro h
      rcases h with ⟨cs, hchain, rfl⟩
      cases hchain
      rw [List.append_nil]
  | cons f fs ih =>
    rw [writeInto]
    constructor
    · intro h
      split at h
      · cases h
      · next delta hdelta =>
        split at h
        · next hlt =>
          split at h
          · cases h
          · next ds hds =>
            obtain ⟨cs, hchain, rfl⟩ := ih.mp h
            exact ⟨ds ++ cs, .cons hdelta ⟨hlt, hds⟩ hchain, by simp⟩
        · cases h
    · intro h
      rcases h with ⟨_, hchain, rfl⟩
      cases hchain with
      | cons hdelta hone hchain =>
        simp only [hdelta, if_pos hone.1, hone.2]
        exact ih.mpr ⟨_, hchain, by simp⟩

/-! ### Between reading and writing -/

theorem Chain.mono {one other : Nat → Frame → List UInt8 → Prop} {previous : Option Nat}
    {fs : List Frame} {bs : List UInt8} (h : Chain l one previous fs bs)
    (step : ∀ f ∈ fs, ∀ delta bs, one delta f bs → other delta f bs) :
    Chain l other previous fs bs := by
  induction h with
  | nil previous => exact .nil previous
  | cons hdelta hone _ ih =>
    obtain ⟨hhead, htail⟩ := List.forall_mem_cons.mp step
    exact .cons hdelta (hhead _ _ hone) (ih htail)

theorem Written.spelled {delta : Nat} {f : Frame} {bs : List UInt8} (within : f.Within n)
    (h : f.Written l delta bs) : f.Spelled l n delta bs :=
  ⟨within.target, FrameKind.spelled_of_write within.sized within.types h.1 h.2⟩

theorem Chain.written {previous : Option Nat} {fs : List Frame} {bs : List UInt8}
    (h : Chain l (Spelled l n) previous fs bs) :
    ∃ ws, Chain l (Written l) previous fs ws ∧ ws.length ≤ bs.length := by
  induction h with
  | nil previous => exact ⟨[], .nil previous, Nat.le_refl _⟩
  | cons hdelta hone _ ih =>
    obtain ⟨vs, hvs, hle⟩ := hone.2.write
    obtain ⟨ws, hws, hle'⟩ := ih
    refine ⟨vs ++ ws, .cons hdelta ⟨hone.2.delta_lt, hvs⟩ hws, ?_⟩
    rw [List.length_append, List.length_append]
    omega

theorem Chain.within {previous : Option Nat} {fs : List Frame} {bs : List UInt8}
    (h : Chain l (Spelled l n) previous fs bs) : ∀ f ∈ fs, f.Within n := by
  induction h with
  | nil => exact List.forall_mem_nil _
  | cons _ hone _ ih =>
    exact List.forall_mem_cons.mpr ⟨⟨hone.1, hone.2.sized, hone.2.types⟩, ih⟩

theorem Chain.behind {one : Nat → Frame → List UInt8 → Prop} {p : Nat} {fs : List Frame}
    {bs : List UInt8} (h : Chain l one (some p) fs bs) : ∀ f ∈ fs, p < l.offset f.target := by
  generalize hprevious : some p = previous at h
  induction h generalizing p with
  | nil => exact List.forall_mem_nil _
  | cons hdelta _ _ ih =>
    subst hprevious
    have hplace := frameDelta_eq_ok.mp hdelta
    simp only at hplace
    refine List.forall_mem_cons.mpr ⟨by omega, fun f hf => ?_⟩
    have := ih rfl f hf
    omega

theorem Chain.ordered (climbs : Climbs l.offset n) {previous : Option Nat} {fs : List Frame}
    {bs : List UInt8} (h : Chain l (Spelled l n) previous fs bs) : Ordered fs := by
  induction h with
  | nil => exact .nil
  | @cons _ f _ _ _ _ _ hone hchain ih =>
    refine .cons (fun g hg => ?_) ih
    have hlt := hchain.behind g hg
    by_cases hle : g.target ≤ f.target
    · have := climbs.le hle (Nat.le_of_lt hone.1)
      omega
    · exact Nat.lt_of_not_le hle

end Frame

end PluginGuard.ClassFile
