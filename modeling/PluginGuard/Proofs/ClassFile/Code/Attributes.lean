import PluginGuard.Proofs.ClassFile.Code.Frames

/-!
# Attributes of a body

The name of an attribute says how its contents are read. Bytes behind the last
entry of a table are skipped, so contents have more than one spelling; what is
written again for them is never longer.
-/
namespace PluginGuard.ClassFile

open Reader

namespace CodeAttribute

variable {l : BodyLayout} {n : Nat}

/-! ### Contents -/

def Contents (l : BodyLayout) (n : Nat) (a : CodeAttribute) (info : List UInt8) : Prop :=
  match a with
  | .lines _ es => ∃ bs rest, Counted (LineEntry.Spelled l n) es bs ∧ info = bs ++ rest
  | .locals _ vs => ∃ bs rest, Counted (LocalVariable.Spelled l n) vs bs ∧ info = bs ++ rest
  | .stackMap _ fs => ∃ bs rest, Frame.TableSpelled l n fs bs ∧ info = bs ++ rest
  | .raw _ kept => info = kept

theorem resolved_eq_iff {pool : Pool} {name : UInt16} {known : String} (hne : known ≠ "") :
    (pool.utf8 name).toOption.getD "" = known ↔ pool.utf8 name = .ok known := by
  cases pool.utf8 name with
  | error e => simp [Except.toOption, hne.symm]
  | ok text => simp [Except.toOption]

theorem ofInfo_eq_ok (climbs : Climbs l.offset n) (small : l.offset n ≤ 65535) {pool : Pool}
    {name : UInt16} {info : List UInt8} {a : CodeAttribute} :
    ofInfo pool (Boundaries.along l.offset n) name info = .ok a ↔
      a.name = name ∧ a.Named pool ∧ a.Contents l n info := by
  have lineTable := (LineEntry.exact_read climbs small).counted
  have localTable := (LocalVariable.exact_read climbs small).counted
  have frameTable := Frame.exact_readAll climbs small
  constructor
  · intro h
    unfold ofInfo at h
    split at h
    · next hname =>
      simp only [Fallible.bind_eq_ok, lineTable.runOn_eq_ok, Fallible.pure_eq_ok] at h
      obtain ⟨es, hes, rfl⟩ := h
      exact ⟨rfl, (resolved_eq_iff (by decide)).mp hname, hes⟩
    · next hname =>
      simp only [Fallible.bind_eq_ok, localTable.runOn_eq_ok, Fallible.pure_eq_ok] at h
      obtain ⟨vs, hvs, rfl⟩ := h
      exact ⟨rfl, .inl ((resolved_eq_iff (by decide)).mp hname), hvs⟩
    · next hname =>
      simp only [Fallible.bind_eq_ok, localTable.runOn_eq_ok, Fallible.pure_eq_ok] at h
      obtain ⟨vs, hvs, rfl⟩ := h
      exact ⟨rfl, .inr ((resolved_eq_iff (by decide)).mp hname), hvs⟩
    · next hname =>
      simp only [Fallible.bind_eq_ok, frameTable.runOn_eq_ok, Fallible.pure_eq_ok] at h
      obtain ⟨fs, hfs, rfl⟩ := h
      exact ⟨rfl, (resolved_eq_iff (by decide)).mp hname, hfs⟩
    · next hlines hlocals htypes hframes =>
      obtain rfl := Fallible.pure_eq_ok.mp h
      refine ⟨rfl, ?_, rfl⟩
      intro known hknown hname
      rw [hname] at hlines hlocals htypes hframes
      simp only [knownNames, List.mem_cons, List.not_mem_nil, or_false] at hknown
      rcases hknown with rfl | rfl | rfl | rfl
      · exact hlines rfl
      · exact hlocals rfl
      · exact htypes rfl
      · exact hframes rfl
  · intro h
    rcases h with ⟨rfl, hnamed, hcontents⟩
    have resolved {known : String} (h : pool.utf8 a.name = .ok known) :
        (pool.utf8 a.name).toOption.getD "" = known := by rw [h]; rfl
    cases a with
    | lines name es =>
      simp only [ofInfo, resolved hnamed, Fallible.bind_eq_ok, lineTable.runOn_eq_ok,
        Fallible.pure_eq_ok]
      exact ⟨es, hcontents, rfl⟩
    | locals name vs =>
      obtain hname | hname := hnamed
      · simp only [ofInfo, resolved hname, Fallible.bind_eq_ok, localTable.runOn_eq_ok,
          Fallible.pure_eq_ok]
        exact ⟨vs, hcontents, rfl⟩
      · simp only [ofInfo, resolved hname, Fallible.bind_eq_ok, localTable.runOn_eq_ok,
          Fallible.pure_eq_ok]
        exact ⟨vs, hcontents, rfl⟩
    | stackMap name fs =>
      simp only [ofInfo, resolved hnamed, Fallible.bind_eq_ok, frameTable.runOn_eq_ok,
        Fallible.pure_eq_ok]
      exact ⟨fs, hcontents, rfl⟩
    | raw name kept =>
      obtain rfl : info = kept := hcontents
      have other {known : String} (hmem : known ∈ knownNames) (hne : known ≠ "") :
          (pool.utf8 name).toOption.getD "" ≠ known :=
        fun h => hnamed known hmem ((resolved_eq_iff hne).mp h)
      unfold ofInfo
      split
      · next h => exact absurd h (other (by decide) (by decide))
      · next h => exact absurd h (other (by decide) (by decide))
      · next h => exact absurd h (other (by decide) (by decide))
      · next h => exact absurd h (other (by decide) (by decide))
      · rfl

/-! ### Contents and what is written -/

theorem contents_of_info {a : CodeAttribute} {info : List UInt8} (within : a.Within n)
    (h : a.info l = .ok info) : a.Contents l n info := by
  cases a with
  | lines name es =>
    simp only [CodeAttribute.info, Fallible.bind_eq_ok, Put.count_eq_ok, Fallible.pure_eq_ok] at h
    obtain ⟨_, ⟨hlt, rfl⟩, rfl⟩ := h
    exact ⟨_, [], Counted.and_fun_iff.mpr ⟨hlt, within, rfl⟩, (List.append_nil _).symm⟩
  | locals name vs =>
    simp only [CodeAttribute.info, Fallible.bind_eq_ok, Put.count_eq_ok, Fallible.pure_eq_ok] at h
    obtain ⟨_, ⟨hlt, rfl⟩, rfl⟩ := h
    exact ⟨_, [], Counted.and_fun_iff.mpr ⟨hlt, within, rfl⟩, (List.append_nil _).symm⟩
  | stackMap name fs =>
    simp only [CodeAttribute.info, Fallible.bind_eq_ok, Put.count_eq_ok, Frame.writeInto_eq_ok,
      Fallible.pure_eq_ok] at h
    obtain ⟨_, ⟨hlt, rfl⟩, _, ⟨_, hchain, rfl⟩, rfl⟩ := h
    have hspelled := hchain.mono fun f hf _ _ => Frame.Written.spelled (within.1 f hf)
    exact ⟨_, [], ⟨hlt, _, hspelled, rfl⟩, (List.append_nil _).symm⟩
  | raw name kept =>
    cases h
    rfl

theorem Contents.info {a : CodeAttribute} {info : List UInt8} (h : a.Contents l n info) :
    ∃ ws, a.info l = .ok ws ∧ ws.length ≤ info.length := by
  cases a with
  | lines name es =>
    obtain ⟨bs, rest, hbs, rfl⟩ := h
    obtain ⟨hlt, -, rfl⟩ := Counted.and_fun_iff.mp hbs
    simp only [CodeAttribute.info, Fallible.bind_eq_ok, Put.count_eq_ok, Fallible.pure_eq_ok]
    refine ⟨_, ⟨_, ⟨hlt, rfl⟩, rfl⟩, ?_⟩
    rw [@List.length_append _ _ rest]
    exact Nat.le_add_right _ _
  | locals name vs =>
    obtain ⟨bs, rest, hbs, rfl⟩ := h
    obtain ⟨hlt, -, rfl⟩ := Counted.and_fun_iff.mp hbs
    simp only [CodeAttribute.info, Fallible.bind_eq_ok, Put.count_eq_ok, Fallible.pure_eq_ok]
    refine ⟨_, ⟨_, ⟨hlt, rfl⟩, rfl⟩, ?_⟩
    rw [@List.length_append _ _ rest]
    exact Nat.le_add_right _ _
  | stackMap name fs =>
    obtain ⟨_, rest, ⟨hlt, cs, hchain, rfl⟩, rfl⟩ := h
    obtain ⟨ws, hws, hle⟩ := hchain.written
    simp only [CodeAttribute.info, Fallible.bind_eq_ok, Put.count_eq_ok, Frame.writeInto_eq_ok,
      Fallible.pure_eq_ok]
    refine ⟨_, ⟨_, ⟨hlt, rfl⟩, _, ⟨ws, hws, rfl⟩, rfl⟩, ?_⟩
    simp only [List.length_append, List.reverse_nil, List.flatten_nil, List.nil_append]
    omega
  | raw name kept =>
    obtain rfl : info = kept := h
    exact ⟨info, rfl, Nat.le_refl _⟩

theorem Contents.within (climbs : Climbs l.offset n) {a : CodeAttribute} {info : List UInt8}
    (h : a.Contents l n info) : a.Within n := by
  cases a with
  | lines name es =>
    obtain ⟨bs, rest, hbs, -⟩ := h
    exact (Counted.and_fun_iff.mp hbs).2.1
  | locals name vs =>
    obtain ⟨bs, rest, hbs, -⟩ := h
    exact (Counted.and_fun_iff.mp hbs).2.1
  | stackMap name fs =>
    obtain ⟨_, rest, ⟨-, cs, hchain, -⟩, -⟩ := h
    exact ⟨hchain.within, hchain.ordered climbs⟩
  | raw name kept => trivial

/-! ### A whole attribute -/

def Spelled (pool : Pool) (l : BodyLayout) (n : Nat) (a : CodeAttribute) (bs : List UInt8) :
    Prop :=
  a.Named pool ∧ ∃ info, info.length < 4294967296 ∧ a.Contents l n info ∧
    bs = Put.half a.name ++ (Put.word (UInt32.ofNat info.length) ++ info)

theorem exact_read (climbs : Climbs l.offset n) (small : l.offset n ≤ 65535) (pool : Pool) :
    Exact (Spelled pool l n) (read pool (Boundaries.along l.offset n)) := by
  intro c a c'
  simp only [read, bind_eq_ok, half_eq_ok, word_eq_ok, bytes_eq_ok, lift_eq_ok,
    ofInfo_eq_ok climbs small, Spelled]
  constructor
  · intro h
    rcases h with ⟨name, c1, h1, v, c2, h2, info, c3, ⟨hlength, h3⟩, ⟨rfl, hnamed, hcontents⟩, rfl⟩
    have hv := v.toNat_lt
    refine ⟨_, ⟨hnamed, info, by omega, hcontents, rfl⟩, ?_⟩
    rw [hlength, UInt32.ofNat_toNat]
    exact h1.trans (h2.trans h3)
  · intro h
    rcases h with ⟨_, ⟨hnamed, info, hlt, hcontents, rfl⟩, hp⟩
    obtain ⟨c1, h1, hp⟩ := Cursor.Past.append_iff.mp hp
    obtain ⟨c2, h2, h3⟩ := Cursor.Past.append_iff.mp hp
    exact ⟨_, c1, h1, _, c2, h2, info, c', ⟨(UInt32.toNat_ofNat_of_lt' hlt).symm, h3⟩,
      ⟨rfl, hnamed, hcontents⟩, rfl⟩

end CodeAttribute

end PluginGuard.ClassFile
