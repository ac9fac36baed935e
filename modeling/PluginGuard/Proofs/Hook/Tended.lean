import PluginGuard.Proofs.ClassFile.Methods
import PluginGuard.Proofs.Hook.Course
import PluginGuard.Proofs.Hook.Entries

/-!
# Classes under injections of calls

What injections of calls keep of the class that was parsed, and what they do to
its bodies: the method that an injection finds gets the body that the insertion
leaves, as it is read again after it was written, and all other bodies stay. So
what is true of a body is still true of it if neither constants that are added
nor the long forms of instructions matter to it.
-/
namespace PluginGuard

open ClassFile

namespace Transformer

variable {k₀ k k' : ClassDef} {pool : Pool} {m : Nat} {code old : Code}

structure Tended (k₀ k : ClassDef) : Prop where
  whole : k.Whole
  names : k.NamesResolve
  reached : k.pool.size < 65536
  found : ∀ name descriptor, k.findMethod? name descriptor = k₀.findMethod? name descriptor
  bodies : ∀ m, (k.codeInfo? m).isSome = (k₀.codeInfo? m).isSome

theorem tended_of_parse {bytes : List UInt8} (hparse : ClassDef.parse bytes = .ok k)
    (names : k.NamesResolve) : Tended k k := by
  obtain ⟨sound, hwrite, hname⟩ := ClassDef.parse_eq_ok.mp hparse
  obtain ⟨_, _, _, _, _, hpool, -⟩ := ClassDef.write_eq_ok.mp hwrite
  exact ⟨⟨sound, hname⟩, names, (Pool.write_eq_ok.mp hpool).1, fun _ _ => rfl, fun _ => rfl⟩

namespace Tended

theorem parse_of_write (t : Tended k₀ k) {bytes : List UInt8} (hwrite : k.write = .ok bytes) :
    ClassDef.parse bytes = .ok k :=
  ClassDef.parse_eq_ok.mpr ⟨t.whole.sound, hwrite, t.whole.named⟩

theorem storable (t : Tended k₀ k) (hbody : k.body m = .ok (some code)) :
    code.Storable k.pool := by
  obtain ⟨info, -, hdecode⟩ := ClassDef.body_eq_some_iff.mp hbody
  exact .of_decode hdecode (t.names.bodies m code hbody)

theorem extend (t : Tended k₀ k) (hext : k.pool.Extends pool) (hpool : pool.size < 65536) :
    Tended k₀ { k with pool } where
  whole := t.whole.extend hext rfl
  names := t.names.extend hext
  reached := hpool
  found name descriptor :=
    (ClassDef.findMethod?_of_extends t.names hext name descriptor).trans (t.found name descriptor)
  bodies m := by rw [ClassDef.codeInfo?_of_extends t.names hext, t.bodies]

end Tended

/-! ### Properties of bodies -/

/-- What is said of instructions stays true in a pool that grew, and when the body is written and
read again. -/
structure Lasting (P : Pool → List Instruction → Prop) : Prop where
  extend : ∀ {pool pool' : Pool} {is : List Instruction}, pool.Extends pool' → P pool is →
    P pool' is
  written : ∀ {pool : Pool} {c : Code} {l : BodyLayout}, c.layout = .ok l →
    (∀ i ∈ c.instructions, i.Conforms) → P pool c.instructions → P pool (c.written l).instructions

/-- The body of the method has the property, and if it is short enough to be written it can be
read. -/
structure Bears (P : Pool → List Instruction → Prop) (m : Nat) (k : ClassDef) : Prop where
  holds : ∀ code, k.body m = .ok (some code) → P k.pool code.instructions
  readable : (∀ info, k.codeInfo? m = some info → info.length < 4294967296) →
    ∃ code, k.body m = .ok (some code)

variable {P : Pool → List Instruction → Prop}

theorem Bears.extend (lasting : Lasting P) (bears : Bears P m k) (names : k.NamesResolve)
    (hext : k.pool.Extends pool) : Bears P m { k with pool } where
  holds code hbody := lasting.extend hext
    (bears.holds code ((ClassDef.body_of_extends names hext m code).mp hbody))
  readable hshort := by
    rw [ClassDef.codeInfo?_of_extends names hext] at hshort
    exact (bears.readable hshort).imp fun code => (ClassDef.body_of_extends names hext m code).mpr

section SetBody

variable (hbody : k.body m = .ok (some old)) (storable : code.Storable k.pool)
  (hset : k.setBody m code = .ok k')
include hbody hset

theorem bodySet_of_setBody : ∃ info, code.encode = .ok info ∧ k.BodySet m info k' := by
  obtain ⟨_, hinfo, -⟩ := ClassDef.body_eq_some_iff.mp hbody
  exact ClassDef.setBody_eq_ok hinfo hset

theorem Bears.of_setBody_ne {j : Nat} (hj : j ≠ m) (bears : Bears P j k) : Bears P j k' := by
  obtain ⟨info, -, set⟩ := bodySet_of_setBody hbody hset
  refine ⟨fun read hread => ?_, fun hshort => ?_⟩
  · rw [set.pool]
    exact bears.holds read ((set.body hj).mp hread)
  · rw [set.others j hj] at hshort
    exact (bears.readable hshort).imp fun read => (set.body hj).mpr

include storable

theorem Bears.of_setBody (lasting : Lasting P) (holds : P k.pool code.instructions) :
    Bears P m k' := by
  obtain ⟨info, hencode, set⟩ := bodySet_of_setBody hbody hset
  refine ⟨fun read hread => ?_, fun hshort => ?_⟩
  · obtain ⟨l, hl, rfl⟩ := Code.written_of_decode storable.wellFormed storable.rawFits hencode
      (set.body_self.mp hread)
    rw [set.pool]
    exact lasting.written hl storable.wellFormed.conforms holds
  · obtain ⟨l, hread⟩ := Code.exists_decode storable.wellFormed hencode (hshort info set.own)
    exact ⟨_, set.body_self.mpr hread⟩

theorem Tended.setBody (t : Tended k₀ k) : Tended k₀ k' := by
  obtain ⟨info, hencode, set⟩ := bodySet_of_setBody hbody hset
  obtain ⟨_, hinfo, -⟩ := ClassDef.body_eq_some_iff.mp hbody
  have names (read : Code) (hread : Code.decode info k.pool = .ok read) :
      read.NamesResolve k.pool := by
    obtain ⟨l, -, rfl⟩ :=
      Code.written_of_decode storable.wellFormed storable.rawFits hencode hread
    exact storable.names
  refine ⟨ClassDef.whole_of_setBody t.whole hset, set.namesResolve t.names names, ?_, ?_, ?_⟩
  · rw [set.pool]
    exact t.reached
  · exact fun name descriptor => (set.found name descriptor).trans (t.found name descriptor)
  · exact fun j => (set.isSome_codeInfo? (by rw [hinfo]; rfl) j).trans (t.bodies j)

end SetBody

/-! ### One injection -/

/-- From `k` to `k'` a call was injected into the method: it has the body that the insertion left,
and the other methods have the bodies that they had. -/
structure Inserted (h : Hook) (position : Position) (m : Nat) (k k' : ClassDef) (code : Code)
    (outcome : Outcome) (w : Workpiece) : Prop where
  body : k.body m = .ok (some code)
  storable : code.Storable k.pool
  run : (h.insertCall position).run.run ⟨code, k.pool⟩ = (.ok outcome, w)
  pool : k'.pool = w.pool
  own : ∀ {P : Pool → List Instruction → Prop}, Lasting P → P w.pool w.code.instructions →
    Bears P m k'
  others : ∀ {P : Pool → List Instruction → Prop} {j : Nat}, Lasting P → j ≠ m → Bears P j k →
    Bears P j k'

theorem Inserted.keeps {h : Hook} {position : Position} {outcome : Outcome} {w : Workpiece}
    (inserted : Inserted h position m k k' code outcome w) (lasting : Lasting P)
    (hkeep : P k.pool code.instructions → P w.pool w.code.instructions) {j : Nat}
    (bears : Bears P j k) : Bears P j k' := by
  by_cases hj : j = m
  · subst hj
    exact inserted.own lasting (hkeep (bears.holds code inserted.body))
  · exact inserted.others lasting hj bears

variable {i : Injection} {h : Hook} {position : Position}

theorem tended_of_appliedTo (hedit : i.edit = .call h position) (t : Tended k₀ k)
    {r : Option ClassDef × Pool} (happlied : i.AppliedTo k r) :
    let k' := r.1.getD { k with pool := r.2 }
    Tended k₀ k' ∧ k.pool.Extends k'.pool ∧
      ((k' = k ∧ ∀ m, k₀.findMethod? i.target.name i.target.descriptor = some m →
        k₀.codeInfo? m = none) ∨
      ∃ m code outcome w, k₀.findMethod? i.target.name i.target.descriptor = some m ∧
        Inserted h position m k k' code outcome w) := by
  cases happlied with
  | absent hfound =>
    refine ⟨t, .refl _, .inl ⟨rfl, fun m hm => ?_⟩⟩
    rw [← t.found, hfound] at hm
    cases hm
  | bodiless hfound hbody =>
    refine ⟨t, .refl _, .inl ⟨rfl, fun m hm => ?_⟩⟩
    rw [← t.found, hfound] at hm
    cases hm
    rw [← Option.isNone_iff_eq_none, ← Option.not_isSome, ← t.bodies,
      ClassDef.body_eq_none_iff.mp hbody]
    rfl
  | @unchanged m code outcome w hfound hbody happly hunchanged =>
    have storable := t.storable hbody
    obtain ⟨⟨n, rfl⟩, -⟩ | ⟨-, hsame⟩ := Injection.reports_of_apply happly
    · exact absurd rfl (hunchanged n)
    rw [Injection.apply, hedit] at happly
    obtain ⟨hext, hreached⟩ := Hook.extends_of_insertCall storable t.reached happly
    have hbody' := (ClassDef.body_of_extends t.names hext m code).mpr hbody
    -- The body that is there is the one that the insertion left, read with more constants.
    refine ⟨t.extend hext hreached, hext, .inr ⟨m, code, outcome, w, (t.found _ _).symm.trans hfound,
      hbody, storable, happly, rfl, fun _ holds => ?_, fun lasting _ bears =>
        bears.extend lasting t.names hext⟩⟩
    rw [hsame] at holds
    refine ⟨fun read hread => ?_, fun _ => ⟨code, hbody'⟩⟩
    cases hbody'.symm.trans hread
    exact holds
  | @changed m n code w k' hfound hbody happly hset =>
    have storable := t.storable hbody
    rw [Injection.apply, hedit] at happly
    obtain ⟨hext, hreached⟩ := Hook.extends_of_insertCall storable t.reached happly
    have storable' := Hook.storable_of_insertCall storable t.reached happly
    have hbody' := (ClassDef.body_of_extends t.names hext m code).mpr hbody
    have hpool : k'.pool = w.pool := by
      obtain ⟨_, -, set⟩ := bodySet_of_setBody hbody' hset
      exact set.pool
    refine ⟨(t.extend hext hreached).setBody hbody' storable' hset, ?_,
      .inr ⟨m, code, .changed n, w, (t.found _ _).symm.trans hfound, hbody, storable, happly, hpool,
        fun lasting holds => .of_setBody hbody' storable' hset lasting holds,
        fun lasting hj bears => .of_setBody_ne hbody' hset hj (bears.extend lasting t.names hext)⟩⟩
    exact hpool.symm ▸ hext

end Transformer

end PluginGuard
