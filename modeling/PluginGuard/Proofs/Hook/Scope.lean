import PluginGuard.Proofs.ClassFile.Methods
import PluginGuard.Proofs.Hook.Course

/-!
# What instrumenting leaves alone

A class that was instrumented has more constants in its pool and other bodies for
the methods that its injections found, and is the same class otherwise. A body
goes into the first attribute that is named `Code` when it is set. If names in
front of it did not resolve when the class was parsed, constants of hooks may
have given them a meaning by then.
-/
namespace PluginGuard

open ClassFile

/-! ### Methods -/

namespace ClassFile.Member

variable {p p' p'' : Pool} {d d' d'' : Member} {index place : Nat}

theorem exists_of_codeIndex? (h : ClassDef.codeIndex? p d = some index) :
    ∃ a : Attribute, d.attributes[index]? = some a ∧ p.utf8 a.name = .ok "Code" := by
  obtain ⟨hlt, hcode, -⟩ := List.findIdx?_eq_some_iff_getElem.mp h
  exact ⟨_, List.getElem?_eq_getElem hlt, Fault.toOption_eq_some_iff.mp (beq_iff_eq.mp hcode)⟩

theorem exists_codeIndex?_le {a : Attribute} (ha : d.attributes[place]? = some a)
    (hcode : p.utf8 a.name = .ok "Code") :
    ∃ index ≤ place, ClassDef.codeIndex? p d = some index := by
  obtain ⟨hlt, rfl⟩ := List.getElem?_eq_some_iff.mp ha
  have hcode := beq_iff_eq.mpr (Fault.toOption_eq_some_iff.mpr hcode)
  cases hindex : ClassDef.codeIndex? p d with
  | none =>
    have hnone := List.findIdx?_eq_none_iff.mp hindex _ (List.getElem_mem hlt)
    exact absurd hcode (Bool.eq_false_iff.mp hnone)
  | some index =>
    obtain ⟨_, -, hbefore⟩ := List.findIdx?_eq_some_iff_getElem.mp hindex
    exact ⟨index, Nat.le_of_not_lt fun hlt => hbefore place hlt hcode, rfl⟩

theorem exists_codeIndex?_of_extends (hext : p.Extends p')
    (h : ClassDef.codeIndex? p d = some index) :
    ∃ index' ≤ index, ClassDef.codeIndex? p' d = some index' := by
  obtain ⟨a, ha, hcode⟩ := exists_of_codeIndex? h
  exact exists_codeIndex?_le ha (hext.utf8 hcode)

/-- What setting bodies makes of a method in a pool that grows: attributes keep their names, and
other contents are only in those that are named `Code` in the end, none of them behind the one
that was the first before. -/
structure Recoded (p p' : Pool) (d d' : Member) : Prop where
  frame : d' = { d with attributes := d'.attributes }
  names : d'.attributes.map (·.name) = d.attributes.map (·.name)
  named : ∀ place : Nat, d'.attributes[place]? ≠ d.attributes[place]? →
    ∃ a : Attribute, d.attributes[place]? = some a ∧ p'.utf8 a.name = .ok "Code"
  first : ∀ place : Nat, d'.attributes[place]? ≠ d.attributes[place]? →
    ∀ index, ClassDef.codeIndex? p d = some index → place ≤ index

namespace Recoded

theorem refl (p p' : Pool) (d : Member) : Recoded p p' d d :=
  ⟨rfl, rfl, fun _ h => absurd rfl h, fun _ h => absurd rfl h⟩

theorem trans (h : Recoded p p' d d') (h' : Recoded p' p'' d' d'') (hext : p.Extends p')
    (hext' : p'.Extends p'') : Recoded p p'' d d'' where
  frame := by rw [h'.frame, h.frame]
  names := h'.names.trans h.names
  named place hne := by
    by_cases hsame : d'.attributes[place]? = d.attributes[place]?
    · rw [← hsame] at hne ⊢
      exact h'.named place hne
    · obtain ⟨a, ha, hcode⟩ := h.named place hsame
      exact ⟨a, ha, hext'.utf8 hcode⟩
  first place hne index hindex := by
    by_cases hsame : d'.attributes[place]? = d.attributes[place]?
    · rw [← hsame] at hne
      obtain ⟨index', hle, hindex'⟩ := exists_codeIndex?_of_extends hext hindex
      rw [← ClassDef.codeIndex?_of_names h.names] at hindex'
      exact Nat.le_trans (h'.first place hne index' hindex') hle
    · exact h.first place hsame index hindex

end Recoded

def NamedToCode (p : Pool) (d : Member) : Prop :=
  ∀ (place : Nat) a, d.attributes[place]? = some a →
    (∀ index, ClassDef.codeIndex? p d = some index → place < index) →
    ∃ text, p.utf8 a.name = .ok text

theorem Recoded.codeIndex?_eq (h : Recoded p p' d d') (hext : p.Extends p')
    (named : d.NamedToCode p) (hne : d'.attributes[place]? ≠ d.attributes[place]?) :
    ClassDef.codeIndex? p d = some place := by
  obtain ⟨a, ha, hcode⟩ := h.named place hne
  refine Decidable.byContradiction fun hother => ?_
  obtain ⟨text, htext⟩ := named place a ha fun index hindex =>
    Nat.lt_of_le_of_ne (h.first place hne index hindex) fun heq => hother (heq ▸ hindex)
  -- The name is the one that it has in the end, so the attribute was named `Code` before.
  cases (hext.utf8 htext).symm.trans hcode
  obtain ⟨index, hle, hindex⟩ := exists_codeIndex?_le ha htext
  exact hother (Nat.le_antisymm (h.first place hne index hindex) hle ▸ hindex)

end ClassFile.Member

/-! ### Classes -/

namespace ClassFile.ClassDef

variable {k k' k'' : ClassDef} {touched : Nat → Prop}

/-- The class with more constants, and with other bodies for methods that are touched. -/
structure Reworked (touched : Nat → Prop) (k k' : ClassDef) : Prop where
  pool : k.pool.Extends k'.pool
  frame : k' = { k with pool := k'.pool, methods := k'.methods }
  length : k'.methods.length = k.methods.length
  methods : ∀ m d d', k.methods[m]? = some d → k'.methods[m]? = some d' →
    d' = d ∨ touched m ∧ d.Recoded k.pool k'.pool d'

namespace Reworked

theorem of_extends {pool : Pool} (hext : k.pool.Extends pool) :
    Reworked touched k { k with pool } where
  pool := hext
  frame := rfl
  length := rfl
  methods _ _ _ hd hd' := .inl (Option.some.inj (hd'.symm.trans hd))

theorem trans {touched' : Nat → Prop} (h : Reworked touched k k') (h' : Reworked touched' k' k'') :
    Reworked (fun m => touched m ∨ touched' m) k k'' where
  pool := h.pool.trans h'.pool
  frame := by rw [h'.frame, h.frame]
  length := h'.length.trans h.length
  methods m d d'' hd hd'' := by
    obtain ⟨d', hd'⟩ : ∃ d', k'.methods[m]? = some d' := by
      have hlt := (List.getElem?_eq_some_iff.mp hd).1
      exact ⟨_, List.getElem?_eq_getElem (h.length ▸ hlt)⟩
    obtain rfl | ⟨hm, hrecoded⟩ := h.methods m d d' hd hd'
    · obtain rfl | ⟨hm, hrecoded⟩ := h'.methods m d' d'' hd' hd''
      · exact .inl rfl
      · exact .inr ⟨.inr hm, .trans (.refl _ _ _) hrecoded h.pool h'.pool⟩
    · obtain rfl | ⟨-, hrecoded'⟩ := h'.methods m d' d'' hd' hd''
      · exact .inr ⟨.inl hm, hrecoded.trans (.refl _ _ _) h.pool h'.pool⟩
      · exact .inr ⟨.inl hm, hrecoded.trans hrecoded' h.pool h'.pool⟩

theorem mono {touched' : Nat → Prop} (h : Reworked touched k k')
    (himp : ∀ m, touched m → touched' m) : Reworked touched' k k' :=
  { h with methods := fun m d d' hd hd' => (h.methods m d d' hd hd').imp_right fun ⟨hm, hr⟩ =>
      ⟨himp m hm, hr⟩ }

end Reworked

theorem recoded_setInfo {pool : Pool} {d : Member} {index' : Nat} (info : List UInt8)
    (hcode : codeIndex? pool d = some index')
    (hle : ∀ index, codeIndex? k.pool d = some index → index' ≤ index) :
    d.Recoded k.pool pool (setInfo info index' d) := by
  have hplace (place : Nat)
      (hne : (setInfo info index' d).attributes[place]? ≠ d.attributes[place]?) :
      place = index' := by
    refine Decidable.byContradiction fun hother => hne ?_
    exact List.getElem?_modify_ne _ _ (Ne.symm hother)
  refine ⟨rfl, names_setInfo info index' d, fun place hne => ?_, fun place hne => ?_⟩
  · obtain rfl := hplace place hne
    exact Member.exists_of_codeIndex? hcode
  · obtain rfl := hplace place hne
    exact hle

theorem reworked_of_setBody {pool : Pool} {m : Nat} {old code : Code}
    (hbody : k.body m = .ok (some old)) (hext : k.pool.Extends pool)
    (hset : ({ k with pool }).setBody m code = .ok k') : Reworked (· = m) k k' := by
  obtain ⟨_, hinfo, -⟩ := body_eq_some_iff.mp hbody
  obtain ⟨d, index, -, hd, hindex, -, -⟩ := exists_index_of_codeInfo? hinfo
  obtain ⟨index', hle, hindex'⟩ := Member.exists_codeIndex?_of_extends hext hindex
  -- The attribute is looked up again, in the pool that has grown since the body was read.
  obtain ⟨info, -, hset⟩ := Fallible.bind_eq_ok.mp hset
  rw [setEncodedBody] at hset
  simp only [hd, hindex'] at hset
  cases hset
  refine ⟨hext, rfl, List.length_set, fun j e e' he he' => ?_⟩
  by_cases hj : j = m
  · subst hj
    cases hd.symm.trans he
    rw [List.getElem?_set_self (List.getElem?_eq_some_iff.mp hd).1] at he'
    cases he'
    refine .inr ⟨rfl, recoded_setInfo info hindex' fun i hi => ?_⟩
    cases hindex.symm.trans hi
    exact hle
  · rw [List.getElem?_set_ne (Ne.symm hj), he] at he'
    exact .inl (Option.some.inj he').symm

end ClassFile.ClassDef

/-! ### Injections -/

namespace Injection

variable {internal : String} {i : Injection} {is : List Injection} {k k' : ClassDef} {m : Nat}

def Selects (internal : String) (k : ClassDef) (is : List Injection) (m : Nat) : Prop :=
  ∃ place i c, Meets internal k is place i c ∧
    c.findMethod? i.target.name i.target.descriptor = some m

theorem reworked_of_pass (hpass : i.pass internal k = .ok k') :
    k.Reworked (fun m => i.target.className = internal ∧
      k.findMethod? i.target.name i.target.descriptor = some m) k' := by
  obtain ⟨-, rfl⟩ | ⟨hclass, r, happlied, rfl⟩ := pass_cases hpass
  · exact .of_extends (.refl _)
  · cases happlied with
    | absent | bodiless => exact .of_extends (.refl _)
    | unchanged _ _ happly => exact .of_extends (extends_of_apply happly)
    | changed hfound hbody happly hset =>
      refine (ClassDef.reworked_of_setBody hbody (extends_of_apply happly) hset).mono ?_
      rintro m rfl
      exact ⟨hclass, hfound⟩

theorem reworked_of_passAll (hpass : passAll internal k is = .ok k') :
    k.Reworked (Selects internal k is) k' := by
  induction is generalizing k with
  | nil =>
    cases hpass
    exact .of_extends (.refl _)
  | cons i is ih =>
    obtain ⟨k₁, hfirst, hrest⟩ := Fallible.bind_eq_ok.mp hpass
    refine ((reworked_of_pass hfirst).trans (ih hrest)).mono fun m hm => ?_
    obtain ⟨hclass, hfound⟩ | ⟨place, j, c, hmeets, hfound⟩ := hm
    · exact ⟨0, i, k, meets_zero.mpr ⟨rfl, hclass, rfl⟩, hfound⟩
    · exact ⟨place + 1, j, c, (meets_succ hfirst).mpr hmeets, hfound⟩

end Injection

/-! ### Whole runs -/

namespace Transformer

open Injection

theorem parseNamed_of_write {internal : String} {bytes out : List UInt8} {k : ClassDef}
    {es es' : List Installed} {p : Progress} (hnamed : parseNamed internal bytes = .ok k)
    (course : Course internal es ⟨k, false⟩ p es') (hwrite : p.cls.write = .ok out) :
    parseNamed internal out = .ok p.cls := by
  obtain ⟨hparse, hname⟩ := parseNamed_eq_ok.mp hnamed
  obtain ⟨sound, -, named⟩ := ClassDef.parse_eq_ok.mp hparse
  have reworked : k.Reworked _ p.cls := reworked_of_passAll course.passAll
  have hthis : p.cls.thisClass = k.thisClass := by rw [reworked.frame]
  have whole : p.cls.Whole := ClassDef.Whole.extend ⟨sound, named⟩ reworked.pool hthis
  refine parseNamed_eq_ok.mpr ⟨ClassDef.parse_eq_ok.mpr ⟨whole.sound, hwrite, whole.named⟩, ?_⟩
  rw [ClassDef.name, hthis]
  exact reworked.pool.className hname

/-- A class that no injection is for comes back untouched, whatever its bytes are. Of any other
class the bytes come back as they are, or as those of a class that differs in its pool, which has
more constants, and in its methods only. Methods that no injection found when it came to the class
are the same; the others are the same but for the contents of one attribute, the first one named
`Code`. For the last the names of attributes in front of it have to resolve. -/
theorem reworked_of_instrument (t : Transformer) (name : String) (bytes : List UInt8) :
    ((∀ i ∈ t.injections, i.target.className ≠ internalName name) →
      t.instrument name bytes = (.ok .untouched, t)) ∧
    ∀ r t', t.instrument name bytes = (.ok r, t') → r.bytes bytes = bytes ∨
      ∃ k k', ClassDef.parse bytes = .ok k ∧ ClassDef.parse (r.bytes bytes) = .ok k' ∧
        k.pool.Extends k'.pool ∧ k' = { k with pool := k'.pool, methods := k'.methods } ∧
        k'.methods.length = k.methods.length ∧
        ∀ m d d', k.methods[m]? = some d → k'.methods[m]? = some d' →
          (¬Selects (internalName name) k t.injections m → d' = d) ∧
          d' = { d with attributes := d'.attributes } ∧
          d'.attributes.map (·.name) = d.attributes.map (·.name) ∧
          (d.NamedToCode k.pool → ∀ place, d'.attributes[place]? ≠ d.attributes[place]? →
            ClassDef.codeIndex? k.pool d = some place) := by
  refine ⟨fun hnone => instrument_of_not_targets bytes (Bool.eq_false_iff.mpr fun h => ?_), ?_⟩
  · obtain ⟨i, hi, hclass⟩ := targets_iff.mp h
    exact hnone i hi hclass
  · intro r t' hrun
    cases htargets : t.targets name with
    | false =>
      cases (instrument_of_not_targets bytes htargets).symm.trans hrun
      exact .inl rfl
    | true =>
      obtain ⟨k, p, hnamed, course, hserialize⟩ := course_of_instrument htargets hrun
      obtain ⟨-, rfl⟩ | ⟨-, out, hwrite, rfl⟩ := serialize_eq_ok.mp hserialize
      · exact .inl rfl
      · have reworked : k.Reworked _ p.cls := reworked_of_passAll course.passAll
        obtain ⟨hparse, -⟩ := parseNamed_eq_ok.mp hnamed
        obtain ⟨hparse', -⟩ := parseNamed_eq_ok.mp (parseNamed_of_write hnamed course hwrite)
        refine .inr ⟨k, p.cls, hparse, hparse', reworked.pool, reworked.frame, reworked.length,
          fun m d d' hd hd' => ?_⟩
        obtain rfl | ⟨hselected, hrecoded⟩ := reworked.methods m d d' hd hd'
        · exact ⟨fun _ => rfl, rfl, rfl, fun _ _ hne => absurd rfl hne⟩
        · exact ⟨fun h => absurd hselected h, hrecoded.frame, hrecoded.names,
            fun named place => hrecoded.codeIndex?_eq reworked.pool named⟩

/-- A class `a/B` with a method `run()V` that returns. Its body is the second attribute and named by
a spelling of `Code` that interning does not find again; the name of the first is given. -/
def spelled (first : UInt16) : ClassDef where
  minor := 0
  major := 52
  pool := ⟨#[none, some (.utf8 [0xC1, 0x83, 0x6F, 0x64, 0x65] "Code"), some (.ofText "run"),
    some (.ofText "()V"), some (.ofText "a/B"), some (.classRef 4),
    some (.ofText "java/lang/Object"), some (.classRef 6)]⟩
  access := 0x0021
  thisClass := 5
  superClass := 7
  interfaces := []
  fields := []
  methods := [⟨0x0009, 2, 3, [⟨first, []⟩, ⟨1, [0, 4, 0, 4, 0, 0, 0, 1, 0xB1, 0, 0, 0, 0]⟩]⟩]
  attributes := []

def spelledBytes (first : UInt8) : List UInt8 :=
  [0xCA, 0xFE, 0xBA, 0xBE, 0, 0, 0, 52, 0, 8, 1, 0, 5, 0xC1, 0x83, 0x6F, 0x64, 0x65, 1, 0, 3, 0x72,
    0x75, 0x6E, 1, 0, 3, 0x28, 0x29, 0x56, 1, 0, 3, 0x61, 0x2F, 0x42, 7, 0, 4, 1, 0, 16, 0x6A, 0x61,
    0x76, 0x61, 0x2F, 0x6C, 0x61, 0x6E, 0x67, 0x2F, 0x4F, 0x62, 0x6A, 0x65, 0x63, 0x74, 7, 0, 6, 0,
    0x21, 0, 5, 0, 7, 0, 0, 0, 0, 0, 1, 0, 9, 0, 2, 0, 3, 0, 2, 0, first, 0, 0, 0, 0, 0, 1, 0, 0, 0,
    13, 0, 4, 0, 4, 0, 0, 0, 1, 0xB1, 0, 0, 0, 0, 0, 0]

def namer : Transformer :=
  .ofList [.call "h" (.of "a.B" "run" "()V") (.runtime "h") .begin,
    .call "Code" (.of "a.B" "run" "()V") (.runtime "Code") .begin]

theorem reworked_of_instrument_namer :
    ∃ out t' k' d', namer.instrument "a.B" (spelledBytes 2) = (.ok (.changed out), t') ∧
      ClassDef.parse out = .ok k' ∧ k'.methods[0]? = some d' ∧
      d'.attributes[0]? = some ⟨2, []⟩ := by
  have hparse : ClassDef.parse (spelledBytes 2) = .ok (spelled 2) :=
    Fallible.eq_ok_of_toOption (by decide +kernel)
  have hchanged : (namer.instrument "a.B" (spelledBytes 2)).1.toOption.any
      (·.bytes (spelledBytes 2) != spelledBytes 2) = true := by decide +kernel
  obtain ⟨out, t', hrun, hne⟩ : ∃ out t',
      namer.instrument "a.B" (spelledBytes 2) = (.ok (.changed out), t') ∧
        out ≠ spelledBytes 2 := by
    generalize namer.instrument "a.B" (spelledBytes 2) = answer at hchanged
    obtain ⟨_ | _ | out, t'⟩ := answer
    · cases hchanged
    · cases hchanged
    · exact ⟨out, t', rfl, bne_iff_ne.mp hchanged⟩
  obtain hsame | ⟨k, k', hk, hparse', -, -, hlength, hmethods⟩ :=
    (reworked_of_instrument namer "a.B" (spelledBytes 2)).2 _ t' hrun
  · exact absurd hsame hne
  · cases hparse.symm.trans hk
    obtain ⟨d', hd'⟩ : ∃ d', k'.methods[0]? = some d' :=
      ⟨_, List.getElem?_eq_getElem (hlength ▸ Nat.one_pos)⟩
    obtain ⟨-, -, -, hplace⟩ := hmethods 0 _ d' rfl hd'
    refine ⟨out, t', k', d', hrun, hparse', hd', ?_⟩
    refine Decidable.byContradiction fun hother => ?_
    have named : ((spelled 2).methods[0]).NamedToCode (spelled 2).pool := by
      intro place a ha hfront
      obtain rfl : place = 0 := Nat.lt_one_iff.mp (hfront 1 rfl)
      cases ha
      exact ⟨"run", rfl⟩
    cases hplace named 0 hother

/-- The class of which the first attribute's name does not resolve, instrumented: the constants of
the second hook name that attribute `Code`, and the body with both calls is put there, while the
one with the first call is already in the second attribute. -/
def respelled : ClassDef :=
  { spelled 13 with
    pool := ⟨(spelled 13).pool.slots ++ #[some (.ofText "warden/runtime/Hooks"), some (.classRef 8),
      some (.ofText "h"), some (.nameAndType 10 3), some (.member .method 9 11),
      some (.ofText "Code"), some (.nameAndType 13 3), some (.member .method 9 14)]⟩
    methods := [⟨0x0009, 2, 3,
      [⟨13, [0, 4, 0, 4, 0, 0, 0, 7, 0xB8, 0, 15, 0xB8, 0, 12, 0xB1, 0, 0, 0, 0]⟩,
        ⟨1, [0, 4, 0, 4, 0, 0, 0, 4, 0xB8, 0, 12, 0xB1, 0, 0, 0, 0]⟩]⟩] }

/-- Both attributes of the method have other contents. -/
theorem recoded_twice_of_dangling :
    ClassDef.parse (spelledBytes 13) = .ok (spelled 13) ∧
      (∃ out t', namer.instrument "a.B" (spelledBytes 13) = (.ok (.changed out), t') ∧
        ClassDef.parse out = .ok respelled) ∧
      ClassDef.codeIndex? (spelled 13).pool (spelled 13).methods[0] = some 1 ∧
      respelled.methods[0].attributes[0]? ≠ (spelled 13).methods[0].attributes[0]? ∧
      respelled.methods[0].attributes[1]? ≠ (spelled 13).methods[0].attributes[1]? := by
  refine ⟨Fallible.eq_ok_of_toOption (by decide +kernel), ?_, by decide +kernel, by decide,
    by decide⟩
  obtain ⟨out, hwrite⟩ : ∃ out, respelled.write = .ok out := ⟨_, rfl⟩
  have hrun : (namer.instrument "a.B" (spelledBytes 13)).1.toOption =
      respelled.write.toOption.map .changed := by decide +kernel
  have hparse : respelled.write.toOption.bind (ClassDef.parse · |>.toOption) = some respelled := by
    decide +kernel
  rw [hwrite] at hrun hparse
  generalize namer.instrument "a.B" (spelledBytes 13) = answer at hrun
  obtain ⟨_ | r, t'⟩ := answer
  · cases hrun
  · cases hrun
    exact ⟨out, t', rfl, Fallible.eq_ok_of_toOption hparse⟩

end Transformer

end PluginGuard
