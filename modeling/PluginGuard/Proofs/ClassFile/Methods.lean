import PluginGuard.Proofs.ClassFile.Code.Rereading
import PluginGuard.Proofs.ClassFile.Edited

/-!
# Methods and their bodies under edits

Methods and the attributes with their bodies are found by names in the pool. If
these resolve, a pool that grows changes neither what is found nor how it is
read, and setting a body changes that of one method.
-/
namespace PluginGuard.ClassFile

theorem findIdx?_congr {α : Type} {p q : α → Bool} {as : List α} (h : ∀ a ∈ as, p a = q a) :
    as.findIdx? p = as.findIdx? q := by
  induction as with
  | nil => rfl
  | cons a as ih =>
    obtain ⟨ha, has⟩ := List.forall_mem_cons.mp h
    rw [List.findIdx?_cons, List.findIdx?_cons, ha, ih has]

namespace ClassDef

variable {k k' : ClassDef} {pool : Pool} {m : Nat} {code : Code} {info : List UInt8}

/-! ### Bodies in their attributes -/

def codeInfo? (k : ClassDef) (m : Nat) : Option (List UInt8) :=
  k.methods[m]?.bind fun d => ((codeIndex? k.pool d).bind (d.attributes[·]?)).map (·.info)

theorem body_eq_some_iff :
    k.body m = .ok (some code) ↔
      ∃ info, k.codeInfo? m = some info ∧ Code.decode info k.pool = .ok code := by
  rw [body, codeInfo?]
  cases k.methods[m]? with
  | none => simp
  | some d =>
    simp only [Option.bind_some]
    cases (codeIndex? k.pool d).bind (d.attributes[·]?) with
    | none => simp
    | some a =>
      simp only [Option.map_some, Option.some.injEq, exists_eq_left']
      cases Code.decode a.info k.pool with
      | error e => simp [Except.map]
      | ok c => simp [Except.map]

theorem body_eq_none_iff : k.body m = .ok none ↔ k.codeInfo? m = none := by
  rw [body, codeInfo?]
  cases k.methods[m]? with
  | none => simp
  | some d =>
    simp only [Option.bind_some]
    cases (codeIndex? k.pool d).bind (d.attributes[·]?) with
    | none => simp
    | some a =>
      simp only [Option.map_some]
      cases Code.decode a.info k.pool with
      | error e => simp [Except.map]
      | ok c => simp [Except.map]

theorem exists_index_of_codeInfo? (h : k.codeInfo? m = some info) :
    ∃ d index a, k.methods[m]? = some d ∧ codeIndex? k.pool d = some index ∧
      d.attributes[index]? = some a ∧ a.info = info := by
  obtain ⟨d, hd, hinfo⟩ := Option.bind_eq_some_iff.mp h
  obtain ⟨a, ha, rfl⟩ := Option.map_eq_some_iff.mp hinfo
  obtain ⟨index, hindex, ha⟩ := Option.bind_eq_some_iff.mp ha
  exact ⟨d, index, a, hd, hindex, ha, rfl⟩

/-- The names of methods and of their attributes resolve, those inside of bodies included. -/
structure NamesResolve (k : ClassDef) : Prop where
  methods : ∀ d ∈ k.methods,
    (∃ name, k.memberName d = .ok name) ∧ ∃ descriptor, k.memberDescriptor d = .ok descriptor
  attributes : ∀ d ∈ k.methods, ∀ a ∈ d.attributes, ∃ name, k.pool.utf8 a.name = .ok name
  bodies : ∀ m code, k.body m = .ok (some code) → code.NamesResolve k.pool

/-! ### Growing pools -/

section Growing

variable (names : k.NamesResolve) (hext : k.pool.Extends pool)
include names hext

theorem findMethod?_of_extends (name descriptor : String) :
    ({ k with pool }).findMethod? name descriptor = k.findMethod? name descriptor := by
  refine findIdx?_congr fun d hd => ?_
  obtain ⟨⟨n, hn⟩, ⟨t, ht⟩⟩ := names.methods d hd
  simp only [memberName, memberDescriptor] at hn ht ⊢
  rw [hn, ht, hext.utf8 hn, hext.utf8 ht]

theorem codeInfo?_of_extends (m : Nat) : ({ k with pool }).codeInfo? m = k.codeInfo? m := by
  refine Option.bind_congr fun d hd => ?_
  have hindex : codeIndex? pool d = codeIndex? k.pool d := by
    refine findIdx?_congr fun a ha => ?_
    obtain ⟨t, ht⟩ := names.attributes d (List.mem_of_getElem? hd) a ha
    rw [ht, hext.utf8 ht]
  rw [hindex]

theorem body_of_extends (m : Nat) (code : Code) :
    ({ k with pool }).body m = .ok (some code) ↔ k.body m = .ok (some code) := by
  simp only [body_eq_some_iff, codeInfo?_of_extends names hext]
  constructor
  · intro h
    obtain ⟨info, hinfo, hdecode⟩ := h
    obtain ⟨earlier, hearlier, hnames⟩ := Code.exists_decode_of_extends hext hdecode
    have resolved : code.NamesResolve k.pool := by
      have hresolved := names.bodies m earlier (body_eq_some_iff.mpr ⟨info, hinfo, hearlier⟩)
      rw [Code.NamesResolve, ← List.forall_mem_map (f := CodeAttribute.name)
        (P := fun n => ∃ text, k.pool.utf8 n = .ok text), ← hnames]
      exact List.forall_mem_map.mpr hresolved
    exact ⟨info, hinfo, (Code.decode_of_extends hext resolved).mp hdecode⟩
  · intro h
    obtain ⟨info, hinfo, hdecode⟩ := h
    have resolved := names.bodies m code (body_eq_some_iff.mpr ⟨info, hinfo, hdecode⟩)
    exact ⟨info, hinfo, (Code.decode_of_extends hext resolved).mpr hdecode⟩

theorem NamesResolve.extend : ({ k with pool }).NamesResolve := by
  refine ⟨fun d hd => ?_, fun d hd a ha => ?_, fun m code hbody => ?_⟩
  · obtain ⟨hname, hdescriptor⟩ := names.methods d hd
    exact ⟨hname.imp fun _ => hext.utf8, hdescriptor.imp fun _ => hext.utf8⟩
  · exact (names.attributes d hd a ha).imp fun _ => hext.utf8
  · exact (names.bodies m code ((body_of_extends names hext m code).mp hbody)).extend hext

end Growing

/-! ### Setting bodies -/

theorem names_setInfo (info : List UInt8) (index : Nat) (d : Member) :
    (setInfo info index d).attributes.map (·.name) = d.attributes.map (·.name) := by
  refine List.ext_getElem? fun j => ?_
  rw [setInfo, List.getElem?_map, List.getElem?_map, List.getElem?_modify]
  cases d.attributes[j]? with
  | none => rfl
  | some a =>
    simp only [Option.map_eq_map, Option.map_some, Option.some.injEq]
    split
    · rfl
    · rfl

/-- Where the body is found only the names of the attributes tell. -/
theorem codeIndex?_of_names {d d' : Member}
    (h : d'.attributes.map (·.name) = d.attributes.map (·.name)) :
    codeIndex? pool d' = codeIndex? pool d := by
  have byName (d : Member) : codeIndex? pool d = (d.attributes.map (·.name)).findIdx? fun name =>
      (pool.utf8 name).toOption == some "Code" := by
    rw [List.findIdx?_map]
    rfl
  rw [byName, byName, h]

theorem setEncodedBody_eq_ok {old : List UInt8} (hold : k.codeInfo? m = some old)
    (h : k.setEncodedBody m info = .ok k') :
    ∃ d index a, k.methods[m]? = some d ∧ codeIndex? k.pool d = some index ∧
      d.attributes[index]? = some a ∧
      k' = { k with methods := k.methods.set m (setInfo info index d) } := by
  obtain ⟨d, index, a, hd, hindex, ha, -⟩ := exists_index_of_codeInfo? hold
  rw [setEncodedBody, hd] at h
  simp only [hindex] at h
  cases h
  exact ⟨d, index, a, hd, hindex, ha, rfl⟩

/-- What setting a body that is there changes: the contents of its attribute, and nothing that
methods and attributes are found by. -/
structure BodySet (k : ClassDef) (m : Nat) (info : List UInt8) (k' : ClassDef) : Prop where
  pool : k'.pool = k.pool
  found : ∀ name descriptor, k'.findMethod? name descriptor = k.findMethod? name descriptor
  own : k'.codeInfo? m = some info
  others : ∀ j, j ≠ m → k'.codeInfo? j = k.codeInfo? j
  members : ∀ d' ∈ k'.methods, ∃ d ∈ k.methods, d'.name = d.name ∧ d'.descriptor = d.descriptor ∧
    d'.attributes.map (·.name) = d.attributes.map (·.name)

theorem bodySet_of_setEncodedBody {old : List UInt8} (hold : k.codeInfo? m = some old)
    (h : k.setEncodedBody m info = .ok k') : BodySet k m info k' := by
  obtain ⟨d, index, a, hd, hindex, ha, rfl⟩ := setEncodedBody_eq_ok hold h
  obtain ⟨hm, hget⟩ := List.getElem?_eq_some_iff.mp hd
  refine ⟨rfl, fun name descriptor => ?_, ?_, fun j hj => ?_, fun d' hd' => ?_⟩
  · let key (d : Member) : UInt16 × UInt16 := (d.name, d.descriptor)
    let asked (key : UInt16 × UInt16) : Bool :=
      (k.pool.utf8 key.1).toOption == some name && (k.pool.utf8 key.2).toOption == some descriptor
    have hkeys : (k.methods.set m (setInfo info index d)).map key = k.methods.map key := by
      rw [List.map_set]
      have hlength : m < (k.methods.map key).length := by simpa using hm
      have hsame : key (setInfo info index d) = (k.methods.map key)[m] := by
        rw [List.getElem_map, hget]
        rfl
      rw [hsame, List.set_getElem_self]
    have hfind (ds : List Member) :
        ({ k with methods := ds }).findMethod? name descriptor = (ds.map key).findIdx? asked := by
      rw [List.findIdx?_map]
      rfl
    exact (hfind _).trans ((congrArg _ hkeys).trans (hfind k.methods).symm)
  · have hown : (setInfo info index d).attributes[index]? = some { a with info } := by
      rw [setInfo, List.getElem?_modify_eq, ha]
      rfl
    have hcode := (codeIndex?_of_names (names_setInfo info index d)).trans hindex
    simp [codeInfo?, List.getElem?_set_self hm, hcode, hown]
  · rw [codeInfo?, codeInfo?, List.getElem?_set_ne (Ne.symm hj)]
  · obtain hd' | rfl := List.mem_or_eq_of_mem_set hd'
    · exact ⟨d', hd', rfl, rfl, rfl⟩
    · exact ⟨d, List.mem_of_getElem? hd, rfl, rfl, names_setInfo info index d⟩

namespace BodySet

theorem body (h : BodySet k m info k') {j : Nat} (hj : j ≠ m) :
    k'.body j = .ok (some code) ↔ k.body j = .ok (some code) := by
  rw [body_eq_some_iff, body_eq_some_iff, h.others j hj, h.pool]

theorem body_self (h : BodySet k m info k') :
    k'.body m = .ok (some code) ↔ Code.decode info k.pool = .ok code := by
  simp [body_eq_some_iff, h.own, h.pool]

theorem isSome_codeInfo? (h : BodySet k m info k') (hold : (k.codeInfo? m).isSome) (j : Nat) :
    (k'.codeInfo? j).isSome = (k.codeInfo? j).isSome := by
  by_cases hj : j = m
  · rw [hj, h.own, hold]
    rfl
  · rw [h.others j hj]

theorem namesResolve (h : BodySet k m info k') (names : k.NamesResolve)
    (hinfo : ∀ code, Code.decode info k.pool = .ok code → code.NamesResolve k.pool) :
    k'.NamesResolve := by
  refine ⟨fun d' hd' => ?_, fun d' hd' a ha => ?_, fun j code hbody => ?_⟩
  · obtain ⟨d, hd, hname, hdescriptor, -⟩ := h.members d' hd'
    simpa only [memberName, memberDescriptor, h.pool, hname, hdescriptor] using names.methods d hd
  · obtain ⟨d, hd, -, -, hattributes⟩ := h.members d' hd'
    have hmem : a.name ∈ d.attributes.map (·.name) := hattributes ▸ List.mem_map_of_mem ha
    obtain ⟨b, hb, hname⟩ := List.mem_map.mp hmem
    rw [h.pool, ← hname]
    exact names.attributes d hd b hb
  · rw [h.pool]
    by_cases hj : j = m
    · subst hj
      exact hinfo code (h.body_self.mp hbody)
    · exact names.bodies j code ((h.body hj).mp hbody)

end BodySet

theorem setBody_eq_ok {old : List UInt8} (hold : k.codeInfo? m = some old)
    (h : k.setBody m code = .ok k') : ∃ info, code.encode = .ok info ∧ BodySet k m info k' := by
  obtain ⟨info, hencode, hset⟩ := Fallible.bind_eq_ok.mp h
  exact ⟨info, hencode, bodySet_of_setEncodedBody hold hset⟩

theorem length_codeInfo?_of_write {bytes : List UInt8} (hwrite : k.write = .ok bytes)
    (hinfo : k.codeInfo? m = some info) : info.length < 4294967296 := by
  obtain ⟨_, _, _, methods, _, -, -, -, ⟨-, _, hmethods, -⟩, -, -⟩ := write_eq_ok.mp hwrite
  obtain ⟨d, index, a, hd, -, ha, rfl⟩ := exists_index_of_codeInfo? hinfo
  obtain ⟨bs, hbs⟩ := hmethods.exists_of_mem d (List.mem_of_getElem? hd)
  obtain ⟨_, ⟨-, _, hattributes, -⟩, -⟩ := Member.write_eq_ok.mp hbs
  obtain ⟨cs, hcs⟩ := hattributes.exists_of_mem a (List.mem_of_getElem? ha)
  exact (Attribute.write_eq_ok.mp hcs).1

end ClassDef

end PluginGuard.ClassFile
