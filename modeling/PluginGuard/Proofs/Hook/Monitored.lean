import PluginGuard.Proofs.Hook.Tended

/-!
# Methods that are monitored

Once a call was injected at the entry of a method, or was found there, later
injections keep it, and so do writing the class and reading it again. Presence is
read off the pool as it is after the constants for the call were interned. If
nothing is changed the class comes back without these constants, and then a call
is only there if the bytes that came in resolve it.
-/
namespace PluginGuard

open ClassFile

namespace Transformer

variable {k₀ k k' : ClassDef} {m : Nat} {h : Hook}

/-! ### Injections of calls, one after the other -/

/-- The method calls the hook at entry, and no body that is short enough to be written is
unreadable. -/
structure Monitored (h : Hook) (m : Nat) (k : ClassDef) : Prop where
  leads : ∀ code, k.body m = .ok (some code) → h.leads k.pool code.instructions = true
  readable : (∀ info, k.codeInfo? m = some info → info.length < 4294967296) →
    ∃ code, k.body m = .ok (some code)

theorem lasting_leads (h : Hook) : Lasting fun pool is => h.leads pool is = true where
  extend := Hook.leads_of_extends
  written := Hook.leads_written

theorem monitored_iff :
    Monitored h m k ↔ Bears (fun pool is => h.leads pool is = true) m k :=
  ⟨fun ⟨leads, readable⟩ => ⟨leads, readable⟩, fun ⟨leads, readable⟩ => ⟨leads, readable⟩⟩

structure Tends (k₀ k k' : ClassDef) : Prop where
  tended : Tended k₀ k'
  extends_ : k.pool.Extends k'.pool
  keeps : ∀ h m, Monitored h m k → Monitored h m k'

theorem Tends.refl (t : Tended k₀ k) : Tends k₀ k k := ⟨t, .refl _, fun _ _ h => h⟩

theorem Tends.trans {k'' : ClassDef} (t : Tends k₀ k k') (t' : Tends k₀ k' k'') : Tends k₀ k k'' :=
  ⟨t'.tended, t.extends_.trans t'.extends_, fun h m hk => t'.keeps h m (t.keeps h m hk)⟩

/-- If the injection is of a call at entry, the method that it names has the call, unless there is
no such method or it has no body. -/
def Fulfilled (i : Injection) (k₀ k : ClassDef) : Prop :=
  ∀ h m, i.edit = .call h .begin → k₀.findMethod? i.target.name i.target.descriptor = some m →
    (k₀.codeInfo? m).isSome = true → Monitored h m k

theorem tends_of_appliedTo {i : Injection} {position : Position} (hedit : i.edit = .call h position)
    (t : Tended k₀ k) {r : Option ClassDef × Pool} (happlied : i.AppliedTo k r) :
    let k' := r.1.getD { k with pool := r.2 }
    Tends k₀ k k' ∧ Fulfilled i k₀ k' := by
  obtain ⟨t', hext, ⟨hsame, hnone⟩ | ⟨m, code, outcome, w, hfound, inserted⟩⟩ :=
    tended_of_appliedTo hedit t happlied
  · refine ⟨⟨t', hext, fun g j hj => hsame.symm ▸ hj⟩, fun g j _ hj hcode => ?_⟩
    rw [hnone j hj] at hcode
    cases hcode
  · refine ⟨⟨t', hext, fun g j hj => ?_⟩, fun g j hg hj _ => ?_⟩
    -- What the method itself called at entry it calls behind the new calls.
    · exact monitored_iff.mpr (inserted.keeps (lasting_leads g)
        (Hook.leads_of_insertCall inserted.storable t.reached inserted.run) (monitored_iff.mp hj))
    · cases hedit.symm.trans hg
      cases hfound.symm.trans hj
      exact monitored_iff.mpr (inserted.own (lasting_leads h)
        (Hook.leads_of_insertCall_begin inserted.storable t.reached inserted.run).1)

variable {internal : String} {es es' : List Installed} {p p' : Progress}

theorem tends_of_pass {i : Injection} {position : Position} (hedit : i.edit = .call h position)
    (t : Tended k₀ k) (hpass : i.pass internal k = .ok k') :
    Tends k₀ k k' ∧ (i.target.className = internal → Fulfilled i k₀ k') := by
  obtain ⟨hclass, rfl⟩ | ⟨-, r, happlied, rfl⟩ := Injection.pass_cases hpass
  · exact ⟨.refl t, fun h => absurd h hclass⟩
  · obtain ⟨tends, fulfilled⟩ := tends_of_appliedTo hedit t happlied
    exact ⟨tends, fun _ => fulfilled⟩

theorem tends_of_course (calls : ∀ e ∈ es, ∃ h position, e.injection.edit = .call h position)
    (t : Tended k₀ p.cls) (course : Course internal es p p' es') :
    Tends k₀ p.cls p'.cls ∧
      ∀ e ∈ es, e.injection.target.className = internal → Fulfilled e.injection k₀ p'.cls := by
  obtain ⟨tends, fulfilled, -⟩ := course.rule (I := Tends k₀ p.cls) (Q := fun i => Fulfilled i k₀)
    (fun e he k k' tends hpass => by
      obtain ⟨h, position, hedit⟩ := calls e he
      obtain ⟨tends', fulfilled⟩ := tends_of_pass hedit tends.tended hpass
      exact ⟨tends.trans tends', fulfilled, fun i hi h m hh hm hcode =>
        tends'.keeps h m (hi h m hh hm hcode)⟩) (.refl t)
  exact ⟨tends, fulfilled⟩

/-! ### Whole runs -/

/-- The static calls that the body of the method begins with resolve. -/
def Linked (k : ClassDef) (m : Nat) : Prop :=
  ∀ code, k.body m = .ok (some code) →
    ∀ i ∈ code.instructions.takeWhile (·.opcode == Opcode.invokeStatic),
      ∃ callee, Hook.callee? k.pool i = some callee

/-- If a class is instrumented with calls, the bytes that come out can be parsed, and every method
that was to get a call at entry can be decoded and has it. Of bytes that come out untouched the
last is said if the static calls at entry resolve: otherwise one may have been taken for a call of
the hook by a constant that is only in the pool while the class is instrumented. -/
theorem exists_entries_of_instrument {t t' : Transformer} {name : String} {bytes : List UInt8}
    {r : Instrumented} (calls : ∀ i ∈ t.injections, ∃ h position, i.edit = .call h position)
    (targeted : t.targets name = true)
    (names : ∀ k, ClassDef.parse bytes = .ok k → k.NamesResolve)
    (hrun : t.instrument name bytes = (.ok r, t')) :
    ∃ k k', ClassDef.parse bytes = .ok k ∧ ClassDef.parse (r.bytes bytes) = .ok k' ∧
      ∀ i ∈ t.injections, ∀ h, i.edit = .call h .begin → i.target.className = internalName name →
        ∀ m, k.findMethod? i.target.name i.target.descriptor = some m →
          (k.codeInfo? m).isSome = true →
          k'.findMethod? i.target.name i.target.descriptor = some m ∧
            ∃ code, k'.body m = .ok (some code) ∧
              ((r = .untouched → Linked k m) → h.leads k'.pool code.instructions = true) := by
  obtain ⟨k, p, hnamed, course, hserialize⟩ := course_of_instrument targeted hrun
  obtain ⟨hparse, -⟩ := parseNamed_eq_ok.mp hnamed
  have resolve := names k hparse
  obtain ⟨tends, fulfilled⟩ := tends_of_course (fun e he => calls _ (List.mem_map_of_mem he))
    (tended_of_parse hparse resolve) course
  have monitored (i : Injection) (hi : i ∈ t.injections) (h : Hook)
      (hedit : i.edit = .call h .begin) (hclass : i.target.className = internalName name) (m : Nat)
      (hm : k.findMethod? i.target.name i.target.descriptor = some m)
      (hcode : (k.codeInfo? m).isSome = true) : Monitored h m p.cls := by
    obtain ⟨e, he, rfl⟩ := List.mem_map.mp hi
    exact fulfilled e he hclass h m hedit hm hcode
  obtain ⟨hunchanged, rfl⟩ | ⟨-, out, hwrite, rfl⟩ := serialize_eq_ok.mp hserialize
  · refine ⟨k, k, hparse, hparse, fun i hi h hedit hclass m hm hcode => ⟨hm, ?_⟩⟩
    have monitored := monitored i hi h hedit hclass m hm hcode
    rw [(course.untouched hunchanged).2.1] at monitored
    obtain ⟨code, hbody⟩ := monitored.readable fun info hinfo => by
      rw [ClassDef.codeInfo?_of_extends resolve tends.extends_] at hinfo
      exact ClassDef.length_codeInfo?_of_write (ClassDef.parse_eq_ok.mp hparse).2.1 hinfo
    have hbody' := (ClassDef.body_of_extends resolve tends.extends_ m code).mp hbody
    refine ⟨code, hbody', fun linked => ?_⟩
    rw [← Hook.leads_eq_of_extends tends.extends_ (linked rfl code hbody')]
    exact monitored.leads code hbody
  · have hparse' := tends.tended.parse_of_write hwrite
    refine ⟨k, p.cls, hparse, hparse', fun i hi h hedit hclass m hm hcode => ?_⟩
    have monitored := monitored i hi h hedit hclass m hm hcode
    obtain ⟨code, hbody⟩ := monitored.readable fun info hinfo =>
      ClassDef.length_codeInfo?_of_write hwrite hinfo
    exact ⟨(tends.tended.found _ _).trans hm, code, hbody, fun _ => monitored.leads code hbody⟩

def watched (body : List UInt8) : ClassDef where
  minor := 0
  major := 52
  pool := ⟨#[none, some (.ofText "Code"), some (.ofText "run"), some (.ofText "()V"),
    some (.ofText "a/B"), some (.classRef 4), some (.ofText "java/lang/Object"),
    some (.classRef 6)]⟩
  access := 0x0021
  thisClass := 5
  superClass := 7
  interfaces := []
  fields := []
  methods := [⟨0x0009, 2, 3, [⟨1, [0, 4, 0, 4, 0, 0, 0, UInt8.ofNat body.length] ++ body ++
    [0, 0, 0, 0]⟩]⟩]
  attributes := []

def watchedBytes (body : List UInt8) : List UInt8 :=
  [0xCA, 0xFE, 0xBA, 0xBE, 0, 0, 0, 52, 0, 8, 1, 0, 4, 0x43, 0x6F, 0x64, 0x65, 1, 0, 3, 0x72, 0x75,
    0x6E, 1, 0, 3, 0x28, 0x29, 0x56, 1, 0, 3, 0x61, 0x2F, 0x42, 7, 0, 4, 1, 0, 16, 0x6A, 0x61, 0x76,
    0x61, 0x2F, 0x6C, 0x61, 0x6E, 0x67, 0x2F, 0x4F, 0x62, 0x6A, 0x65, 0x63, 0x74, 7, 0, 6, 0, 0x21,
    0, 5, 0, 7, 0, 0, 0, 0, 0, 1, 0, 9, 0, 2, 0, 3, 0, 1, 0, 1, 0, 0, 0,
    UInt8.ofNat (body.length + 12), 0, 4, 0, 4, 0, 0, 0, UInt8.ofNat body.length] ++ body ++
    [0, 0, 0, 0, 0, 0]

theorem namesResolve_watched {body : List UInt8} {code : Code}
    (hbody : (watched body).body 0 = .ok (some code)) (hattributes : code.attributes = []) :
    (watched body).NamesResolve := by
  refine ⟨List.forall_mem_singleton.mpr ⟨⟨"run", rfl⟩, ⟨"()V", rfl⟩⟩,
    List.forall_mem_singleton.mpr (List.forall_mem_singleton.mpr ⟨"Code", rfl⟩), ?_⟩
  intro m read hread
  cases m with
  | zero =>
    cases hbody.symm.trans hread
    rw [Code.NamesResolve, hattributes]
    exact List.forall_mem_nil _
  | succ m => cases hread

def framer : Transformer := .ofList (Injection.frame "a.B" "run")

theorem exists_entries_of_instrument_framer :
    ∃ out t' k' code, framer.instrument "a.B" (watchedBytes [0xB1]) = (.ok (.changed out), t') ∧
      ClassDef.parse out = .ok k' ∧ k'.findMethod? "run" "()V" = some 0 ∧
      k'.body 0 = .ok (some code) ∧
      (Hook.runtime "enterPlugin").leads k'.pool code.instructions = true := by
  have hparse : ClassDef.parse (watchedBytes [0xB1]) = .ok (watched [0xB1]) :=
    Fallible.eq_ok_of_toOption (by decide +kernel)
  have hbody : (watched [0xB1]).body 0 = .ok (some (.ofInstructions 4 4 [.simple 0xB1])) :=
    Fallible.eq_ok_of_toOption (by decide +kernel)
  have calls : ∀ i ∈ framer.injections, ∃ h position, i.edit = .call h position :=
    List.forall_mem_cons.mpr ⟨⟨_, _, rfl⟩, List.forall_mem_singleton.mpr ⟨_, _, rfl⟩⟩
  have names (k : ClassDef) (hk : ClassDef.parse (watchedBytes [0xB1]) = .ok k) :
      k.NamesResolve := by
    cases hparse.symm.trans hk
    exact namesResolve_watched hbody rfl
  have hchanged : (framer.instrument "a.B" (watchedBytes [0xB1])).1.toOption.any
      (· != .untouched) = true := by decide +kernel
  obtain ⟨out, t', hrun⟩ := exists_changed_of_any hchanged
  obtain ⟨k, k', hk, hparse', entries⟩ :=
    exists_entries_of_instrument calls rfl names hrun
  cases hparse.symm.trans hk
  obtain ⟨hfound, code, hbody', hleads⟩ := entries _ List.mem_cons_self _ rfl rfl 0 rfl rfl
  exact ⟨out, t', k', code, hrun, hparse', hfound, hbody', hleads fun h => by cases h⟩

def watcher : Transformer := .ofList [.call "i" (.of "a.B" "run" "()V") (.runtime "h") .begin]

/-- The body calls a method by an index that is not in the pool, and that the constant for the
call of the hook gets. The call is then taken for the hook's, and the bytes come out untouched. -/
theorem untouched_of_dangling :
    (∀ k, ClassDef.parse (watchedBytes [0xB8, 0, 12, 0xB1]) = .ok k → k.NamesResolve) ∧
      watcher.targets "a.B" = true ∧
      watcher.instrument "a.B" (watchedBytes [0xB8, 0, 12, 0xB1]) = (.ok .untouched, watcher) ∧
      ClassDef.parse (watchedBytes [0xB8, 0, 12, 0xB1]) = .ok (watched [0xB8, 0, 12, 0xB1]) ∧
      (watched [0xB8, 0, 12, 0xB1]).findMethod? "run" "()V" = some 0 ∧
      (watched [0xB8, 0, 12, 0xB1]).body 0 =
        .ok (some (.ofInstructions 4 4 [.invokeStatic 12, .simple 0xB1])) ∧
      (Hook.runtime "h").leads (watched [0xB8, 0, 12, 0xB1]).pool
        [.invokeStatic 12, .simple 0xB1] = false := by
  have hparse : ClassDef.parse (watchedBytes [0xB8, 0, 12, 0xB1]) =
      .ok (watched [0xB8, 0, 12, 0xB1]) := Fallible.eq_ok_of_toOption (by decide +kernel)
  have hbody : (watched [0xB8, 0, 12, 0xB1]).body 0 =
      .ok (some (.ofInstructions 4 4 [.invokeStatic 12, .simple 0xB1])) :=
    Fallible.eq_ok_of_toOption (by decide +kernel)
  refine ⟨fun k hk => ?_, rfl, by decide +kernel, hparse, rfl, hbody, rfl⟩
  cases hparse.symm.trans hk
  exact namesResolve_watched hbody rfl

end Transformer

end PluginGuard
