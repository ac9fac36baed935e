import PluginGuard.Proofs.Hook.Monitored
import PluginGuard.Proofs.Hook.Presence
import PluginGuard.Proofs.Hook.Scope

/-!
# Instrumenting twice

Once a call was injected, or was found, its constants are in the pool and it is
found again, also when calls of other hooks of the same owner were put around it,
and when the class was written and read again. So what was instrumented with such
calls is left alone when it is instrumented again.
-/
namespace PluginGuard

open ClassFile

namespace Transformer

variable {k₀ k k' : ClassDef} {pool pool' : Pool} {h : Hook} {position : Position}
variable {owner internal : String} {i : Injection}

theorem lasting_present (h : Hook) (position : Position) :
    Lasting fun pool is => h.Present pool position is where
  extend hext present := present.extend hext
  written hl _ present := present.written hl

/-- The pool has the constants for a call of the hook, and so has every later one. -/
def Supplied (h : Hook) (pool : Pool) : Prop :=
  ∀ later, pool.Extends later →
    ∃ k, (Pool.internMember .method h.member).run.run later = (.ok k, later)

theorem Supplied.extend (hext : pool.Extends pool') (supplied : Supplied h pool) :
    Supplied h pool' :=
  fun later hlater => supplied later (hext.trans hlater)

theorem supplied_of_insertCall {c : Code} {outcome : Outcome} {w : Workpiece}
    (ordered : ∀ a ∈ c.attributes, a.Ordered)
    (hrun : (h.insertCall position).run.run ⟨c, pool⟩ = (.ok outcome, w)) : Supplied h w.pool := by
  obtain ⟨k, hintern⟩ := Hook.run_intern_of_insertCall ordered hrun
  exact fun later hext => ⟨k, Pool.settles_internMember _ _ _ _ _ hintern later hext⟩

/-! ### One injection -/

/-- If the injection is of a call for a hook of this owner, the method that it names has the call
and the pool its constants, unless there is no such method or it has no body. -/
def Carried (owner : String) (i : Injection) (k₀ k : ClassDef) : Prop :=
  ∀ h position m, i.edit = .call h position → h.owner = owner →
    k₀.findMethod? i.target.name i.target.descriptor = some m → (k₀.codeInfo? m).isSome = true →
    Supplied h k.pool ∧ Bears (fun pool is => h.Present pool position is) m k

theorem carried_of_pass (hedit : i.edit = .call h position) (howner : h.owner = owner)
    (t : Tended k₀ k) (hpass : i.pass internal k = .ok k') :
    Tended k₀ k' ∧ (i.target.className = internal → Carried owner i k₀ k') ∧
      ∀ j, Carried owner j k₀ k → Carried owner j k₀ k' := by
  obtain ⟨hclass, rfl⟩ | ⟨-, r, happlied, rfl⟩ := Injection.pass_cases hpass
  · exact ⟨t, fun h => absurd h hclass, fun _ h => h⟩
  · obtain ⟨t', hext, ⟨hsame, hnone⟩ | ⟨m, code, outcome, w, hfound, inserted⟩⟩ :=
      tended_of_appliedTo hedit t happlied
    · refine ⟨t', fun _ g position j _ _ hj hcode => ?_, fun j hj => hsame.symm ▸ hj⟩
      rw [hnone j hj] at hcode
      cases hcode
    · have ordered := fun a ha => (inserted.storable.wellFormed.attributes a ha).ordered
      refine ⟨t', fun _ g position' j hg _ hj _ => ?_, fun j hj g position' m' hg hg' hm hcode => ?_⟩
      · cases hedit.symm.trans hg
        cases hfound.symm.trans hj
        exact ⟨inserted.pool ▸ supplied_of_insertCall ordered inserted.run,
          inserted.own (lasting_present h position)
            (Hook.present_of_insertCall ordered t.reached inserted.run)⟩
      · obtain ⟨supplied, bears⟩ := hj g position' m' hg hg' hm hcode
        exact ⟨supplied.extend hext, inserted.keeps (lasting_present g position')
          (Hook.Present.insertCall (howner.trans hg'.symm) ordered t.reached inserted.run) bears⟩

theorem applyTo_of_carried (hedit : i.edit = .call h position) (howner : h.owner = owner)
    (t : Tended k₀ k) (carried : Carried owner i k₀ k) {bytes : List UInt8}
    (hwrite : k.write = .ok bytes) : i.applyTo k = .ok (none, k.pool) := by
  rw [Injection.applyTo]
  cases hfound : k.findMethod? i.target.name i.target.descriptor with
  | none => rfl
  | some m =>
    cases hinfo : k.codeInfo? m with
    | none => exact Fallible.bind_eq_ok.mpr ⟨none, ClassDef.body_eq_none_iff.mpr hinfo, rfl⟩
    | some info =>
      obtain ⟨supplied, bears⟩ := carried h position m hedit howner
        ((t.found _ _).symm.trans hfound) (by rw [← t.bodies, hinfo]; rfl)
      obtain ⟨code, hbody⟩ := bears.readable fun _ => ClassDef.length_codeInfo?_of_write hwrite
      obtain ⟨_, hintern⟩ := supplied k.pool (.refl _)
      obtain ⟨outcome, hunchanged, hrun⟩ :=
        Hook.exists_run_of_present hintern (bears.holds code hbody)
      have happly : i.apply code k.pool = (.ok outcome, ⟨code, k.pool⟩) := by
        rw [Injection.apply, hedit]
        exact hrun
      refine Fallible.bind_eq_ok.mpr ⟨some code, hbody, ?_⟩
      simp only [happly]
      refine Fallible.bind_eq_ok.mpr ⟨outcome, rfl, ?_⟩
      cases outcome with
      | changed n => exact absurd rfl (hunchanged n)
      | alreadyPresent => rfl
      | noMatch => rfl

/-! ### Whole runs -/

/-- What was instrumented with calls of hooks of one owner comes back untouched when it is
instrumented again, whatever hooks, positions and order the injections have. -/
theorem instrument_of_instrument {t t' : Transformer} {name : String} {bytes : List UInt8}
    {r : Instrumented}
    (calls : ∀ i ∈ t.injections, ∃ h position, i.edit = .call h position ∧ h.owner = owner)
    (names : ∀ k, ClassDef.parse bytes = .ok k → k.NamesResolve)
    (hrun : t.instrument name bytes = (.ok r, t')) :
    t'.instrument name (r.bytes bytes) = (.ok .untouched, t') := by
  cases htargets : t.targets name with
  | false =>
    cases (instrument_of_not_targets bytes htargets).symm.trans hrun
    exact hrun
  | true =>
    obtain ⟨k, p, hnamed, course, hserialize⟩ := course_of_instrument htargets hrun
    obtain ⟨hunchanged, rfl⟩ | ⟨-, out, hwrite, rfl⟩ := serialize_eq_ok.mp hserialize
    · -- No mark was set, so the second call is the first one again.
      obtain rfl : t' = t := congrArg Transformer.mk (course.untouched hunchanged).2.2
      exact hrun
    · obtain ⟨hparse, -⟩ := parseNamed_eq_ok.mp hnamed
      have hinjections : t'.injections = t.injections := by
        rw [← injections_instrument t name bytes, hrun]
      obtain ⟨tended, carried, -⟩ := course.rule (I := Tended k) (Q := fun i => Carried owner i k)
        (fun e he k₁ k₂ tended hpass => by
          obtain ⟨h, position, hedit, howner⟩ := calls _ (List.mem_map_of_mem he)
          exact carried_of_pass hedit howner tended hpass)
        (tended_of_parse hparse (names k hparse))
      have hnamed' := parseNamed_of_write hnamed course hwrite
      have settled : ∀ e ∈ t'.installed, e.injection.target.className = internalName name →
          e.injection.applyTo p.cls = .ok (none, p.cls.pool) := by
        intro e he hclass
        have hi : e.injection ∈ t.injections := hinjections ▸ List.mem_map_of_mem he
        obtain ⟨h, position, hedit, howner⟩ := calls _ hi
        obtain ⟨d, hd, hsame⟩ := List.mem_map.mp hi
        exact applyTo_of_carried hedit howner tended
          (hsame ▸ carried d hd (hsame.symm ▸ hclass)) hwrite
      have htargets' : t'.targets name = true := by
        rw [targets_iff] at htargets ⊢
        rwa [hinjections]
      change t'.instrument name out = _
      simp only [instrument, htargets', if_true, hnamed',
        applyAll_of_settled (p := ⟨p.cls, false⟩) settled]
      rfl

def quartet : Transformer :=
  .ofList [.call "i" (.of "a.B" "run" "()V") (.runtime "open") .begin,
    .call "j" (.of "a.B" "run" "()V") (.runtime "close") .end_,
    .call "k" (.of "a.B" "run" "()V") (.runtime "enter") .begin,
    .call "l" (.of "a.B" "run" "()V") (.runtime "leave") .end_]

theorem instrument_of_instrument_quartet :
    ∃ out t', quartet.instrument "a.B" (watchedBytes [0xB1]) = (.ok (.changed out), t') ∧
      t'.instrument "a.B" out = (.ok .untouched, t') := by
  have hparse : ClassDef.parse (watchedBytes [0xB1]) = .ok (watched [0xB1]) :=
    Fallible.eq_ok_of_toOption (by decide +kernel)
  have hbody : (watched [0xB1]).body 0 = .ok (some (.ofInstructions 4 4 [.simple 0xB1])) :=
    Fallible.eq_ok_of_toOption (by decide +kernel)
  have calls : ∀ i ∈ quartet.injections,
      ∃ h position, i.edit = .call h position ∧ h.owner = "warden/runtime/Hooks" := by
    simp only [quartet, ofList, injections, List.map_cons, List.map_nil, List.forall_mem_cons]
    exact ⟨⟨_, _, rfl, rfl⟩, ⟨_, _, rfl, rfl⟩, ⟨_, _, rfl, rfl⟩, ⟨_, _, rfl, rfl⟩,
      List.forall_mem_nil _⟩
  have names (k : ClassDef) (hk : ClassDef.parse (watchedBytes [0xB1]) = .ok k) :
      k.NamesResolve := by
    cases hparse.symm.trans hk
    exact namesResolve_watched hbody rfl
  have hchanged : (quartet.instrument "a.B" (watchedBytes [0xB1])).1.toOption.any
      (· != .untouched) = true := by decide +kernel
  obtain ⟨out, t', hrun⟩ := exists_changed_of_any hchanged
  exact ⟨out, t', hrun, instrument_of_instrument calls names hrun⟩

end Transformer

end PluginGuard
