import PluginGuard.Hook.Transformer
import PluginGuard.Proofs.Hook.Edits

/-!
# The course of a run

The injections of a transformer that are for a class pass over it one after the
other, each over what those before it left. What each of them does is said here
once, and from it what a whole run answers and which marks it leaves.
-/
namespace PluginGuard

open ClassFile

/-! ### One injection -/

namespace Injection

inductive AppliedTo (i : Injection) (k : ClassDef) : Option ClassDef × Pool → Prop
  | absent : k.findMethod? i.target.name i.target.descriptor = none → AppliedTo i k (none, k.pool)
  | bodiless {m : Nat} : k.findMethod? i.target.name i.target.descriptor = some m →
    k.body m = .ok none → AppliedTo i k (none, k.pool)
  | unchanged {m : Nat} {code : Code} {outcome : Outcome} {w : Workpiece} :
    k.findMethod? i.target.name i.target.descriptor = some m → k.body m = .ok (some code) →
    i.apply code k.pool = (.ok outcome, w) → (∀ n, outcome ≠ .changed n) →
    AppliedTo i k (none, w.pool)
  | changed {m n : Nat} {code : Code} {w : Workpiece} {k' : ClassDef} :
    k.findMethod? i.target.name i.target.descriptor = some m → k.body m = .ok (some code) →
    i.apply code k.pool = (.ok (.changed n), w) →
    ({ k with pool := w.pool }).setBody m w.code = .ok k' → AppliedTo i k (some k', k'.pool)

variable {i : Injection} {k k' : ClassDef} {r : Option ClassDef × Pool} {internal : String}

theorem appliedTo_of_applyTo (h : i.applyTo k = .ok r) : i.AppliedTo k r := by
  rw [applyTo] at h
  cases hfound : k.findMethod? i.target.name i.target.descriptor with
  | none =>
    rw [hfound] at h
    cases h
    exact .absent hfound
  | some m =>
    rw [hfound] at h
    obtain ⟨code?, hbody, h⟩ := Fallible.bind_eq_ok.mp h
    cases code? with
    | none =>
      cases h
      exact .bodiless hfound hbody
    | some code =>
      obtain ⟨outcome, houtcome, h⟩ := Fallible.bind_eq_ok.mp h
      have happly : i.apply code k.pool = (.ok outcome, (i.apply code k.pool).2) :=
        Prod.ext houtcome rfl
      cases outcome with
      | changed n =>
        obtain ⟨k', hset, h⟩ := Fallible.bind_eq_ok.mp h
        cases h
        exact .changed hfound hbody happly hset
      | alreadyPresent =>
        cases h
        exact .unchanged hfound hbody happly (by simp)
      | noMatch =>
        cases h
        exact .unchanged hfound hbody happly (by simp)

/-- The injection makes `k'` of the class, with another body for the method that it finds. -/
def Edits (i : Injection) (k k' : ClassDef) : Prop :=
  ∃ m code outcome w, k.findMethod? i.target.name i.target.descriptor = some m ∧
    k.body m = .ok (some code) ∧ i.apply code k.pool = (.ok outcome, w) ∧ w.code ≠ code ∧
    ({ k with pool := w.pool }).setBody m w.code = .ok k'

theorem applyTo_of_edits (h : i.Edits k k') : i.applyTo k = .ok (some k', k'.pool) := by
  obtain ⟨m, code, outcome, w, hfound, hbody, happly, hne, hset⟩ := h
  obtain ⟨⟨n, rfl⟩, -⟩ | ⟨-, hsame⟩ := reports_of_apply happly
  · rw [applyTo, hfound]
    refine Fallible.bind_eq_ok.mpr ⟨some code, hbody, ?_⟩
    simp only [happly]
    exact Fallible.bind_eq_ok.mpr ⟨_, rfl, Fallible.bind_eq_ok.mpr ⟨k', hset, rfl⟩⟩
  · exact absurd hsame hne

theorem applyTo_eq_edited_iff {pool : Pool} :
    i.applyTo k = .ok (some k', pool) ↔ i.Edits k k' ∧ pool = k'.pool := by
  constructor
  · intro h
    cases appliedTo_of_applyTo h with
    | @changed m n code w _ hfound hbody happly hset =>
      obtain ⟨-, hsize⟩ | ⟨hunchanged, -⟩ := reports_of_apply happly
      · exact ⟨⟨m, code, _, w, hfound, hbody, happly, fun h => hsize (h ▸ rfl), hset⟩, rfl⟩
      · exact absurd rfl (hunchanged n)
  · rintro ⟨h, rfl⟩
    exact applyTo_of_edits h

/-- The class as the injection leaves it. Injections for other classes do nothing. -/
def pass (internal : String) (k : ClassDef) (i : Injection) : Except Fault ClassDef :=
  if i.target.className = internal then
    (i.applyTo k).map fun r => r.1.getD { k with pool := r.2 }
  else .ok k

def passAll (internal : String) (k : ClassDef) (is : List Injection) : Except Fault ClassDef :=
  is.foldlM (pass internal) k

theorem pass_of_ne (h : i.target.className ≠ internal) : i.pass internal k = .ok k := if_neg h

theorem pass_of_applyTo (hclass : i.target.className = internal) (h : i.applyTo k = .ok r) :
    i.pass internal k = .ok (r.1.getD { k with pool := r.2 }) := by
  rw [pass, if_pos hclass, h]
  rfl

theorem pass_cases (h : i.pass internal k = .ok k') :
    (i.target.className ≠ internal ∧ k' = k) ∨
      i.target.className = internal ∧
        ∃ r, i.AppliedTo k r ∧ k' = r.1.getD { k with pool := r.2 } := by
  by_cases hclass : i.target.className = internal
  · rw [pass, if_pos hclass] at h
    cases happly : i.applyTo k with
    | error cause =>
      rw [happly] at h
      cases h
    | ok r =>
      rw [happly] at h
      cases h
      exact .inr ⟨hclass, r, appliedTo_of_applyTo happly, rfl⟩
  · rw [pass_of_ne hclass] at h
    cases h
    exact .inl ⟨hclass, rfl⟩

theorem passAll_cons {is : List Injection} (h : i.pass internal k = .ok k') :
    passAll internal k (i :: is) = passAll internal k' is := by
  rw [passAll, List.foldlM_cons, h]
  rfl

structure Meets (internal : String) (k : ClassDef) (is : List Injection) (place : Nat)
    (i : Injection) (c : ClassDef) : Prop where
  listed : is[place]? = some i
  concerned : i.target.className = internal
  reached : passAll internal k (is.take place) = .ok c

section Meets

variable {is : List Injection} {place : Nat} {j : Injection} {c : ClassDef}

theorem meets_zero :
    Meets internal k (i :: is) 0 j c ↔ i = j ∧ j.target.className = internal ∧ k = c := by
  constructor
  · rintro ⟨⟨⟩, hclass, ⟨⟩⟩
    exact ⟨rfl, hclass, rfl⟩
  · rintro ⟨rfl, hclass, rfl⟩
    exact ⟨rfl, hclass, rfl⟩

theorem meets_succ (h : i.pass internal k = .ok k') :
    Meets internal k (i :: is) (place + 1) j c ↔ Meets internal k' is place j c := by
  constructor
  · rintro ⟨hlisted, hclass, hreached⟩
    exact ⟨hlisted, hclass, (passAll_cons h).symm.trans hreached⟩
  · rintro ⟨hlisted, hclass, hreached⟩
    exact ⟨hlisted, hclass, (passAll_cons h).trans hreached⟩

theorem not_meets_succ {cause : Fault} (h : i.pass internal k = .error cause) :
    ¬Meets internal k (i :: is) (place + 1) j c := by
  rintro ⟨-, -, hreached⟩
  rw [List.take_succ_cons, passAll, List.foldlM_cons, h] at hreached
  cases hreached

def EditsAt (internal : String) (k : ClassDef) (is : List Injection) (place : Nat) : Prop :=
  ∃ i c c', Meets internal k is place i c ∧ i.Edits c c'

theorem editsAt_zero :
    EditsAt internal k (i :: is) 0 ↔ i.target.className = internal ∧ ∃ k', i.Edits k k' := by
  constructor
  · rintro ⟨j, c, c', hmeets, hedits⟩
    obtain ⟨rfl, hclass, rfl⟩ := meets_zero.mp hmeets
    exact ⟨hclass, c', hedits⟩
  · rintro ⟨hclass, k', hedits⟩
    exact ⟨i, k, k', meets_zero.mpr ⟨rfl, hclass, rfl⟩, hedits⟩

theorem editsAt_succ (h : i.pass internal k = .ok k') :
    EditsAt internal k (i :: is) (place + 1) ↔ EditsAt internal k' is place := by
  simp only [EditsAt, meets_succ h]

end Meets

end Injection

namespace Transformer

open Injection

variable {internal : String} {e : Installed} {es es' : List Installed} {p p' : Progress}

/-! ### A run over a class -/

theorem applyAll_cons (internal : String) (e : Installed) (es : List Installed) (p : Progress) :
    (∃ cause, e.injection.pass internal p.cls = .error cause ∧
      (¬∃ k, e.injection.Edits p.cls k) ∧
      applyAll internal (e :: es) p = (.error (editError e.injection cause), e :: es)) ∨
    (∃ k, e.injection.pass internal p.cls = .ok k ∧ k = { p.cls with pool := k.pool } ∧
      (e.injection.target.className = internal → ¬∃ k', e.injection.Edits p.cls k') ∧
      let rest := applyAll internal es { p with cls := k }
      applyAll internal (e :: es) p = (rest.1, e :: rest.2)) ∨
    (∃ k, e.injection.pass internal p.cls = .ok k ∧
      e.injection.target.className = internal ∧ e.injection.Edits p.cls k ∧
      let rest := applyAll internal es ⟨k, true⟩
      applyAll internal (e :: es) p = (rest.1, { e with applied := true } :: rest.2)) := by
  by_cases hclass : e.injection.target.className = internal
  · simp only [applyAll, beq_iff_eq, hclass, if_true]
    cases happly : e.injection.applyTo p.cls with
    | error cause =>
      refine .inl ⟨cause, by rw [Injection.pass, if_pos hclass, happly]; rfl, ?_, rfl⟩
      rintro ⟨k, hedits⟩
      cases happly.symm.trans (applyTo_of_edits hedits)
    | ok r =>
      have hpass := pass_of_applyTo hclass happly
      obtain ⟨_ | k, pool⟩ := r
      · refine .inr (.inl ⟨_, hpass, rfl, fun _ => ?_, rfl⟩)
        rintro ⟨k, hedits⟩
        cases happly.symm.trans (applyTo_of_edits hedits)
      · exact .inr (.inr ⟨k, hpass, trivial, (applyTo_eq_edited_iff.mp happly).1, rfl⟩)
  · refine .inr (.inl ⟨p.cls, pass_of_ne hclass, rfl, fun h => absurd h hclass, ?_⟩)
    simp only [applyAll, beq_iff_eq, hclass, if_false]

theorem injections_applyAll (internal : String) (es : List Installed) (p : Progress) :
    (applyAll internal es p).2.map (·.injection) = es.map (·.injection) := by
  induction es generalizing p with
  | nil => rfl
  | cons e es ih =>
    obtain ⟨_, -, -, h⟩ | ⟨k, -, -, -, h⟩ | ⟨k, -, -, -, h⟩ := applyAll_cons internal e es p
    · rw [h]
    · rw [h, List.map_cons, List.map_cons, ih]
    · rw [h, List.map_cons, List.map_cons, ih]

theorem exists_mark_of_applyAll (internal : String) (p : Progress) {place : Nat}
    (he : es[place]? = some e) :
    ∃ e', (applyAll internal es p).2[place]? = some e' ∧ e'.injection = e.injection ∧
      (e'.applied = true ↔ e.applied = true ∨
        EditsAt internal p.cls (es.map (·.injection)) place) := by
  induction es generalizing p place with
  | nil => cases he
  | cons d es ih =>
    rw [List.map_cons]
    obtain ⟨_, hpass, hnone, h⟩ | ⟨k, hpass, -, hnone, h⟩ | ⟨k, hpass, hclass, hedits, h⟩ :=
      applyAll_cons internal d es p
    · rw [h]
      refine ⟨e, he, rfl, (or_iff_left fun hat => ?_).symm⟩
      cases place with
      | zero => exact hnone (editsAt_zero.mp hat).2
      | succ place =>
        -- The run stopped in front of this place.
        obtain ⟨_, _, _, hmeets, -⟩ := hat
        exact not_meets_succ hpass hmeets
    · rw [h]
      cases place with
      | zero =>
        cases he
        exact ⟨e, rfl, rfl, (or_iff_left fun hat =>
          hnone (editsAt_zero.mp hat).1 (editsAt_zero.mp hat).2).symm⟩
      | succ place =>
        simp only [editsAt_succ hpass]
        exact ih { p with cls := k } he
    · rw [h]
      cases place with
      | zero =>
        cases he
        exact ⟨_, rfl, rfl, iff_of_true rfl (.inr (editsAt_zero.mpr ⟨hclass, k, hedits⟩))⟩
      | succ place =>
        simp only [editsAt_succ hpass]
        exact ih ⟨k, true⟩ he

inductive Course (internal : String) :
    List Installed → Progress → Progress → List Installed → Prop
  | done {p : Progress} : Course internal [] p p []
  | still {e : Installed} {es es' : List Installed} {p p' : Progress} {k : ClassDef} :
    e.injection.pass internal p.cls = .ok k → k = { p.cls with pool := k.pool } →
    (e.injection.target.className = internal → ¬∃ k', e.injection.Edits p.cls k') →
    Course internal es { p with cls := k } p' es' → Course internal (e :: es) p p' (e :: es')
  | edited {e : Installed} {es es' : List Installed} {p p' : Progress} {k : ClassDef} :
    e.injection.pass internal p.cls = .ok k → e.injection.target.className = internal →
    e.injection.Edits p.cls k → Course internal es ⟨k, true⟩ p' es' →
    Course internal (e :: es) p p' ({ e with applied := true } :: es')

theorem course_of_applyAll (hrun : applyAll internal es p = (.ok p', es')) :
    Course internal es p p' es' := by
  induction es generalizing p es' with
  | nil =>
    cases hrun
    exact .done
  | cons e es ih =>
    obtain ⟨_, -, -, h⟩ | ⟨k, hpass, hk, hnone, h⟩ | ⟨k, hpass, hclass, hedits, h⟩ :=
      applyAll_cons internal e es p
    · cases h.symm.trans hrun
    · obtain ⟨hrest, rfl⟩ := Prod.mk.inj (h.symm.trans hrun)
      exact .still hpass hk hnone (ih (Prod.ext hrest rfl))
    · obtain ⟨hrest, rfl⟩ := Prod.mk.inj (h.symm.trans hrun)
      exact .edited hpass hclass hedits (ih (Prod.ext hrest rfl))

namespace Course

theorem passAll (h : Course internal es p p' es') :
    passAll internal p.cls (es.map (·.injection)) = .ok p'.cls := by
  induction h with
  | done => rfl
  | still hpass _ _ _ ih | edited hpass _ _ _ ih =>
    rw [List.map_cons, passAll_cons hpass]
    exact ih

theorem changed (h : Course internal es p p' es') :
    p'.changed = true ↔
      p.changed = true ∨ ∃ place, EditsAt internal p.cls (es.map (·.injection)) place := by
  induction h with
  | done =>
    refine (or_iff_left ?_).symm
    rintro ⟨place, i, _, _, hmeets, -⟩
    cases hmeets.listed
  | still hpass _ hnone _ ih =>
    rw [ih, List.map_cons]
    refine or_congr_right ⟨fun ⟨place, hat⟩ => ⟨place + 1, (editsAt_succ hpass).mpr hat⟩, ?_⟩
    rintro ⟨_ | place, hat⟩
    · exact absurd (editsAt_zero.mp hat).2 (hnone (editsAt_zero.mp hat).1)
    · exact ⟨place, (editsAt_succ hpass).mp hat⟩
  | @edited _ _ _ _ _ k _ hclass hedits _ ih =>
    exact iff_of_true (ih.mpr (.inl rfl)) (.inr ⟨0, editsAt_zero.mpr ⟨hclass, k, hedits⟩⟩)

theorem untouched (h : Course internal es p p' es') (hunchanged : p'.changed = false) :
    p.changed = false ∧ p'.cls = { p.cls with pool := p'.cls.pool } ∧ es' = es := by
  induction h with
  | done => exact ⟨hunchanged, rfl, rfl⟩
  | still _ hk _ _ ih =>
    obtain ⟨hp, hcls, rfl⟩ := ih hunchanged
    rw [hk] at hcls
    exact ⟨hp, hcls, rfl⟩
  | edited _ _ _ _ ih => cases (ih hunchanged).1

theorem rule {I : ClassDef → Prop} {Q : Injection → ClassDef → Prop}
    (h : Course internal es p p' es')
    (step : ∀ e ∈ es, ∀ k k', I k → e.injection.pass internal k = .ok k' →
      I k' ∧ (e.injection.target.className = internal → Q e.injection k') ∧ ∀ i, Q i k → Q i k')
    (hp : I p.cls) :
    I p'.cls ∧ (∀ e ∈ es, e.injection.target.className = internal → Q e.injection p'.cls) ∧
      ∀ i, Q i p.cls → Q i p'.cls := by
  induction h with
  | done => exact ⟨hp, List.forall_mem_nil _, fun _ h => h⟩
  | still hpass _ _ _ ih | edited hpass _ _ _ ih =>
    obtain ⟨he, step⟩ := List.forall_mem_cons.mp step
    obtain ⟨hk, hown, hkeep⟩ := he _ _ hp hpass
    obtain ⟨hp', hothers, hkeep'⟩ := ih step hk
    exact ⟨hp', List.forall_mem_cons.mpr ⟨fun hclass => hkeep' _ (hown hclass), hothers⟩,
      fun i hi => hkeep' i (hkeep i hi)⟩

end Course

theorem applyAll_of_settled (settled : ∀ e ∈ es, e.injection.target.className = internal →
    e.injection.applyTo p.cls = .ok (none, p.cls.pool)) : applyAll internal es p = (.ok p, es) := by
  induction es with
  | nil => rfl
  | cons e es ih =>
    obtain ⟨he, settled⟩ := List.forall_mem_cons.mp settled
    by_cases hclass : e.injection.target.className = internal
    · simp only [applyAll, beq_iff_eq, hclass, if_true, he hclass, ih settled]
    · simp only [applyAll, beq_iff_eq, hclass, if_false, ih settled]

/-! ### Whole runs -/

theorem parseNamed_eq_ok {bytes : List UInt8} {k : ClassDef} :
    parseNamed internal bytes = .ok k ↔ ClassDef.parse bytes = .ok k ∧ k.name = .ok internal := by
  rw [parseNamed]
  cases hparse : ClassDef.parse bytes with
  | error cause => exact iff_of_false nofun nofun
  | ok c =>
    change ((c.name.mapError (InstrumentError.parse internal)).bind _) = _ ↔ _
    cases hname : c.name with
    | error cause =>
      refine iff_of_false nofun ?_
      rintro ⟨⟨⟩, h⟩
      cases hname.symm.trans h
    | ok actual =>
      change (if actual = internal then _ else _ : Except InstrumentError ClassDef) = _ ↔ _
      split
      · next h =>
        subst h
        constructor
        · rintro ⟨⟩
          exact ⟨rfl, hname⟩
        · rintro ⟨⟨⟩, -⟩
          rfl
      · next hne =>
        refine iff_of_false nofun ?_
        rintro ⟨⟨⟩, h⟩
        exact hne (Except.ok.inj (hname.symm.trans h))

theorem serialize_eq_ok {r : Instrumented} :
    serialize internal p = .ok r ↔ (p.changed = false ∧ r = .untouched) ∨
      p.changed = true ∧ ∃ bytes, p.cls.write = .ok bytes ∧ r = .changed bytes := by
  rw [serialize]
  cases p.changed with
  | false => simp [eq_comm]
  | true =>
    cases p.cls.write with
    | error cause =>
      change Except.error _ = _ ↔ _
      simp
    | ok bytes =>
      change Except.ok _ = _ ↔ _
      simp [eq_comm]

theorem targets_iff {t : Transformer} {name : String} :
    t.targets name = true ↔ ∃ i ∈ t.injections, i.target.className = internalName name := by
  have h : t.targets name = t.injections.any (·.target.className == internalName name) := by
    rw [injections, List.any_map]
    rfl
  simp only [h, List.any_eq_true, beq_iff_eq]

theorem course_of_instrument {t t' : Transformer} {name : String} {bytes : List UInt8}
    {r : Instrumented} (targeted : t.targets name = true)
    (hrun : t.instrument name bytes = (.ok r, t')) :
    ∃ k p, parseNamed (internalName name) bytes = .ok k ∧
      Course (internalName name) t.installed ⟨k, false⟩ p t'.installed ∧
      serialize (internalName name) p = .ok r := by
  simp only [instrument, targeted, if_true] at hrun
  split at hrun
  · cases hrun
  · next k hnamed =>
    obtain ⟨hresult, rfl⟩ := Prod.mk.inj hrun
    cases hprogress : (applyAll (internalName name) t.installed ⟨k, false⟩).1 with
    | error e =>
      rw [hprogress] at hresult
      cases hresult
    | ok p =>
      rw [hprogress] at hresult
      exact ⟨k, p, hnamed, course_of_applyAll (Prod.ext hprogress rfl), hresult⟩

theorem instrument_of_not_targets {t : Transformer} {name : String} (bytes : List UInt8)
    (h : t.targets name = false) : t.instrument name bytes = (.ok .untouched, t) := by
  rw [instrument, h]
  rfl

theorem exists_changed_of_any {answer : Except InstrumentError Instrumented × Transformer}
    (h : answer.1.toOption.any (· != .untouched) = true) :
    ∃ out t', answer = (.ok (.changed out), t') := by
  obtain ⟨_ | _ | out, t'⟩ := answer
  · cases h
  · cases h
  · exact ⟨out, t', rfl⟩

theorem injections_instrument (t : Transformer) (name : String) (bytes : List UInt8) :
    (t.instrument name bytes).2.injections = t.injections := by
  rw [instrument]
  split
  · split
    · rfl
    · exact injections_applyAll _ _ _
  · rfl

end Transformer

end PluginGuard
