import PluginGuard.Hook.Injection
import PluginGuard.Proofs.ClassFile.Code.Relocation
import PluginGuard.Proofs.ClassFile.Naming

/-!
# What an edit leaves of a body

For any body, well formed or not: an edit only adds to the pool. Where it reports
a change the number of instructions is another, and otherwise the body is the one
that it was.
-/
namespace PluginGuard

open ClassFile

/-! ### Steps of editing -/

namespace Editing

variable {α β : Type} {w w' : Workpiece}

def Adds (m : Editing α) : Prop := ∀ w : Workpiece, w.pool.Extends (m.run.run w).2.pool

theorem adds_of_pool {m : Editing α} (h : ∀ w, (m.run.run w).2.pool = w.pool) : Adds m :=
  fun w => (h w).symm ▸ .refl w.pool

theorem Adds.bind {m : Editing α} {f : α → Editing β} (hm : Adds m) (hf : ∀ a, Adds (f a)) :
    Adds (m >>= f) := by
  intro w
  have h := hm w
  rw [ExceptT.run_bind, StateT.run_bind]
  generalize m.run.run w = x at h ⊢
  obtain ⟨r, w'⟩ := x
  cases r with
  | ok a => exact h.trans (hf a w')
  | error e => exact h

theorem adds_interned {step : Pool.Interning UInt16} (hstep : step.Adds) : Adds (interned step) :=
  fun w => hstep w.pool

theorem pool_onCode (f : Code → Except Fault Code) (w : Workpiece) :
    ((onCode f).run.run w).2.pool = w.pool := by
  change (onCode f w).2.pool = w.pool
  rw [onCode]
  cases f w.code with
  | ok code => rfl
  | error e => rfl

theorem adds_onCode (f : Code → Except Fault Code) : Adds (onCode f) :=
  adds_of_pool (pool_onCode f)

theorem adds_atEach (f : Code → Nat → Except Fault Code) (is : List Nat) : Adds (atEach f is) := by
  induction is with
  | nil => exact adds_of_pool fun _ => rfl
  | cons i is ih => exact (adds_onCode _).bind fun _ => ih

theorem onCode_eq_ok {f : Code → Except Fault Code} (h : (onCode f).run.run w = (.ok (), w')) :
    f w.code = .ok w'.code := by
  change onCode f w = _ at h
  rw [onCode] at h
  cases hf : f w.code with
  | ok code =>
    rw [hf] at h
    cases h
    rfl
  | error e =>
    rw [hf] at h
    cases h

theorem code_of_run_interned {step : Pool.Interning UInt16} {r : Except Fault UInt16}
    (h : (interned step).run.run w = (r, w')) : w'.code = w.code := by
  change interned step w = _ at h
  exact (congrArg (·.2.code) h).symm

theorem atEach_eq_ok {f : Code → Nat → Except Fault Code} {r : Nat → Nat → Prop}
    (trans : ∀ l m n, r l m → r m n → r l n) (step : ∀ c i c', f c i = .ok c' → r c.size c'.size)
    {i : Nat} {is : List Nat}
    (h : (atEach f (i :: is)).run.run w = (.ok (), w')) : r w.code.size w'.code.size := by
  induction is generalizing i w with
  | nil =>
    obtain ⟨_, w₁, hfirst, hrest⟩ := Fault.run_bind_eq_ok.mp h
    cases hrest
    exact step _ _ _ (onCode_eq_ok hfirst)
  | cons j is ih =>
    obtain ⟨_, w₁, hfirst, hrest⟩ := Fault.run_bind_eq_ok.mp h
    exact trans _ _ _ (step _ _ _ (onCode_eq_ok hfirst)) (ih hrest)

end Editing

/-! ### Edits -/

theorem Hook.adds_insertCall (h : Hook) (position : Position) :
    Editing.Adds (h.insertCall position) := by
  have hintern := (Pool.Request.member .method h.member).adds_intern
  refine (Editing.adds_interned hintern).bind fun k => ?_
  refine (Editing.adds_of_pool fun _ => rfl : Editing.Adds get).bind fun w => ?_
  have still (outcome : Outcome) : Editing.Adds (pure outcome) := Editing.adds_of_pool fun _ => rfl
  cases position with
  | begin =>
    change Editing.Adds (if h.inRun w.pool w.code.instructions then _ else _)
    split
    · exact still _
    · exact (Editing.adds_onCode _).bind fun _ => still _
  | end_ =>
    change Editing.Adds (if !w.code.instructions.any _ then _ else _)
    split
    · exact still _
    · generalize h.pendingExits w.pool w.code.instructions = pending
      cases pending with
      | nil => exact still _
      | cons => exact (Editing.adds_atEach _ _).bind fun _ => still _

theorem adds_excise (pattern : List InstructionPattern) : Editing.Adds (excise pattern) := by
  refine (Editing.adds_of_pool fun _ => rfl : Editing.Adds get).bind fun w => ?_
  have still (outcome : Outcome) : Editing.Adds (pure outcome) := Editing.adds_of_pool fun _ => rfl
  change Editing.Adds (if pattern.isEmpty then _ else _)
  split
  · exact still _
  · generalize occurrences w.pool pattern 0 0 [] w.code.instructions = places
    cases places with
    | nil => exact still _
    | cons => exact (Editing.adds_atEach _ _).bind fun _ => still _

def Outcome.Reports (outcome : Outcome) (c c' : Code) : Prop :=
  (∃ n, outcome = .changed n) ∧ c'.size ≠ c.size ∨ (∀ n, outcome ≠ .changed n) ∧ c' = c

variable {outcome : Outcome} {c : Code} {pool : Pool} {w : Workpiece}

inductive Hook.Inserts (k : UInt16) : Editing Unit → Prop
  | front : Inserts k (Editing.onCode (·.prepend [.invokeStatic k]))
  | exits (p : Nat) (ps : List Nat) :
    Inserts k (Editing.atEach (fun c i => c.insert i [.invokeStatic k]) (p :: ps))

section Runs

variable {r : Except Fault Outcome} {w' : Workpiece}

theorem Hook.insertCall_cases {h : Hook} {position : Position}
    (hrun : (h.insertCall position).run.run w = (r, w')) :
    w'.code = w.code ∧ (∀ n, r ≠ .ok (.changed n)) ∨
      ∃ k w₁ edit n, (Editing.interned (Pool.internMember .method h.member)).run.run w =
        (.ok k, w₁) ∧ Inserts k edit ∧
          (edit >>= fun _ => pure (.changed n)).run.run w₁ = (r, w') := by
  rw [insertCall] at hrun
  cases hintern : (Editing.interned (Pool.internMember .method h.member)).run.run w with
  | mk answer w₁ =>
    have hcode : w₁.code = w.code := Editing.code_of_run_interned hintern
    cases answer with
    | error e =>
      rw [ExceptT.run_bind, StateT.run_bind, hintern] at hrun
      cases hrun
      exact .inl ⟨hcode, fun _ => nofun⟩
    | ok k =>
      rw [Fault.run_bind_of_eq_ok hintern] at hrun
      cases position with
      | begin =>
        change (if h.inRun w₁.pool w₁.code.instructions then _ else _ : Editing Outcome) _ = _ at hrun
        split at hrun
        · cases hrun
          exact .inl ⟨hcode, fun _ => nofun⟩
        · exact .inr ⟨k, w₁, _, 1, rfl, .front, hrun⟩
      | end_ =>
        change (if !w₁.code.instructions.any _ then _ else _ : Editing Outcome) _ = _ at hrun
        split at hrun
        · cases hrun
          exact .inl ⟨hcode, fun _ => nofun⟩
        · generalize h.pendingExits w₁.pool w₁.code.instructions = pending at hrun
          cases pending with
          | nil =>
            cases hrun
            exact .inl ⟨hcode, fun _ => nofun⟩
          | cons p ps => exact .inr ⟨k, w₁, _, _, rfl, .exits p ps, hrun⟩

theorem run_excise (pattern : List InstructionPattern) (w : Workpiece) :
    let places := occurrences w.pool pattern 0 0 [] w.code.instructions
    (excise pattern).run.run w = if pattern = [] ∨ places = [] then (.ok .noMatch, w) else
      (Editing.atEach (fun c i => c.remove i (i + pattern.length)) places >>= fun _ =>
        pure (.changed places.length) : Editing Outcome).run.run w := by
  change (if pattern.isEmpty then _ else _ : Editing Outcome) w = _
  generalize occurrences w.pool pattern 0 0 [] w.code.instructions = places
  cases pattern with
  | nil => rfl
  | cons p pattern =>
    cases places with
    | nil => rfl
    | cons i places => rfl

end Runs

theorem Hook.reports_of_insertCall {h : Hook} {position : Position}
    (hrun : (h.insertCall position).run.run ⟨c, pool⟩ = (.ok outcome, w)) :
    outcome.Reports c w.code := by
  obtain ⟨hcode, hunchanged⟩ | ⟨k, w₁, edit, n, hintern, inserts, hrest⟩ := insertCall_cases hrun
  · exact .inr ⟨fun n heq => hunchanged n (heq ▸ rfl), hcode⟩
  · obtain rfl : w₁.code = c := Editing.code_of_run_interned hintern
    obtain ⟨_, w₂, hedit, hdone⟩ := Fault.run_bind_eq_ok.mp hrest
    cases hdone
    refine .inl ⟨⟨n, rfl⟩, Nat.ne_of_gt ?_⟩
    cases inserts with
    | front =>
      rw [Code.size_prepend (Editing.onCode_eq_ok hedit), List.length_singleton]
      exact Nat.lt_add_of_pos_left Nat.one_pos
    | exits p ps =>
      -- Every single insertion makes the body longer.
      exact Editing.atEach_eq_ok (r := (· < ·)) (fun _ _ _ => Nat.lt_trans)
        (fun _ _ _ h => by rw [Code.size_insert h, List.length_singleton]; omega) hedit

theorem run_excise_eq_ok {pattern : List InstructionPattern} {w' : Workpiece}
    (hrun : (excise pattern).run.run w = (.ok outcome, w')) :
    let places := occurrences w.pool pattern 0 0 [] w.code.instructions
    (pattern = [] ∨ places = []) ∧ outcome = .noMatch ∧ w' = w ∨
      places ≠ [] ∧ outcome = .changed places.length ∧
        (Editing.atEach (fun c i => c.remove i (i + pattern.length)) places).run.run w =
          (.ok (), w') := by
  rw [run_excise] at hrun
  split at hrun
  · next hnone =>
    cases hrun
    exact .inl ⟨hnone, rfl, rfl⟩
  · next hsome =>
    obtain ⟨_, w₂, hedit, hdone⟩ := Fault.run_bind_eq_ok.mp hrun
    cases hdone
    exact .inr ⟨(not_or.mp hsome).2, rfl, hedit⟩

theorem reports_of_excise {pattern : List InstructionPattern}
    (hrun : (excise pattern).run.run ⟨c, pool⟩ = (.ok outcome, w)) : outcome.Reports c w.code := by
  obtain ⟨-, rfl, rfl⟩ | ⟨hplaces, rfl, hedit⟩ := run_excise_eq_ok hrun
  · exact .inr ⟨fun _ => nofun, rfl⟩
  · obtain ⟨i, places, hcons⟩ := List.exists_cons_of_ne_nil hplaces
    rw [hcons] at hedit
    -- Every single removal makes the body shorter.
    have hsize := Editing.atEach_eq_ok (r := (· > ·)) (fun _ _ _ h h' => Nat.lt_trans h' h)
      (fun _ _ _ => Code.size_remove) hedit
    exact .inl ⟨⟨_, rfl⟩, Nat.ne_of_lt hsize⟩

namespace Injection

variable {i : Injection}

theorem extends_of_apply (happly : i.apply c pool = (.ok outcome, w)) : pool.Extends w.pool := by
  have adds : Editing.Adds i.edit.apply := by
    cases i.edit with
    | call hook position => exact hook.adds_insertCall position
    | excise pattern => exact adds_excise pattern
  exact (congrArg (·.2.pool) happly) ▸ adds ⟨c, pool⟩

theorem reports_of_apply (happly : i.apply c pool = (.ok outcome, w)) :
    outcome.Reports c w.code := by
  rw [apply] at happly
  cases hedit : i.edit with
  | call hook position =>
    rw [hedit] at happly
    exact Hook.reports_of_insertCall happly
  | excise pattern =>
    rw [hedit] at happly
    exact reports_of_excise happly

end Injection

end PluginGuard
