import PluginGuard.Proofs.Hook.Presence
import PluginGuard.Proofs.Hook.Rejection

/-!
# Hooks of different owners

The run in which a call is looked for ends at a call of another owner. So at one position the hooks
of one owner only are found at a time: an insertion for one owner that is repeated after one for
another puts its calls in once more, wherever the position has a place for them.
-/
namespace PluginGuard

open ClassFile

namespace Hook

variable {g h : Hook} {pool : Pool} {i : Instruction} {is : List Instruction} {position : Position}

/-! ### Whose calls are found -/

theorem owner_eq_of_siblings (hg : g.siblingCalledBy pool i = true)
    (hh : h.siblingCalledBy pool i = true) : g.owner = h.owner := by
  obtain ⟨m, hm, howner, -⟩ := siblingCalledBy_iff.mp hg
  obtain ⟨m', hm', howner', -⟩ := siblingCalledBy_iff.mp hh
  obtain rfl : m = m' := Option.some.inj (hm.symm.trans hm')
  exact howner.symm.trans howner'

/-- A run begins with a call of its owner, which is where the runs of other owners end. -/
theorem inRun_eq_false_of_other (howner : g.owner ≠ h.owner) (hrun : h.inRun pool is = true) :
    g.inRun pool is = false := by
  cases is with
  | nil => cases hrun
  | cons i is =>
    rw [inRun_cons, Bool.and_eq_true] at hrun
    have hother : g.siblingCalledBy pool i = false :=
      Bool.eq_false_iff.mpr fun hg => howner (owner_eq_of_siblings hg hrun.1)
    rw [inRun_cons, hother, Bool.false_and]

theorem missing_of_other (howner : g.owner ≠ h.owner) (present : h.Present pool position is) :
    g.missing pool position is = position.sites is := by
  cases position with
  | begin =>
    rw [missing, inRun_eq_false_of_other howner present]
    rfl
  | end_ =>
    change h.pendingExits pool is = [] at present
    change (g.pendingExits pool is).length = is.countP fun i => Opcode.isReturn i.opcode
    -- From the end: a return that needs no call of `h` has one right before it.
    induction is using List.reverseRecOn with
    | nil => rfl
    | append_singleton is i ih =>
      rw [pendingExits_append_singleton] at present ⊢
      rw [List.countP_append, List.countP_singleton]
      cases hreturn : Opcode.isReturn i.opcode with
      | false =>
        rw [hreturn] at present
        exact ih present
      | true =>
        rw [hreturn, Bool.true_and] at present
        split at present
        · cases present
        · next hrun =>
          rw [Bool.not_eq_true', Bool.not_eq_false] at hrun
          rw [inRun_eq_false_of_other howner hrun]
          exact congrArg (· + 1) (ih present)

/-! ### Bodies with frames out of order -/

variable {c c' : Code} {k : UInt16} {w : Workpiece} {outcome : Outcome}

/-- A body with frames out of order takes no call, so there an insertion can only find its own. -/
theorem unchanged_of_insertCall (unordered : ¬∀ a ∈ c.attributes, a.Ordered)
    (hrun : (h.insertCall position).run.run ⟨c, pool⟩ = (.ok outcome, w)) :
    w.code = c ∧ h.Present w.pool position c.instructions ∧
      ∃ k, (Pool.internMember .method h.member).run.run pool = (.ok k, w.pool) := by
  obtain ⟨k, pool', hintern⟩ := exists_run_intern hrun
  rw [run_insertCall hintern] at hrun
  split at hrun
  · next hsites =>
    cases hrun
    exact ⟨rfl, missing_eq_zero.mp (missing_eq_zero_of_sites hsites), k, hintern⟩
  · split at hrun
    · next hpresent =>
      cases hrun
      exact ⟨rfl, missing_eq_zero.mp hpresent, k, hintern⟩
    · next hmissing =>
      obtain ⟨_, _, hputs, -⟩ := Fault.run_bind_eq_ok.mp hrun
      refine absurd ?_ unordered
      cases position with
      | begin =>
        rw [puts] at hputs
        exact (Code.prepend_eq_ok.mp (Editing.onCode_eq_ok hputs)).1
      | end_ =>
        obtain ⟨n, ns, hpending⟩ := List.exists_cons_of_length_pos (Nat.pos_of_ne_zero hmissing)
        rw [puts, hpending] at hputs
        obtain ⟨_, _, hfirst, -⟩ := Fault.run_bind_eq_ok.mp hputs
        exact (Code.insert_eq_ok.mp (Editing.onCode_eq_ok hfirst)).2.1

theorem found_of_insertCall (hpool : pool.size < 65536)
    (hrun : (h.insertCall position).run.run ⟨c, pool⟩ = (.ok outcome, w)) :
    h.Present w.pool position w.code.instructions ∧
      ∃ k, (Pool.internMember .method h.member).run.run pool = (.ok k, w.pool) := by
  by_cases ordered : ∀ a ∈ c.attributes, a.Ordered
  · exact ⟨present_of_insertCall ordered hpool hrun, run_intern_of_insertCall ordered hrun⟩
  · obtain ⟨rfl, present, hintern⟩ := unchanged_of_insertCall ordered hrun
    exact ⟨present, hintern⟩

/-! ### How many calls an insertion puts in -/

def Stable (p : Instruction → Bool) : Prop := ∀ i f, p (i.mapTargets f) = p i

theorem Stable.countP_map {p : Instruction → Bool} (stable : Stable p) (f : Nat → Nat)
    (is : List Instruction) : (is.map (Instruction.mapTargets f)).countP p = is.countP p := by
  rw [List.countP_map]
  exact List.countP_congr fun i _ => by rw [Function.comp_apply, stable]

theorem Stable.countP_prepend {p : Instruction → Bool} (stable : Stable p)
    {new : List Instruction} (hc : c.prepend new = .ok c') :
    c'.instructions.countP p = c.instructions.countP p + new.countP p := by
  obtain ⟨-, rfl⟩ := Code.prepend_eq_ok.mp hc
  rw [Code.prepended, List.countP_append, stable.countP_map, Nat.add_comm]

theorem Stable.countP_insert {p : Instruction → Bool} (stable : Stable p)
    {new : List Instruction} {n : Nat} (hc : c.insert n new = .ok c') :
    c'.instructions.countP p = c.instructions.countP p + new.countP p := by
  obtain ⟨-, -, rfl⟩ := Code.insert_eq_ok.mp hc
  have hsplit := congrArg (List.countP p) (List.take_append_drop n c.instructions)
  rw [List.countP_append] at hsplit
  rw [Code.inserted, List.countP_append, List.countP_append, stable.countP_map, stable.countP_map,
    ← hsplit]
  omega

theorem Stable.countP_atEach {p : Instruction → Bool} (stable : Stable p)
    {new : List Instruction} {ns : List Nat} {w w' : Workpiece}
    (hrun : (Editing.atEach (fun c n => c.insert n new) ns).run.run w = (.ok (), w')) :
    w'.code.instructions.countP p = w.code.instructions.countP p + ns.length * new.countP p := by
  induction ns generalizing w with
  | nil =>
    cases hrun
    rw [List.length_nil, Nat.zero_mul, Nat.add_zero]
  | cons n ns ih =>
    obtain ⟨_, w₁, hfirst, hrest⟩ := Fault.run_bind_eq_ok.mp hrun
    rw [ih hrest, stable.countP_insert (Editing.onCode_eq_ok hfirst), List.length_cons,
      Nat.succ_mul]
    omega

theorem insertCall_eq_ok_of_settled (hpool : pool.size < 65536)
    (hintern : (Pool.internMember .method h.member).run.run pool = (.ok k, pool))
    (hrun : (h.insertCall position).run.run ⟨c, pool⟩ = (.ok outcome, w)) :
    (outcome = if position.sites c.instructions = 0 then .noMatch
      else if h.missing pool position c.instructions = 0 then .alreadyPresent
      else .changed (h.missing pool position c.instructions)) ∧
    w.code.instructions.countP (h.calledBy pool) =
      c.instructions.countP (h.calledBy pool) + h.missing pool position c.instructions := by
  have stable : Stable (h.calledBy pool) := calledBy_mapTargets h pool
  have hcall : [Instruction.invokeStatic k].countP (h.calledBy pool) = 1 := by
    rw [List.countP_singleton,
      calledBy_iff.mpr (callee?_invokeStatic (interned_of_run hpool hintern).member)]
    rfl
  rw [run_insertCall hintern] at hrun
  split at hrun
  · next hsites =>
    cases hrun
    rw [if_pos hsites, missing_eq_zero_of_sites hsites]
    exact ⟨rfl, rfl⟩
  · next hsites =>
    rw [if_neg hsites]
    split at hrun
    · next hpresent =>
      cases hrun
      rw [if_pos hpresent, hpresent]
      exact ⟨rfl, rfl⟩
    · next hmissing =>
      obtain ⟨_, _, hputs, hdone⟩ := Fault.run_bind_eq_ok.mp hrun
      cases hdone
      rw [if_neg hmissing]
      refine ⟨rfl, ?_⟩
      cases position with
      | begin =>
        have habsent : h.missing pool .begin c.instructions = 1 :=
          if_neg fun hrun => hmissing (if_pos hrun)
        rw [puts] at hputs
        rw [stable.countP_prepend (Editing.onCode_eq_ok hputs), hcall, habsent]
      | end_ => rw [stable.countP_atEach hputs, hcall, Nat.mul_one, missing]

theorem Present.insertCall_any (howner : g.owner = h.owner) (hpool : pool.size < 65536)
    (hrun : (g.insertCall position).run.run ⟨c, pool⟩ = (.ok outcome, w))
    (hext : pool.Extends w.pool) (present : h.Present pool position c.instructions) :
    h.Present w.pool position w.code.instructions := by
  by_cases ordered : ∀ a ∈ c.attributes, a.Ordered
  · exact present.insertCall howner ordered hpool hrun
  · rw [(unchanged_of_insertCall ordered hrun).1]
    exact present.extend hext

/-- A second owner finds nothing where the calls of the first one are, so its calls are put in, and
that takes frames in order. -/
theorem Present.ordered_of_other (howner : g.owner ≠ h.owner)
    (hrun : (h.insertCall position).run.run ⟨c, pool⟩ = (.ok outcome, w))
    (hext : pool.Extends w.pool) (hsites : position.sites w.code.instructions ≠ 0)
    (present : g.Present pool position c.instructions) : ∀ a ∈ c.attributes, a.Ordered := by
  by_contra unordered
  obtain ⟨hsame, found, -⟩ := unchanged_of_insertCall unordered hrun
  have hmissing := missing_of_other howner found
  rw [missing_eq_zero.mpr (present.extend hext), ← hsame] at hmissing
  exact hsites hmissing.symm

end Hook

namespace Injection

variable {i j : Injection} {a b : Hook} {position : Position} {c : Code} {pool : Pool}
variable {first second : Outcome} {w₁ w₂ : Workpiece}

/-- A call insertion that is repeated after one at the same position finds its calls, and leaves
the body alone, if the owners are the same or the position has no place in the body. Otherwise it
finds none of them and puts in all its calls again. -/
theorem repeated_after (hi : i.edit = .call a position) (hj : j.edit = .call b position)
    (hpool : pool.size < 65536) (hfirst : i.apply c pool = (.ok first, w₁))
    (hsecond : j.apply w₁.code w₁.pool = (.ok second, w₂)) :
    ∃ outcome w, i.apply w₂.code w₂.pool = (.ok outcome, w) ∧ w.pool = w₂.pool ∧
      if a.owner = b.owner ∨ position.sites w₂.code.instructions = 0 then
        w.code = w₂.code ∧
          outcome = if position.sites w₂.code.instructions = 0 then .noMatch else .alreadyPresent
      else
        outcome = .changed (position.sites w₂.code.instructions) ∧
          w.code.instructions.countP (a.calledBy w₂.pool) =
            w₂.code.instructions.countP (a.calledBy w₂.pool) +
              position.sites w₂.code.instructions := by
  rw [apply, hi] at hfirst
  rw [apply, hj] at hsecond
  obtain ⟨ha, k, hintern⟩ := Hook.found_of_insertCall hpool hfirst
  have hreached := (Hook.interned_of_run hpool hintern).reached
  obtain ⟨hb, k', hintern'⟩ := Hook.found_of_insertCall hreached hsecond
  have hinterned := Hook.interned_of_run hreached hintern'
  have hsettled := Pool.settles_internMember _ _ _ _ _ hintern _ hinterned.extends_
  rw [apply, hi]
  by_cases hfound : a.owner = b.owner ∨ position.sites w₂.code.instructions = 0
  · have present : a.Present w₂.pool position w₂.code.instructions := by
      obtain howner | hsites := hfound
      · exact ha.insertCall_any howner.symm hreached hsecond hinterned.extends_
      · exact Hook.missing_eq_zero.mp (Hook.missing_eq_zero_of_sites hsites)
    obtain ⟨outcome, -, hrun⟩ := Hook.exists_run_of_present hsettled present
    have hanswer := (Hook.insertCall_eq_ok_of_settled hinterned.reached hsettled hrun).1
    rw [if_pos (Hook.missing_eq_zero.mpr present)] at hanswer
    refine ⟨outcome, _, hrun, rfl, ?_⟩
    rw [if_pos hfound]
    exact ⟨rfl, hanswer⟩
  · obtain ⟨howner, hsites⟩ := not_or.mp hfound
    have hmissing : a.missing w₂.pool position w₂.code.instructions =
        position.sites w₂.code.instructions := Hook.missing_of_other howner hb
    have ordered := ha.ordered_of_other howner hsecond hinterned.extends_ hsites
    obtain ⟨_, _, _, -, -, -, hcode⟩ := Hook.exists_calls_of_insertCall ordered hreached hsecond
    have ordered' : ∀ x ∈ w₂.code.attributes, x.Ordered := hcode ▸ Code.ordered_threaded ordered
    obtain ⟨outcome, w, hrun⟩ :=
      Hook.exists_run_of_ordered position ordered' (Editing.run_interned hsettled)
    obtain ⟨-, k'', hagain⟩ := Hook.found_of_insertCall hinterned.reached hrun
    have hpool : w.pool = w₂.pool := congrArg Prod.snd (hagain.symm.trans hsettled)
    obtain ⟨hanswer, hcount⟩ := Hook.insertCall_eq_ok_of_settled hinterned.reached hsettled hrun
    rw [hmissing, if_neg hsites, if_neg hsites] at hanswer
    refine ⟨outcome, w, hrun, hpool, ?_⟩
    rw [if_neg hfound]
    exact ⟨hanswer, hmissing ▸ hcount⟩

def twoExits : Code :=
  .ofInstructions 1 0 [.simple 0x03, ⟨0x99, .branch 3⟩, .simple 0xB1, .simple 0xB1]

def leaving (owner : String) : Injection :=
  .call "i" (.of "a.B" "run" "()V") ⟨owner, "leave"⟩ .end_

def closing (owner : String) : Injection :=
  .call "j" (.of "a.B" "run" "()V") ⟨owner, "close"⟩ .end_

def overlaid (owner : String) : Except Fault Outcome × Workpiece :=
  let w := ((leaving "a/Hooks").apply twoExits .empty).2
  (closing owner).apply w.code w.pool

theorem leaving_twoExits : (leaving "a/Hooks").apply twoExits .empty =
    (.ok (.changed 2), ((leaving "a/Hooks").apply twoExits .empty).2) :=
  Prod.ext (by decide +kernel) rfl

theorem repeated_after_sibling :
    ∃ w₁ w₂ w, (leaving "a/Hooks").apply twoExits .empty = (.ok (.changed 2), w₁) ∧
      (closing "a/Hooks").apply w₁.code w₁.pool = (.ok (.changed 2), w₂) ∧
      (leaving "a/Hooks").apply w₂.code w₂.pool = (.ok .alreadyPresent, w) ∧
      w.code = w₂.code := by
  have hsecond : overlaid "a/Hooks" = (.ok (.changed 2), (overlaid "a/Hooks").2) :=
    Prod.ext (by decide +kernel) rfl
  have hsites : Position.end_.sites (overlaid "a/Hooks").2.code.instructions ≠ 0 := by
    decide +kernel
  obtain ⟨_, w, hthird, -, hcase⟩ :=
    repeated_after (a := ⟨"a/Hooks", "leave"⟩) (b := ⟨"a/Hooks", "close"⟩) rfl rfl (by decide)
      leaving_twoExits hsecond
  rw [if_pos (.inl rfl), if_neg hsites] at hcase
  obtain ⟨hcode, rfl⟩ := hcase
  exact ⟨_, _, w, leaving_twoExits, hsecond, hthird, hcode⟩

/-- The calls of the other owner stand between the returns and the calls that are looked for. -/
theorem added_again_after_other :
    ∃ w₁ w₂ w, (leaving "a/Hooks").apply twoExits .empty = (.ok (.changed 2), w₁) ∧
      (closing "b/Hooks").apply w₁.code w₁.pool = (.ok (.changed 2), w₂) ∧
      (leaving "a/Hooks").apply w₂.code w₂.pool = (.ok (.changed 2), w) ∧
      w.code ≠ w₂.code := by
  have hsecond : overlaid "b/Hooks" = (.ok (.changed 2), (overlaid "b/Hooks").2) :=
    Prod.ext (by decide +kernel) rfl
  have hthird : (leaving "a/Hooks").apply (overlaid "b/Hooks").2.code (overlaid "b/Hooks").2.pool =
      (.ok (.changed 2), ((leaving "a/Hooks").apply (overlaid "b/Hooks").2.code
        (overlaid "b/Hooks").2.pool).2) :=
    Prod.ext (by decide +kernel) rfl
  exact ⟨_, _, _, leaving_twoExits, hsecond, hthird, by decide +kernel⟩

end Injection

end PluginGuard
