import Mathlib.Data.List.Basic
import Mathlib.Data.Set.List
import PluginGuard.Hook.Injection
import PluginGuard.Proofs.ClassFile.Code.Paths
import PluginGuard.Proofs.ClassFile.Naming

/-!
# Insertions of calls

What an insertion makes of a body: the body threaded with the call, in front or
before the returns that are found to need it. Whether a call is inserted is read
off the text of the body, from the run of hook calls at the place.
-/
namespace PluginGuard

open ClassFile

namespace Hook

variable {h : Hook} {pool pool' : Pool} {i : Instruction} {is : List Instruction}

/-! ### Callees -/

theorem callee?_mapTargets (pool : Pool) (i : Instruction) (f : Nat → Nat) :
    callee? pool (i.mapTargets f) = callee? pool i := by
  obtain ⟨opcode, operand⟩ := i
  cases operand with
  | _ => rfl

theorem calledBy_mapTargets (h : Hook) (pool : Pool) (i : Instruction) (f : Nat → Nat) :
    h.calledBy pool (i.mapTargets f) = h.calledBy pool i := by
  rw [calledBy, calledBy, callee?_mapTargets]

theorem siblingCalledBy_mapTargets (h : Hook) (pool : Pool) (i : Instruction) (f : Nat → Nat) :
    h.siblingCalledBy pool (i.mapTargets f) = h.siblingCalledBy pool i := by
  rw [siblingCalledBy, siblingCalledBy, callee?_mapTargets]

theorem callee?_eq_some {m : MemberRef} :
    callee? pool i = some m ↔
      i.opcode = Opcode.invokeStatic ∧ ∃ k, i.constant? = some k ∧ pool.member k = .ok m := by
  have access : Opcode.isMemberAccess Opcode.invokeStatic = true := rfl
  by_cases hop : i.opcode = Opcode.invokeStatic
  · simp only [callee?, Instruction.member?, hop, access, beq_self_eq_true, if_true, true_and,
      Option.bind_eq_some_iff, Fault.toOption_eq_some_iff]
  · simp [callee?, hop]

theorem callee?_of_extends (hext : pool.Extends pool') {m : MemberRef}
    (hm : callee? pool i = some m) : callee? pool' i = some m := by
  obtain ⟨hop, k, hk, hmember⟩ := callee?_eq_some.mp hm
  exact callee?_eq_some.mpr ⟨hop, k, hk, hext.member hmember⟩

theorem callee?_eq_of_extends (hext : pool.Extends pool')
    (linked : i.opcode = Opcode.invokeStatic → ∃ m, callee? pool i = some m) :
    callee? pool' i = callee? pool i := by
  by_cases hop : i.opcode = Opcode.invokeStatic
  · obtain ⟨m, hm⟩ := linked hop
    rw [hm, callee?_of_extends hext hm]
  · simp [callee?, hop]

theorem callee?_invokeStatic {k : UInt16} {m : MemberRef} (hm : pool.member k = .ok m) :
    callee? pool (.invokeStatic k) = some m :=
  callee?_eq_some.mpr ⟨rfl, k, rfl, hm⟩

theorem calledBy_iff : h.calledBy pool i = true ↔ callee? pool i = some h.member := by
  rw [calledBy, beq_iff_eq]

theorem siblingCalledBy_iff :
    h.siblingCalledBy pool i = true ↔
      ∃ m, callee? pool i = some m ∧ m.owner = h.owner ∧ m.descriptor = descriptor := by
  rw [siblingCalledBy]
  cases callee? pool i with
  | none => simp
  | some m => simp

theorem siblingCalledBy_of_calledBy (hcall : h.calledBy pool i = true) :
    h.siblingCalledBy pool i = true :=
  siblingCalledBy_iff.mpr ⟨h.member, calledBy_iff.mp hcall, rfl, rfl⟩

theorem opcode_of_siblingCalledBy (hcall : h.siblingCalledBy pool i = true) :
    i.opcode = Opcode.invokeStatic := by
  obtain ⟨m, hm, -⟩ := siblingCalledBy_iff.mp hcall
  exact (callee?_eq_some.mp hm).1

/-! ### Runs of calls -/

theorem inRun_cons :
    h.inRun pool (i :: is) =
      (h.siblingCalledBy pool i && (h.calledBy pool i || h.inRun pool is)) := by
  rw [inRun, List.takeWhile_cons]
  cases h.siblingCalledBy pool i with
  | false => rfl
  | true => simp [inRun]

theorem inRun_eq_false (hnone : ∀ i ∈ is, h.calledBy pool i = false) :
    h.inRun pool is = false := by
  rw [inRun, List.any_eq_false]
  intro i hi
  simp [hnone i ((List.takeWhile_sublist _).subset hi)]

theorem exists_of_inRun (hrun : h.inRun pool is = true) :
    ∃ before call behind, is = before ++ call :: behind ∧ h.calledBy pool call = true ∧
      ∀ i ∈ before, h.siblingCalledBy pool i = true ∧ h.calledBy pool i = false := by
  induction is with
  | nil => cases hrun
  | cons i is ih =>
    rw [inRun_cons, Bool.and_eq_true, Bool.or_eq_true] at hrun
    obtain ⟨hsibling, hrun⟩ := hrun
    cases hcall : h.calledBy pool i with
    | true => exact ⟨[], i, is, rfl, hcall, List.forall_mem_nil _⟩
    | false =>
      obtain ⟨before, call, behind, rfl, hfound, hbefore⟩ :=
        ih (hrun.resolve_left (by simp [hcall]))
      exact ⟨i :: before, call, behind, rfl, hfound,
        List.forall_mem_cons.mpr ⟨⟨hsibling, hcall⟩, hbefore⟩⟩

/-! ### Returns that need a call -/

theorem foldl_scanExit (h : Hook) (pool : Pool) (is : List Instruction) :
    is.foldl (h.scanExit pool) ([], 0, false) =
      (h.pendingExits pool is, is.length, h.inRun pool is.reverse) := by
  induction is using List.reverseRecOn with
  | nil => rfl
  | append_singleton is i ih =>
    rw [pendingExits, List.foldl_append, ih, List.foldl_cons, List.foldl_nil, scanExit,
      List.length_append, List.length_singleton, List.reverse_append, List.reverse_singleton,
      List.singleton_append, inRun_cons, Bool.or_comm]

theorem pendingExits_append_singleton (h : Hook) (pool : Pool) (is : List Instruction)
    (i : Instruction) :
    h.pendingExits pool (is ++ [i]) =
      if Opcode.isReturn i.opcode && !h.inRun pool is.reverse then
        is.length :: h.pendingExits pool is
      else h.pendingExits pool is := by
  rw [pendingExits, List.foldl_append, foldl_scanExit]
  rfl

theorem mem_pendingExits {p : Nat} :
    p ∈ h.pendingExits pool is ↔
      ∃ i, is[p]? = some i ∧ Opcode.isReturn i.opcode = true ∧
        h.inRun pool (is.take p).reverse = false := by
  induction is using List.reverseRecOn with
  | nil => simp [pendingExits]
  | append_singleton is i ih =>
    have hmem : p ∈ h.pendingExits pool (is ++ [i]) ↔
        (p = is.length ∧ Opcode.isReturn i.opcode = true ∧ h.inRun pool is.reverse = false) ∨
          p ∈ h.pendingExits pool is := by
      rw [pendingExits_append_singleton]
      split
      · next hneeds =>
        obtain ⟨hreturn, hrun⟩ := by simpa using hneeds
        simp [hreturn, hrun]
      · next hneeds =>
        simp only [Bool.and_eq_true, Bool.not_eq_true', not_and] at hneeds
        exact (or_iff_right fun h => hneeds h.2.1 h.2.2).symm
    rw [hmem, ih]
    obtain hlt | rfl | hlt := Nat.lt_trichotomy p is.length
    · rw [List.getElem?_append_left hlt, List.take_append_of_le_length (Nat.le_of_lt hlt)]
      simp [Nat.ne_of_lt hlt]
    · simp
    · have hnone : is[p]? = none := List.getElem?_eq_none (Nat.le_of_lt hlt)
      have hnone' : (is ++ [i])[p]? = none := List.getElem?_eq_none (by simp; omega)
      simp [hnone, hnone', Nat.ne_of_gt hlt]

theorem pairwise_pendingExits (h : Hook) (pool : Pool) (is : List Instruction) :
    (h.pendingExits pool is).Pairwise (· > ·) := by
  induction is using List.reverseRecOn with
  | nil => exact .nil
  | append_singleton is i ih =>
    rw [pendingExits_append_singleton]
    split
    · refine List.pairwise_cons.mpr ⟨fun p hp => ?_, ih⟩
      obtain ⟨_, hp, -⟩ := mem_pendingExits.mp hp
      exact (List.getElem?_eq_some_iff.mp hp).1
    · exact ih

end Hook

/-! ### Steps of editing -/

namespace Editing

theorem run_interned {step : Pool.Interning UInt16} {w : Workpiece} {k : UInt16} {pool : Pool}
    (hstep : step.run.run w.pool = (.ok k, pool)) :
    (interned step).run.run w = (.ok k, ⟨w.code, pool⟩) := by
  change interned step w = _
  rw [interned, hstep]

theorem run_of_run_interned {step : Pool.Interning UInt16} {w w' : Workpiece} {k : UInt16}
    (h : (interned step).run.run w = (.ok k, w')) : step.run.run w.pool = (.ok k, w'.pool) := by
  change interned step w = _ at h
  rw [interned] at h
  generalize step.run.run w.pool = x at h ⊢
  obtain ⟨r, pool⟩ := x
  cases h
  rfl

theorem run_onCode {f : Code → Except Fault Code} {w : Workpiece} {code : Code}
    (hf : f w.code = .ok code) : (onCode f).run.run w = (.ok (), ⟨code, w.pool⟩) := by
  change onCode f w = _
  rw [onCode, hf]

variable {lead new : List Instruction} {gap : Nat → List Instruction} {c : Code} {pool : Pool}

/-- From the last place to the first, so that the places still to come stay where they are. -/
theorem run_atEach_insert (pool : Pool) (plain : Code.Plain lead gap)
    (hnew : ∀ i ∈ new, i.Straight) (ordered : ∀ a ∈ c.attributes, a.Ordered) {ks : List Nat}
    (hks : ks.Pairwise (· > ·))
    (hlt : ∀ k ∈ ks, k < c.size) :
    (atEach (fun c i => c.insert i new) (ks.map (place gap lead.length))).run.run
        ⟨c.threaded lead gap, pool⟩ =
      (.ok (), ⟨c.threaded lead fun k => if k ∈ ks then gap k ++ new else gap k, pool⟩) := by
  induction ks generalizing gap with
  | nil =>
    simp only [List.not_mem_nil, if_false]
    rfl
  | cons k ks ih =>
    obtain ⟨hbehind, hks⟩ := List.pairwise_cons.mp hks
    obtain ⟨hk, hlt⟩ := List.forall_mem_cons.mp hlt
    have hplaces : ks.map (place gap lead.length) =
        ks.map (place (Function.update gap k (gap k ++ new)) lead.length) := by
      refine List.map_congr_left fun j hj => ?_
      have hjk := hbehind j hj
      rw [place, place, anchor_update, if_neg (Nat.lt_asymm hjk),
        Function.update_of_ne (Nat.ne_of_lt hjk)]
    have hstep := run_onCode (f := fun c => c.insert (place gap lead.length k) new)
      (w := ⟨c.threaded lead gap, pool⟩) (Code.insert_threaded plain hk ordered)
    rw [List.map_cons, atEach, Fault.run_bind_of_eq_ok hstep, hplaces,
      ih (plain.update hnew k) hks hlt]
    refine congrArg (fun gap => (Except.ok (), Workpiece.mk (c.threaded lead gap) pool)) ?_
    funext j
    by_cases hj : j = k
    · subst hj
      have hnot : j ∉ ks := fun hmem => Nat.lt_irrefl j (hbehind j hmem)
      simp [hnot]
    · simp [hj]

end Editing

def Position.sites : Position → List Instruction → Nat
  | .begin, _ => 1
  | .end_, is => is.countP fun i => Opcode.isReturn i.opcode

namespace Hook

variable {h : Hook} {pool pool' : Pool} {k : UInt16} {c : Code} {is : List Instruction}
variable {lead : List Instruction} {gap : Nat → List Instruction} {position : Position}

/-! ### An insertion as a whole -/

def missing (h : Hook) (pool : Pool) : Position → List Instruction → Nat
  | .begin, is => if h.inRun pool is then 0 else 1
  | .end_, is => (h.pendingExits pool is).length

theorem missing_eq_zero_of_sites (hsites : position.sites is = 0) :
    h.missing pool position is = 0 := by
  cases position with
  | begin => cases hsites
  | end_ =>
    refine List.length_eq_zero_iff.mpr (List.eq_nil_iff_forall_not_mem.mpr fun p hp => ?_)
    obtain ⟨i, hi, hreturn, -⟩ := mem_pendingExits.mp hp
    exact List.countP_eq_zero.mp hsites i (List.mem_of_getElem? hi) hreturn

def puts (h : Hook) (pool : Pool) (c : Code) (k : UInt16) : Position → Editing Unit
  | .begin => Editing.onCode (·.prepend [.invokeStatic k])
  | .end_ => Editing.atEach (fun c n => c.insert n [.invokeStatic k])
      (h.pendingExits pool c.instructions)

theorem run_insertCall
    (hintern : (Pool.internMember .method h.member).run.run pool = (.ok k, pool')) :
    (h.insertCall position).run.run ⟨c, pool⟩ =
      if position.sites c.instructions = 0 then (.ok .noMatch, ⟨c, pool'⟩)
      else if h.missing pool' position c.instructions = 0 then
        (.ok .alreadyPresent, ⟨c, pool'⟩)
      else (h.puts pool' c k position >>= fun _ =>
        pure (.changed (h.missing pool' position c.instructions))).run.run ⟨c, pool'⟩ := by
  rw [insertCall, Fault.run_bind_of_eq_ok (Editing.run_interned hintern)]
  cases position with
  | begin =>
    change (if h.inRun pool' c.instructions then _ else _ : Editing Outcome) _ = _
    rw [if_neg (show Position.begin.sites c.instructions ≠ 0 from Nat.one_ne_zero), missing]
    cases h.inRun pool' c.instructions with
    | true => rfl
    | false => rfl
  | end_ =>
    change (if !c.instructions.any _ then _ else _ : Editing Outcome) _ = _
    split
    · next hnone =>
      rw [Bool.not_eq_true', List.any_eq_false] at hnone
      rw [if_pos (show Position.end_.sites c.instructions = 0 from List.countP_eq_zero.mpr hnone)]
      rfl
    · next hsome =>
      rw [Bool.not_eq_true', Bool.not_eq_false, List.any_eq_true] at hsome
      have hsites : Position.end_.sites c.instructions ≠ 0 :=
        Nat.ne_of_gt (List.countP_pos_iff.mpr hsome)
      rw [if_neg hsites, missing, puts]
      cases h.pendingExits pool' c.instructions with
      | nil => rfl
      | cons n ns => rfl

/-! ### The edited body -/

theorem exists_places_of_pendingExits (h : Hook) (pool : Pool) (c : Code)
    (plain : Code.Plain lead gap) :
    ∃ ks : List Nat, ks.map (place gap lead.length) =
        h.pendingExits pool (c.threaded lead gap).instructions ∧
      ks.Pairwise (· > ·) ∧ ∀ k ∈ ks, k < c.size := by
  have hplaces : ∀ p ∈ h.pendingExits pool (c.threaded lead gap).instructions,
      ∃ k < c.size, place gap lead.length k = p := by
    intro p hp
    obtain ⟨i, hi, hreturn, -⟩ := mem_pendingExits.mp hp
    obtain ⟨k, hk, rfl, -⟩ := Code.exists_place_of_returnsAt plain ⟨i, hi, hreturn⟩
    exact ⟨k, hk, rfl⟩
  have hrange : h.pendingExits pool (c.threaded lead gap).instructions ∈
      Set.range (List.map (place gap lead.length)) := by
    rw [Set.range_list_map]
    exact fun p hp => (hplaces p hp).imp fun k hk => hk.2
  obtain ⟨ks, hks⟩ := hrange
  refine ⟨ks, hks, ?_, fun k hk => ?_⟩
  · have hpairwise := pairwise_pendingExits h pool (c.threaded lead gap).instructions
    rw [← hks, List.pairwise_map] at hpairwise
    exact hpairwise.imp fun hlt => (strictMono_place gap lead.length).lt_iff_lt.mp hlt
  · obtain ⟨r, hr, hplace⟩ := hplaces _ (hks ▸ List.mem_map_of_mem hk)
    exact (strictMono_place gap lead.length).injective hplace ▸ hr

def exitGap (h : Hook) (pool : Pool) (call : Instruction) (lead : List Instruction)
    (gap : Nat → List Instruction) (c : Code) (k : Nat) : List Instruction :=
  if place gap lead.length k ∈ h.pendingExits pool (c.threaded lead gap).instructions then
    gap k ++ [call]
  else gap k

theorem plain_exitGap (plain : Code.Plain lead gap) {call : Instruction}
    (hcall : call.Straight) : Code.Plain lead (h.exitGap pool call lead gap c) := by
  refine ⟨plain.lead, fun k => ?_⟩
  rw [exitGap]
  split
  · exact List.forall_mem_append.mpr ⟨plain.gap k, List.forall_mem_singleton.mpr hcall⟩
  · exact plain.gap k

theorem run_insertCall_begin (plain : Code.Plain lead gap)
    (ordered : ∀ a ∈ c.attributes, a.Ordered)
    (hintern : (Pool.internMember .method h.member).run.run pool = (.ok k, pool')) :
    (h.insertCall .begin).run.run ⟨c.threaded lead gap, pool⟩ =
      if h.inRun pool' (c.threaded lead gap).instructions then
        (.ok .alreadyPresent, ⟨c.threaded lead gap, pool'⟩)
      else (.ok (.changed 1), ⟨c.threaded (.invokeStatic k :: lead) gap, pool'⟩) := by
  have hprepend := Editing.run_onCode (f := (·.prepend [.invokeStatic k]))
    (w := ⟨c.threaded lead gap, pool'⟩) (Code.prepend_threaded plain ordered)
  rw [run_insertCall hintern, missing, puts]
  cases h.inRun pool' (c.threaded lead gap).instructions with
  | true => rfl
  | false => exact Fault.run_bind_of_eq_ok hprepend _

theorem run_insertCall_end (plain : Code.Plain lead gap)
    (ordered : ∀ a ∈ c.attributes, a.Ordered)
    (hintern : (Pool.internMember .method h.member).run.run pool = (.ok k, pool')) :
    ∃ outcome, (h.insertCall .end_).run.run ⟨c.threaded lead gap, pool⟩ =
      (.ok outcome, ⟨c.threaded lead (h.exitGap pool' (.invokeStatic k) lead gap c), pool'⟩) := by
  obtain ⟨ks, hks, hbehind, hlt⟩ :=
    exists_places_of_pendingExits h pool' c plain
  have hgap : h.exitGap pool' (.invokeStatic k) lead gap c =
      fun j => if j ∈ ks then gap j ++ [.invokeStatic k] else gap j := by
    funext j
    rw [exitGap, ← hks]
    exact if_congr (List.mem_map_of_injective (strictMono_place gap lead.length).injective) rfl rfl
  have hinsert := Editing.run_atEach_insert pool' plain
    (List.forall_mem_singleton.mpr (Instruction.straight_invokeStatic k)) ordered hbehind hlt
  have hnone (hmissing : h.missing pool' .end_ (c.threaded lead gap).instructions = 0) :
      (fun j => if j ∈ ks then gap j ++ [.invokeStatic k] else gap j) = gap := by
    rw [missing, ← hks, List.length_map, List.length_eq_zero_iff] at hmissing
    simp [hmissing]
  rw [hgap, run_insertCall hintern]
  split
  · next hsites => exact ⟨_, by rw [hnone (missing_eq_zero_of_sites hsites)]⟩
  · split
    · next hpresent => exact ⟨_, by rw [hnone hpresent]⟩
    · rw [puts, ← hks]
      exact ⟨_, Fault.run_bind_of_eq_ok hinsert _⟩

/-! ### Edits that succeed -/

structure Interned (h : Hook) (pool : Pool) (k : UInt16) (pool' : Pool) : Prop where
  extends_ : pool.Extends pool'
  reached : pool'.size < 65536
  member : pool'.member k = .ok h.member

theorem interned_of_run (hpool : pool.size < 65536)
    (hintern : (Pool.internMember .method h.member).run.run pool = (.ok k, pool')) :
    h.Interned pool k pool' := by
  obtain ⟨hreached, hmember⟩ := Pool.gives_internMember .method h.member pool k pool' hpool hintern
  have hext := (Pool.Request.member .method h.member).extends_after pool
  rw [Pool.Request.after, Pool.Request.intern, hintern] at hext
  exact ⟨hext, hreached, hmember⟩

variable {outcome : Outcome} {w : Workpiece}

theorem exists_run_intern (hrun : (h.insertCall position).run.run ⟨c, pool⟩ = (.ok outcome, w)) :
    ∃ k pool', (Pool.internMember .method h.member).run.run pool = (.ok k, pool') := by
  obtain ⟨k, w', hinterned, -⟩ := Fault.run_bind_eq_ok.mp hrun
  exact ⟨k, w'.pool, Editing.run_of_run_interned hinterned⟩

theorem insertCall_begin_eq_ok (plain : Code.Plain lead gap)
    (ordered : ∀ a ∈ c.attributes, a.Ordered) (hpool : pool.size < 65536)
    (hrun : (h.insertCall .begin).run.run ⟨c.threaded lead gap, pool⟩ = (.ok outcome, w)) :
    ∃ k, h.Interned pool k w.pool ∧
      if h.inRun w.pool (c.threaded lead gap).instructions then
        outcome = .alreadyPresent ∧ w.code = c.threaded lead gap
      else outcome = .changed 1 ∧ w.code = c.threaded (.invokeStatic k :: lead) gap := by
  obtain ⟨k, pool', hintern⟩ := exists_run_intern hrun
  rw [run_insertCall_begin plain ordered hintern] at hrun
  refine ⟨k, ?_⟩
  split at hrun
  · next hpresent =>
    cases hrun
    rw [if_pos hpresent]
    exact ⟨interned_of_run hpool hintern, rfl, rfl⟩
  · next habsent =>
    cases hrun
    rw [if_neg habsent]
    exact ⟨interned_of_run hpool hintern, rfl, rfl⟩

theorem insertCall_end_eq_ok (plain : Code.Plain lead gap)
    (ordered : ∀ a ∈ c.attributes, a.Ordered) (hpool : pool.size < 65536)
    (hrun : (h.insertCall .end_).run.run ⟨c.threaded lead gap, pool⟩ = (.ok outcome, w)) :
    ∃ k, h.Interned pool k w.pool ∧
      w.code = c.threaded lead (h.exitGap w.pool (.invokeStatic k) lead gap c) := by
  obtain ⟨k, pool', hintern⟩ := exists_run_intern hrun
  obtain ⟨outcome', heq⟩ := run_insertCall_end plain ordered hintern
  rw [heq] at hrun
  cases hrun
  exact ⟨k, interned_of_run hpool hintern, rfl⟩

theorem exists_threaded_of_insertCall (plain : Code.Plain lead gap)
    (ordered : ∀ a ∈ c.attributes, a.Ordered) (hpool : pool.size < 65536)
    (hrun : (h.insertCall position).run.run ⟨c.threaded lead gap, pool⟩ = (.ok outcome, w)) :
    ∃ lead' gap', Code.Plain lead' gap' ∧ w.code = c.threaded lead' gap' := by
  cases position with
  | begin =>
    obtain ⟨k, -, hcode⟩ := insertCall_begin_eq_ok plain ordered hpool hrun
    split at hcode
    · exact ⟨lead, gap, plain, hcode.2⟩
    · exact ⟨_, gap, ⟨List.forall_mem_cons.mpr ⟨Instruction.straight_invokeStatic k, plain.lead⟩,
        plain.gap⟩, hcode.2⟩
  | end_ =>
    obtain ⟨k, -, hcode⟩ := insertCall_end_eq_ok plain ordered hpool hrun
    exact ⟨lead, _, plain_exitGap plain (Instruction.straight_invokeStatic k), hcode⟩

theorem exists_run_insertCall (plain : Code.Plain lead gap)
    (ordered : ∀ a ∈ c.attributes, a.Ordered) (hroom : pool.size + 6 ≤ 65535)
    (position : Position) : ∃ outcome w,
      (h.insertCall position).run.run ⟨c.threaded lead gap, pool⟩ = (.ok outcome, w) ∧
        w.pool.size ≤ pool.size + 6 := by
  obtain ⟨k, pool', hintern, hsize⟩ := Pool.takes_internMember .method h.member pool hroom
  cases position with
  | begin =>
    have hrun := run_insertCall_begin plain ordered hintern
    split at hrun
    · exact ⟨_, _, hrun, hsize⟩
    · exact ⟨_, _, hrun, hsize⟩
  | end_ =>
    obtain ⟨outcome, hrun⟩ := run_insertCall_end plain ordered hintern
    exact ⟨outcome, _, hrun, hsize⟩

def exits (h : Hook) (pool : Pool) (call : Instruction) (c : Code) (j : Nat) : List Instruction :=
  if j ∈ h.pendingExits pool c.instructions then [call] else []

theorem exitGap_nil (h : Hook) (pool : Pool) (call : Instruction) (c : Code) :
    h.exitGap pool call [] (fun _ => []) c = h.exits pool call c := by
  funext j
  have hplace : place (fun _ => ([] : List Instruction)) 0 j = j :=
    (anchor_nil 0 j).trans (Nat.zero_add j)
  rw [exitGap, Code.threaded_nil, List.length_nil, hplace]
  rfl

end Hook

end PluginGuard
