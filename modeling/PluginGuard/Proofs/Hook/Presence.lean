import PluginGuard.Proofs.Hook.Entries

/-!
# Calls that are found again

A call of a hook is found in front if it is in the run of hook calls that a body
begins with, and before returns if it is in the run before each of them. Later
insertions for hooks of the same owner only make these runs longer, whatever
position they are for, and so do constants that a pool gets in addition.
-/
namespace PluginGuard

open ClassFile

namespace Hook

variable {g h : Hook} {pool pool' : Pool} {i : Instruction} {is is' front : List Instruction}

theorem siblingCalledBy_of_owner (howner : g.owner = h.owner) (hcall : g.calledBy pool i = true) :
    h.siblingCalledBy pool i = true :=
  siblingCalledBy_iff.mpr ⟨g.member, calledBy_iff.mp hcall, howner, rfl⟩

theorem siblingCalledBy_of_extends (hext : pool.Extends pool')
    (hcall : h.siblingCalledBy pool i = true) : h.siblingCalledBy pool' i = true := by
  obtain ⟨m, hm, hmember⟩ := siblingCalledBy_iff.mp hcall
  exact siblingCalledBy_iff.mpr ⟨m, callee?_of_extends hext hm, hmember⟩

theorem calledBy_of_extends (hext : pool.Extends pool') (hcall : h.calledBy pool i = true) :
    h.calledBy pool' i = true :=
  calledBy_iff.mpr (callee?_of_extends hext (calledBy_iff.mp hcall))

theorem not_isReturn_of_siblingCalledBy (hcall : h.siblingCalledBy pool i = true) :
    Opcode.isReturn i.opcode = false := by
  rw [opcode_of_siblingCalledBy hcall]
  rfl

/-! ### Runs -/

theorem inRun_append (hfront : ∀ i ∈ front, h.siblingCalledBy pool i = true) :
    h.inRun pool (front ++ is) = (front.any (h.calledBy pool) || h.inRun pool is) := by
  induction front with
  | nil => rfl
  | cons i front ih =>
    obtain ⟨hi, hfront⟩ := List.forall_mem_cons.mp hfront
    rw [List.cons_append, inRun_cons, hi, ih hfront, List.any_cons, Bool.true_and, Bool.or_assoc]

theorem inRun_of_extends (hext : pool.Extends pool') (hrun : h.inRun pool is = true) :
    h.inRun pool' is = true := by
  induction is with
  | nil => cases hrun
  | cons i is ih =>
    rw [inRun_cons, Bool.and_eq_true, Bool.or_eq_true] at hrun ⊢
    exact ⟨siblingCalledBy_of_extends hext hrun.1, hrun.2.imp (calledBy_of_extends hext) ih⟩

theorem inRun_weave {gap : Nat → List Instruction}
    (hgap : ∀ k, ∀ i ∈ gap k, h.siblingCalledBy pool i = true) (hrun : h.inRun pool is = true)
    (k : Nat) : h.inRun pool (weave gap k is) = true := by
  induction is generalizing k with
  | nil => cases hrun
  | cons i is ih =>
    rw [inRun_cons, Bool.and_eq_true, Bool.or_eq_true] at hrun
    rw [weave, inRun_append (hgap k), inRun_cons, Bool.or_eq_true, Bool.and_eq_true,
      Bool.or_eq_true]
    exact .inr ⟨hrun.1, hrun.2.imp_right fun hrun => ih hrun (k + 1)⟩

/-! ### Returns -/

theorem pendingExits_append_siblings (hfront : ∀ i ∈ front, h.siblingCalledBy pool i = true) :
    h.pendingExits pool (is ++ front) = h.pendingExits pool is := by
  induction front using List.reverseRecOn with
  | nil => rw [List.append_nil]
  | append_singleton front i ih =>
    obtain ⟨hfront, hi⟩ := List.forall_mem_append.mp hfront
    rw [← List.append_assoc, pendingExits_append_singleton,
      not_isReturn_of_siblingCalledBy (hi i (List.mem_singleton_self i)), ih hfront]
    rfl

theorem pendingExits_of_extends (hext : pool.Extends pool')
    (hpresent : h.pendingExits pool is = []) : h.pendingExits pool' is = [] := by
  refine List.eq_nil_iff_forall_not_mem.mpr fun p hp => ?_
  obtain ⟨i, hi, hreturn, hrun⟩ := mem_pendingExits.mp hp
  have hrun' : h.inRun pool (is.take p).reverse = false := Bool.eq_false_iff.mpr fun hrun' =>
    Bool.eq_false_iff.mp hrun (inRun_of_extends hext hrun')
  exact List.not_mem_nil (hpresent ▸ mem_pendingExits.mpr ⟨i, hi, hreturn, hrun'⟩)

theorem pendingExits_weave {lead : List Instruction} {gap : Nat → List Instruction}
    (hlead : ∀ i ∈ lead, h.siblingCalledBy pool i = true)
    (hgap : ∀ k, ∀ i ∈ gap k, h.siblingCalledBy pool i = true)
    (hcalls : ∀ p ∈ h.pendingExits pool is, ∃ i ∈ gap p, h.calledBy pool i = true) :
    h.pendingExits pool (lead ++ weave gap 0 is) = [] ∧
      (h.inRun pool is.reverse = true →
        h.inRun pool (lead ++ weave gap 0 is).reverse = true) := by
  -- From the end, where the run before a return is at hand.
  induction is using List.reverseRecOn with
  | nil =>
    refine ⟨?_, fun hrun => Bool.noConfusion hrun⟩
    rw [weave, List.append_nil, ← List.nil_append lead, pendingExits_append_siblings hlead]
    rfl
  | append_singleton is i ih =>
    rw [pendingExits_append_singleton] at hcalls
    obtain ⟨hnone, hrun⟩ := ih fun p hp => hcalls p (by
      split
      · exact List.mem_cons_of_mem _ hp
      · exact hp)
    have htail : lead ++ weave gap 0 (is ++ [i]) =
        lead ++ weave gap 0 is ++ gap is.length ++ [i] := by
      simp only [weave_append, Nat.zero_add, weave, List.append_assoc]
    have hreverse : h.inRun pool (lead ++ weave gap 0 is ++ gap is.length).reverse =
        ((gap is.length).reverse.any (h.calledBy pool) ||
          h.inRun pool (lead ++ weave gap 0 is).reverse) := by
      rw [List.reverse_append, inRun_append fun j hj => hgap _ j (List.mem_reverse.mp hj)]
    rw [htail]
    constructor
    · rw [pendingExits_append_singleton, pendingExits_append_siblings (hgap _), hnone, hreverse]
      refine if_neg fun hneeds => ?_
      rw [Bool.and_eq_true, Bool.not_eq_true', Bool.or_eq_false_iff, List.any_reverse] at hneeds
      obtain ⟨hreturn, hany, hbefore⟩ := hneeds
      have hpending : h.inRun pool is.reverse = false :=
        Bool.eq_false_iff.mpr fun h => Bool.eq_false_iff.mp hbefore (hrun h)
      rw [hreturn, hpending] at hcalls
      obtain ⟨j, hj, hcall⟩ := hcalls is.length List.mem_cons_self
      exact List.any_eq_false.mp hany j hj hcall
    · rw [List.reverse_append, List.reverse_append, List.reverse_singleton, List.singleton_append,
        List.singleton_append, inRun_cons, inRun_cons, hreverse, Bool.and_eq_true,
        Bool.and_eq_true, Bool.or_eq_true, Bool.or_eq_true, Bool.or_eq_true]
      exact And.imp_right fun h => h.imp_right fun h => .inr (hrun h)

/-! ### What is read of an instruction -/

def signature (pool : Pool) (i : Instruction) : Option MemberRef × Bool :=
  (callee? pool i, Opcode.isReturn i.opcode)

theorem inRun_congr (hsame : is.map (signature pool) = is'.map (signature pool)) :
    h.inRun pool is = h.inRun pool is' := by
  induction is generalizing is' with
  | nil => rw [List.map_eq_nil_iff.mp hsame.symm]
  | cons i is ih =>
    obtain ⟨i', is', rfl, hi, his⟩ := List.map_eq_cons_iff.mp hsame.symm
    have hcallee : callee? pool i' = callee? pool i := congrArg Prod.fst hi
    rw [inRun_cons, inRun_cons, ih his.symm, siblingCalledBy, siblingCalledBy, calledBy, calledBy,
      hcallee]

theorem pendingExits_congr (hsame : is.map (signature pool) = is'.map (signature pool)) :
    h.pendingExits pool is = h.pendingExits pool is' := by
  have fold (st : List Nat × Nat × Bool) :
      is.foldl (h.scanExit pool) st = is'.foldl (h.scanExit pool) st := by
    induction is generalizing is' st with
    | nil => rw [List.map_eq_nil_iff.mp hsame.symm]
    | cons i is ih =>
      obtain ⟨i', is', rfl, hi, his⟩ := List.map_eq_cons_iff.mp hsame.symm
      have hcallee : callee? pool i' = callee? pool i := congrArg Prod.fst hi
      have hreturn : Opcode.isReturn i'.opcode = Opcode.isReturn i.opcode := congrArg Prod.snd hi
      rw [List.foldl_cons, List.foldl_cons, ih his.symm, scanExit, scanExit, siblingCalledBy,
        siblingCalledBy, calledBy, calledBy, hcallee, hreturn]
  exact congrArg Prod.fst (fold _)

theorem signature_mapTargets (pool : Pool) (i : Instruction) (f : Nat → Nat) :
    signature pool (i.mapTargets f) = signature pool i := by
  rw [signature, callee?_mapTargets]
  rfl

theorem signature_written (pool : Pool) (i : Instruction) (widened : Bool) :
    signature pool (i.written widened) = signature pool i := by
  obtain ⟨opcode, operand⟩ := i
  cases operand with
  | constant k =>
    change signature pool (if _ then _ else _) = _
    split
    · next hlong =>
      rw [Bool.and_eq_true, beq_iff_eq] at hlong
      obtain ⟨rfl, -⟩ := hlong
      rfl
    · rfl
  | branch t =>
    have hreturn : Opcode.isReturn (Instruction.longOpcode opcode) = Opcode.isReturn opcode := by
      rw [Instruction.longOpcode]
      split
      · next hgoto => rw [beq_iff_eq.mp hgoto]; rfl
      · split
        · next hjsr => rw [beq_iff_eq.mp hjsr]; rfl
        · rfl
    have hcallee (opcode : UInt8) : callee? pool ⟨opcode, .branch t⟩ = none := by
      simp [callee?, Instruction.member?, Instruction.constant?, Operand.constant?]
    cases widened with
    | false => rfl
    | true => exact Prod.ext ((hcallee _).trans (hcallee _).symm) hreturn
  | _ => rfl

theorem signature_map_written {c : Code} {l : BodyLayout} (hl : c.layout = .ok l) :
    (c.written l).instructions.map (signature pool) = c.instructions.map (signature pool) := by
  have hlength := (Code.settled_of_layout hl).widens.length_eq
  rw [Code.written, List.map_map]
  have hzip : (c.instructions.zip l.widened).map (signature pool ∘ fun x => x.1.written x.2) =
      (c.instructions.zip l.widened).map (signature pool ∘ Prod.fst) :=
    List.map_congr_left fun x _ => signature_written pool x.1 x.2
  exact hzip.trans (by rw [← List.map_map, List.map_fst_zip (Nat.le_of_eq hlength.symm)])

theorem signature_map_moved (pool : Pool) (c : Code) (f : Nat → Nat) :
    (c.moved f).instructions.map (signature pool) = c.instructions.map (signature pool) := by
  rw [Code.moved, List.map_map]
  exact List.map_congr_left fun i _ => signature_mapTargets pool i f

/-! ### Calls in a body -/

/-- The hook is called where an insertion at the position would put a call. -/
def Present (h : Hook) (pool : Pool) : Position → List Instruction → Prop
  | .begin, is => h.inRun pool is = true
  | .end_, is => h.pendingExits pool is = []

theorem missing_eq_zero {position : Position} :
    h.missing pool position is = 0 ↔ h.Present pool position is := by
  cases position with
  | begin => simp [missing, Present]
  | end_ => exact List.length_eq_zero_iff

namespace Present

variable {position : Position}

theorem extend (hext : pool.Extends pool') (present : h.Present pool position is) :
    h.Present pool' position is := by
  cases position with
  | begin => exact inRun_of_extends hext present
  | end_ => exact pendingExits_of_extends hext present

theorem congr (hsame : is.map (signature pool) = is'.map (signature pool))
    (present : h.Present pool position is) : h.Present pool position is' := by
  cases position with
  | begin => exact (inRun_congr hsame).symm.trans present
  | end_ => exact (pendingExits_congr hsame).symm.trans present

theorem written {c : Code} {l : BodyLayout} (hl : c.layout = .ok l)
    (present : h.Present pool position c.instructions) :
    h.Present pool position (c.written l).instructions :=
  present.congr (signature_map_written hl).symm

theorem moved {c : Code} (f : Nat → Nat) (present : h.Present pool position c.instructions) :
    h.Present pool position (c.moved f).instructions :=
  present.congr (signature_map_moved pool c f).symm

theorem threaded {c : Code} {lead : List Instruction} {gap : Nat → List Instruction}
    (hlead : ∀ i ∈ lead, h.siblingCalledBy pool i = true)
    (hgap : ∀ k, ∀ i ∈ gap k, h.siblingCalledBy pool i = true)
    (present : h.Present pool position c.instructions) :
    h.Present pool position (c.threaded lead gap).instructions := by
  have moved := present.moved (anchor gap lead.length)
  cases position with
  | begin =>
    refine (inRun_append hlead).trans ?_
    rw [inRun_weave hgap moved 0, Bool.or_true]
  | end_ =>
    refine (pendingExits_weave hlead hgap fun p hp => ?_).1
    rw [moved] at hp
    cases hp

end Present

/-! ### Insertions -/

variable {c : Code} {position position' : Position} {outcome : Outcome} {w : Workpiece} {k : UInt16}

theorem run_intern_of_insertCall (ordered : ∀ a ∈ c.attributes, a.Ordered)
    (hrun : (h.insertCall position).run.run ⟨c, pool⟩ = (.ok outcome, w)) :
    ∃ k, (Pool.internMember .method h.member).run.run pool = (.ok k, w.pool) := by
  obtain ⟨k, pool', hintern⟩ := exists_run_intern hrun
  rw [← Code.threaded_nil c] at hrun
  cases position with
  | begin =>
    rw [run_insertCall_begin .nil ordered hintern] at hrun
    split at hrun
    · cases hrun
      exact ⟨k, hintern⟩
    · cases hrun
      exact ⟨k, hintern⟩
  | end_ =>
    obtain ⟨outcome', heq⟩ := run_insertCall_end .nil ordered hintern
    rw [heq] at hrun
    cases hrun
    exact ⟨k, hintern⟩

theorem present_of_insertCall (ordered : ∀ a ∈ c.attributes, a.Ordered) (hpool : pool.size < 65536)
    (hrun : (h.insertCall position).run.run ⟨c, pool⟩ = (.ok outcome, w)) :
    h.Present w.pool position w.code.instructions := by
  rw [← Code.threaded_nil c] at hrun
  cases position with
  | begin =>
    obtain ⟨k, hinterned, hcode⟩ := insertCall_begin_eq_ok .nil ordered hpool hrun
    split at hcode
    · next hpresent =>
      rw [hcode.2]
      exact hpresent
    · have hcall : h.calledBy w.pool (.invokeStatic k) = true :=
        calledBy_iff.mpr (callee?_invokeStatic hinterned.member)
      rw [hcode.2]
      change h.inRun w.pool (.invokeStatic k :: _) = true
      rw [inRun_cons, siblingCalledBy_of_calledBy hcall, hcall]
      rfl
  | end_ =>
    obtain ⟨k, hinterned, hcode⟩ := insertCall_end_eq_ok .nil ordered hpool hrun
    have hcall : h.calledBy w.pool (.invokeStatic k) = true :=
      calledBy_iff.mpr (callee?_invokeStatic hinterned.member)
    rw [exitGap_nil] at hcode
    have hpending := pendingExits_congr (h := h)
      (signature_map_moved w.pool c (anchor (h.exits w.pool (.invokeStatic k) c) 0))
    rw [hcode]
    refine (pendingExits_weave (List.forall_mem_nil _) (fun j i hi => ?_) fun p hp => ?_).1
    · rw [exits] at hi
      split at hi
      · exact List.mem_singleton.mp hi ▸ siblingCalledBy_of_calledBy hcall
      · cases hi
    · rw [List.length_nil, hpending] at hp
      exact ⟨_, by rw [exits, if_pos hp]; exact List.mem_singleton_self _, hcall⟩

theorem Present.insertCall (howner : g.owner = h.owner) (ordered : ∀ a ∈ c.attributes, a.Ordered)
    (hpool : pool.size < 65536)
    (hrun : (g.insertCall position').run.run ⟨c, pool⟩ = (.ok outcome, w))
    (present : h.Present pool position c.instructions) :
    h.Present w.pool position w.code.instructions := by
  obtain ⟨k, lead, gap, hinterned, hlead, hgap, hcode⟩ :=
    exists_calls_of_insertCall ordered hpool hrun
  have hsibling : h.siblingCalledBy w.pool (.invokeStatic k) = true :=
    siblingCalledBy_of_owner howner (calledBy_iff.mpr (callee?_invokeStatic hinterned.member))
  rw [hcode]
  exact (present.extend hinterned.extends_).threaded (fun i hi => hlead i hi ▸ hsibling)
    fun j i hi => hgap j i hi ▸ hsibling

theorem exists_run_of_present
    (hintern : (Pool.internMember .method h.member).run.run pool = (.ok k, pool))
    (present : h.Present pool position c.instructions) :
    ∃ outcome, (∀ n, outcome ≠ .changed n) ∧
      (h.insertCall position).run.run ⟨c, pool⟩ = (.ok outcome, ⟨c, pool⟩) := by
  rw [run_insertCall hintern, missing_eq_zero.mpr present]
  split
  · exact ⟨.noMatch, fun _ h => Outcome.noConfusion h, rfl⟩
  · exact ⟨.alreadyPresent, fun _ h => Outcome.noConfusion h, rfl⟩

end Hook

end PluginGuard
