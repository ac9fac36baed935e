import PluginGuard.Proofs.Hook.Calls
import PluginGuard.Proofs.Hook.Excision

/-!
# Injections that are refused

Every single insertion and removal is done wholly or not at all. Insertions of calls are refused
either at the first place or nowhere, so a refused one leaves the body alone. An excision goes from
the last occurrence to the first, and what it took out before a removal was refused stays out.
-/
namespace PluginGuard

open ClassFile

namespace Editing

variable {w w' : Workpiece} {e : Fault} {f : Code → Nat → Except Fault Code}

theorem onCode_eq_error {g : Code → Except Fault Code}
    (h : (onCode g).run.run w = (.error e, w')) : g w.code = .error e ∧ w' = w := by
  change onCode g w = _ at h
  rw [onCode] at h
  cases hg : g w.code with
  | ok code =>
    rw [hg] at h
    cases h
  | error e' =>
    rw [hg] at h
    cases h
    exact ⟨rfl, rfl⟩

theorem atEach_eq_error {places : List Nat} (h : (atEach f places).run.run w = (.error e, w')) :
    ∃ made i rest, places = made ++ i :: rest ∧ (atEach f made).run.run w = (.ok (), w') ∧
      f w'.code i = .error e := by
  induction places generalizing w with
  | nil => cases h
  | cons i places ih =>
    obtain hfirst | ⟨_, w₁, hfirst, hrest⟩ := Fault.run_bind_eq_error.mp h
    · obtain ⟨hrefused, rfl⟩ := onCode_eq_error hfirst
      exact ⟨[], i, places, rfl, rfl, hrefused⟩
    · obtain ⟨made, j, rest, rfl, hmade, hrefused⟩ := ih hrest
      exact ⟨i :: made, j, rest, rfl, Fault.run_bind_eq_ok.mpr ⟨_, w₁, hfirst, hmade⟩, hrefused⟩

end Editing

variable {c : Code} {pool : Pool} {w : Workpiece} {e : Fault}

/-! ### Refused edits -/

theorem Hook.exists_run_of_ordered {h : Hook} {k : UInt16} {w₁ : Workpiece} (position : Position)
    (ordered : ∀ a ∈ c.attributes, a.Ordered)
    (hintern : (Editing.interned (Pool.internMember .method h.member)).run.run ⟨c, pool⟩ =
      (.ok k, w₁)) :
    ∃ outcome w', (h.insertCall position).run.run ⟨c, pool⟩ = (.ok outcome, w') := by
  have hpool := Editing.run_of_run_interned hintern
  rw [← Code.threaded_nil c]
  cases position with
  | begin =>
    have hrun := run_insertCall_begin .nil ordered hpool
    split at hrun
    · exact ⟨_, _, hrun⟩
    · exact ⟨_, _, hrun⟩
  | end_ =>
    obtain ⟨outcome, hrun⟩ := run_insertCall_end .nil ordered hpool
    exact ⟨outcome, _, hrun⟩

theorem Hook.code_of_insertCall_error {h : Hook} {position : Position}
    (hrun : (h.insertCall position).run.run ⟨c, pool⟩ = (.error e, w)) : w.code = c := by
  obtain ⟨hcode, -⟩ | ⟨k, w₁, edit, n, hintern, inserts, hrest⟩ := insertCall_cases hrun
  · exact hcode
  obtain rfl : w₁.code = c := Editing.code_of_run_interned hintern
  obtain hedit | ⟨_, _, -, hdone⟩ := Fault.run_bind_eq_error.mp hrest
  · cases inserts with
    | front => rw [(Editing.onCode_eq_error hedit).2]
    | exits p ps =>
      obtain ⟨made, place, rest, -, hmade, -⟩ := Editing.atEach_eq_error hedit
      cases made with
      | nil =>
        cases hmade
        rfl
      | cons first made =>
        -- The first call was taken, so the frames are in order and no other call is refused.
        obtain ⟨_, w₂, hfirst, -⟩ := Fault.run_bind_eq_ok.mp hmade
        obtain ⟨-, ordered, -⟩ := Code.insert_eq_ok.mp (Editing.onCode_eq_ok hfirst)
        obtain ⟨outcome, w₃, hok⟩ := exists_run_of_ordered position ordered hintern
        cases hok.symm.trans hrun
  · cases hdone

theorem run_excise_eq_error {pattern : List InstructionPattern} {w' : Workpiece}
    (hrun : (excise pattern).run.run w = (.error e, w')) :
    (Editing.atEach (fun c i => c.remove i (i + pattern.length))
      (Excision.sites w.pool pattern w.code.instructions)).run.run w = (.error e, w') := by
  rw [run_excise] at hrun
  split at hrun
  · cases hrun
  · obtain hedit | ⟨_, _, -, hdone⟩ := Fault.run_bind_eq_error.mp hrun
    · exact hedit
    · cases hdone

/-- The removal at the last place where the pattern fits is accepted. It is the first that an
excision tries. -/
def Excision.Starts (pool : Pool) (pattern : List InstructionPattern) (c : Code) : Prop :=
  ∃ last ∈ (Excision.sites pool pattern c.instructions).head?,
    ∃ c', c.remove last (last + pattern.length) = .ok c'

/-- A refused injection leaves the body as it was unless it is an excision that had taken out an
occurrence before it was refused. -/
theorem Injection.code_of_refused {i : Injection} (happly : i.apply c pool = (.error e, w)) :
    w.code = c ↔ ∀ pattern, i.edit = .excise pattern → ¬Excision.Starts pool pattern c := by
  rw [apply] at happly
  cases hedit : i.edit with
  | call hook position =>
    rw [hedit] at happly
    refine iff_of_true (Hook.code_of_insertCall_error happly) fun pattern h => ?_
    cases h
  | excise pattern =>
    rw [hedit] at happly
    obtain ⟨made, place, rest, hsites, hmade, hrefused⟩ :=
      Editing.atEach_eq_error (run_excise_eq_error happly)
    simp only [Edit.excise.injEq, forall_eq', Excision.Starts, hsites]
    cases made with
    | nil =>
      cases hmade
      simp [hrefused]
    | cons last made =>
      -- The removal that was made has left fewer instructions.
      have hsize := Editing.atEach_eq_ok (r := (· > ·)) (fun _ _ _ h h' => Nat.lt_trans h' h)
        (fun _ _ _ => Code.size_remove) hmade
      obtain ⟨_, w₁, hfirst, -⟩ := Fault.run_bind_eq_ok.mp hmade
      refine iff_of_false (fun hsame => ?_) (not_not.mpr ?_)
      · rw [hsame] at hsize
        exact Nat.lt_irrefl _ hsize
      · exact ⟨last, rfl, w₁.code, Editing.onCode_eq_ok hfirst⟩

namespace Injection

def reinstalling (times : Nat) : Code :=
  .ofInstructions 1 0 ((List.replicate times [pushNull, install]).flatten ++
    [pushNull, ⟨Opcode.goto, .branch 1⟩])

theorem wellFormed_reinstalling (times : Nat) : (reinstalling times).WellFormed hostPool := by
  have hkind : ∀ i ∈ (reinstalling times).instructions, i.Conforms ∧ ∀ t ∈ i.targets, t = 1 := by
    intro i hi
    obtain hi | hi := List.mem_append.mp hi
    · obtain ⟨is, his, hi⟩ := List.mem_flatten.mp hi
      obtain rfl := List.eq_of_mem_replicate his
      obtain rfl | rfl := List.mem_pair.mp hi
      · exact ⟨⟨_, rfl, trivial⟩, List.forall_mem_nil _⟩
      · exact ⟨⟨_, rfl, trivial⟩, List.forall_mem_nil _⟩
    · obtain rfl | rfl := List.mem_pair.mp hi
      · exact ⟨⟨_, rfl, trivial⟩, List.forall_mem_nil _⟩
      · exact ⟨⟨_, rfl, trivial⟩, List.forall_mem_singleton.mpr rfl⟩
  have hsize : 1 < (reinstalling times).size := by
    simp [reinstalling, Code.size, Code.ofInstructions]
  exact ⟨Nat.lt_of_succ_lt hsize, fun i hi => (hkind i hi).1,
    fun i hi t ht => (hkind i hi).2 t ht ▸ hsize, List.forall_mem_nil _, List.forall_mem_nil _,
    List.forall_mem_nil _⟩

theorem code_of_refused_once :
    ∃ w, securityManager.apply (reinstalling 1) hostPool = (.error (.invalidEdit (.stranded 1)), w) ∧
      w.code = reinstalling 1 := by
  obtain ⟨w, happly⟩ : ∃ w, securityManager.apply (reinstalling 1) hostPool =
      (.error (.invalidEdit (.stranded 1)), w) := ⟨_, rfl⟩
  refine ⟨w, happly, (code_of_refused happly).mpr fun pattern hpattern => ?_⟩
  obtain rfl : installation = pattern := Edit.excise.inj hpattern
  rintro ⟨last, hlast, c', hremove⟩
  obtain rfl : 0 = last := Option.some.inj hlast
  obtain ⟨-, hreferences, -⟩ := Code.remove_eq_ok.mp hremove
  exact absurd (hreferences 1 (by decide)) (by decide)

/-- The second installation is taken out before the removal of the first is refused. -/
theorem removed_by_refused :
    (reinstalling 2).WellFormed hostPool ∧
      securityManager.apply (reinstalling 2) hostPool =
        (.error (.invalidEdit (.stranded 1)), ⟨reinstalling 1, hostPool⟩) ∧
      reinstalling 1 ≠ reinstalling 2 :=
  ⟨wellFormed_reinstalling 2, rfl, by decide⟩

end Injection

end PluginGuard
