import PluginGuard.Proofs.Hook.Calls

/-!
# Calls before returns

After an insertion before returns, the text of the body has a call of the hook in
the run of hook calls before each return. Control comes to a return through that
run unless a branch, a switch or a handler leads past the call. In the runs that
were there before the edit this can be so, and it is not looked for.
-/
namespace PluginGuard

open ClassFile

namespace Hook

variable {h : Hook} {pool : Pool} {c : Code}

/-- The path came to the index through hook calls that stand one behind the other directly
before it, and among them is a call of the hook. -/
inductive Ran (h : Hook) (pool : Pool) (c : Code) : Nat → List Nat → Prop
  | call {k : Nat} {i : Instruction} {past : List Nat} :
    c.instructions[k]? = some i → h.calledBy pool i = true → Ran h pool c (k + 1) (k :: past)
  | behind {k : Nat} {i : Instruction} {past : List Nat} :
    c.instructions[k]? = some i → h.siblingCalledBy pool i = true → Ran h pool c k past →
    Ran h pool c (k + 1) (k :: past)

/-- At `q` stands the last call of the hook in the run of hook calls before `r`. -/
structure LastBefore (h : Hook) (pool : Pool) (c : Code) (q r : Nat) : Prop where
  lt : q < r
  call : ∃ i, c.instructions[q]? = some i ∧ h.calledBy pool i = true
  behind : ∀ j, q < j → j < r → ∃ i, c.instructions[j]? = some i ∧
    h.siblingCalledBy pool i = true ∧ h.calledBy pool i = false

/-- Something leads to a return past the call of the hook that stands before it. -/
def Bypassed (h : Hook) (pool : Pool) (c : Code) : Prop :=
  ∃ q r t, h.LastBefore pool c q r ∧ c.ReturnsAt r ∧ c.Entered t ∧ q < t ∧ t ≤ r

/-! ### Calls in the text -/

theorem exists_lastBefore {r : Nat} (hr : r ≤ c.size)
    (hrun : h.inRun pool (c.instructions.take r).reverse = true) :
    ∃ q, h.LastBefore pool c q r := by
  obtain ⟨before, call, behind, heq, hcall, hbefore⟩ := exists_of_inRun hrun
  have htake : c.instructions.take r = behind.reverse ++ call :: before.reverse := by
    rw [← List.reverse_reverse (c.instructions.take r), heq]
    simp
  have hlength : r = behind.length + before.length + 1 := by
    rw [← List.length_take_of_le hr, htake]
    simp [Nat.add_assoc]
  have hget {j : Nat} (hj : j < r) :
      c.instructions[j]? = (behind.reverse ++ call :: before.reverse)[j]? := by
    rw [← htake, List.getElem?_take_of_lt hj]
  refine ⟨behind.length, by omega, ⟨call, ?_, hcall⟩, fun j hj hjr => ?_⟩
  · rw [hget (by omega), List.getElem?_append_right (by simp)]
    simp
  · obtain ⟨m, rfl⟩ := Nat.exists_eq_add_of_lt hj
    have hm : m < before.reverse.length := by
      rw [List.length_reverse]
      omega
    refine ⟨before.reverse[m], ?_, hbefore _ (List.mem_reverse.mp (List.getElem_mem hm))⟩
    rw [hget hjr, List.getElem?_append_right (by simp; omega), List.length_reverse,
      Nat.add_assoc, Nat.add_sub_cancel_left, List.getElem?_cons_succ, List.getElem?_eq_getElem hm]

namespace LastBefore

variable {q r : Nat}

theorem sibling (last : h.LastBefore pool c q r) {j : Nat} (hq : q ≤ j) (hr : j < r) :
    ∃ i, c.instructions[j]? = some i ∧ h.siblingCalledBy pool i = true := by
  obtain rfl | hlt := Nat.eq_or_lt_of_le hq
  · exact last.call.imp fun i hi => ⟨hi.1, siblingCalledBy_of_calledBy hi.2⟩
  · exact (last.behind j hlt hr).imp fun i hi => ⟨hi.1, hi.2.1⟩

theorem ran (last : h.LastBefore pool c q r) (closed : ∀ t, c.Entered t → q < t → r < t)
    {raises : Nat → Prop} {j : Nat} {past : List Nat} (hq : q < j) (hr : j ≤ r)
    (hpath : c.Path raises (j :: past)) : h.Ran pool c j past := by
  -- Back to the call: in the run each index is come to from the one before it.
  induction j generalizing past with
  | zero => exact absurd hq (Nat.not_lt_zero q)
  | succ j ih =>
    obtain ⟨i, hi, hsibling⟩ := last.sibling (Nat.le_of_lt_succ hq) hr
    have entered : ¬c.Entered (j + 1) := fun h => Nat.not_lt.mpr hr (closed _ h hq)
    have hbefore : ∃ rest, past = j :: rest ∧ c.Path raises past := by
      cases hpath with
      | step hpast hfollows _ =>
        generalize hnext : j + 1 = next at hfollows entered
        cases hfollows with
        | next =>
          cases hnext
          exact ⟨_, rfl, hpast⟩
        | jump hk ht => exact absurd (.inl ⟨_, List.mem_of_getElem? hk, ht⟩) entered
        | raise _ hh => exact absurd (.inr ⟨_, hh, rfl⟩) entered
        | back _ _ _ hs hcall =>
          cases hnext
          rw [hi] at hs
          cases hs
          rw [opcode_of_siblingCalledBy hsibling] at hcall
          cases hcall
    obtain ⟨rest, rfl, hrest⟩ := hbefore
    obtain rfl | hlt := Nat.eq_or_lt_of_le (Nat.le_of_lt_succ hq)
    · obtain ⟨call, hat, hcall⟩ := last.call
      exact .call hat hcall
    · exact .behind hi hsibling (ih hlt (Nat.le_of_lt hr) hrest)

variable {lead : List Instruction} {gap : Nat → List Instruction}

theorem threaded (last : h.LastBefore pool c q r) (hnone : ∀ j, q < j → j ≤ r → gap j = []) :
    h.LastBefore pool (c.threaded lead gap) (place gap lead.length q)
      (place gap lead.length r) := by
  have hplace {n : Nat} (hn : q + n ≤ r) :
      place gap lead.length (q + n) = place gap lead.length q + n :=
    place_add gap fun j hj hle => hnone j hj (by omega)
  refine ⟨strictMono_place gap lead.length last.lt, ?_, fun j hj hjr => ?_⟩
  · obtain ⟨i, hi, hcall⟩ := last.call
    exact ⟨_, Code.getElem?_place hi, by rwa [calledBy_mapTargets]⟩
  · obtain ⟨n, rfl⟩ := Nat.exists_eq_add_of_le (Nat.le_of_lt hj)
    obtain ⟨m, rfl⟩ := Nat.exists_eq_add_of_le (Nat.le_of_lt last.lt)
    have hlast := hplace (Nat.le_refl (q + m))
    obtain ⟨i, hi, hsibling, hcall⟩ := last.behind (q + n) (by omega) (by omega)
    rw [← hplace (by omega)]
    refine ⟨_, Code.getElem?_place hi, ?_⟩
    rw [siblingCalledBy_mapTargets, calledBy_mapTargets]
    exact ⟨hsibling, hcall⟩

end LastBefore

/-! ### Calls that are executed -/

theorem exists_closed_lastBefore {call : Instruction}
    (plain : Code.Plain [] (h.exits pool call c)) (hcall : h.calledBy pool call = true)
    (hbypass : ¬h.Bypassed pool c) {k : Nat} (hk : k < c.size) (hreturns : c.ReturnsAt k) :
    let gap := h.exits pool call c
    ∃ q, h.LastBefore pool (c.threaded [] gap) q (place gap 0 k) ∧
      ∀ s, (c.threaded [] gap).Entered s → q < s → place gap 0 k < s := by
  intro gap
  have hmono := strictMono_anchor gap 0
  by_cases hpending : k ∈ h.pendingExits pool c.instructions
  · have hgap : gap k = [call] := if_pos hpending
    have hplace : place gap 0 k = anchor gap 0 k + 1 := by rw [place, hgap]; rfl
    refine ⟨anchor gap 0 k, ⟨by omega, ⟨call, ?_, hcall⟩, fun j hj hlt => by omega⟩, ?_⟩
    · have hat : (c.threaded [] gap).instructions[anchor gap 0 k + 0]? = (gap k)[0]? :=
        Code.getElem?_gap hk (by simp [hgap])
      simpa [hgap] using hat
    · intro t ht hlt
      obtain ⟨s, -, rfl⟩ := Code.entered_threaded plain ht
      exact (place_lt_anchor_iff gap).mpr (hmono.lt_iff_lt.mp hlt)
  · obtain ⟨i, hi, hreturn⟩ := hreturns
    have hrun : h.inRun pool (c.instructions.take k).reverse = true := by
      by_contra hrun
      exact hpending (mem_pendingExits.mpr ⟨i, hi, hreturn, Bool.eq_false_of_not_eq_true hrun⟩)
    obtain ⟨q, last⟩ := exists_lastBefore (Nat.le_of_lt hk) hrun
    have hnone : ∀ j, q < j → j ≤ k → gap j = [] := by
      intro j hq hle
      refine if_neg fun hmem => ?_
      obtain rfl | hlt := Nat.eq_or_lt_of_le hle
      · exact hpending hmem
      · obtain ⟨_, hj, hreturn, -⟩ := mem_pendingExits.mp hmem
        obtain ⟨sibling, hj', hsibling, -⟩ := last.behind j hq hlt
        cases hj.symm.trans hj'
        rw [opcode_of_siblingCalledBy hsibling] at hreturn
        cases hreturn
    refine ⟨place gap 0 q, last.threaded hnone, fun t ht hlt => ?_⟩
    obtain ⟨s, hs, rfl⟩ := Code.entered_threaded plain ht
    refine (place_lt_anchor_iff gap).mpr (Nat.lt_of_not_le fun hle => hbypass ?_)
    exact ⟨q, k, s, last, ⟨i, hi, hreturn⟩, hs, (place_lt_anchor_iff gap).mp hlt, hle⟩

end Hook

/-- Whether calls were inserted or all were there already: if nothing leads to a return past the
call of the hook that stood before it, then no path comes to a return of the edited body but
through a call of the hook in the run of hook calls directly before it. -/
theorem Injection.ran_before_return {i : Injection} {h : Hook} {c : Code} {pool : Pool}
    {outcome : Outcome} {w : Workpiece} (hedit : i.edit = .call h .end_) (wf : c.WellFormed pool)
    (hpool : pool.size < 65536) (happly : i.apply c pool = (.ok outcome, w))
    (hbypass : ¬h.Bypassed w.pool c) {raises : Nat → Prop} {r : Nat} {past : List Nat}
    (hpath : w.code.Path raises (r :: past)) (hreturns : w.code.ReturnsAt r) :
    h.Ran w.pool w.code r past := by
  have ordered : ∀ a ∈ c.attributes, a.Ordered := fun a ha => (wf.attributes a ha).ordered
  rw [Injection.apply, hedit, ← Code.threaded_nil c] at happly
  obtain ⟨k, hinterned, hcode⟩ := Hook.insertCall_end_eq_ok Code.Plain.nil ordered hpool happly
  have hcall : h.calledBy w.pool (.invokeStatic k) = true :=
    Hook.calledBy_iff.mpr (Hook.callee?_invokeStatic hinterned.member)
  have plain : Code.Plain [] (h.exitGap w.pool (.invokeStatic k) [] (fun _ => []) c) :=
    Hook.plain_exitGap Code.Plain.nil (Instruction.straight_invokeStatic k)
  rw [Hook.exitGap_nil] at hcode plain
  rw [hcode] at hpath hreturns ⊢
  obtain ⟨s, hs, rfl, hown⟩ := Code.exists_place_of_returnsAt plain hreturns
  obtain ⟨q, last, closed⟩ := Hook.exists_closed_lastBefore plain hcall hbypass hs hown
  exact last.ran closed last.lt (Nat.le_refl _) hpath

namespace Injection

/-! ### A body in which a call is there before the edit -/

def exitHook : Hook := ⟨"warden/runtime/Hooks", "h"⟩

def exitCall : Injection := ⟨"i", ⟨"a/B", "run", "()V"⟩, .call exitHook .end_⟩

def hookPool : Pool :=
  ⟨#[none, some (.ofText "warden/runtime/Hooks"), some (.classRef 1), some (.ofText "h"),
    some (.ofText "()V"), some (.nameAndType 3 4), some (.member .method 2 5)]⟩

def around (target : Nat) (behind : List Instruction) : Code :=
  .ofInstructions 1 1
    ([⟨0x03, .none⟩, ⟨0x99, .branch target⟩, .invokeStatic 6, ⟨0xB1, .none⟩] ++ behind)

theorem wellFormed_around {target : Nat} {behind : List Instruction}
    (htarget : target < 4 + behind.length)
    (hbehind : ∀ i ∈ behind, i = .invokeStatic 6 ∨ i = ⟨0xB1, .none⟩) :
    (around target behind).WellFormed hookPool := by
  have hsize : (around target behind).size = 4 + behind.length := by
    simp only [around, Code.ofInstructions, Code.size, List.length_append, List.length_cons,
      List.length_nil]
  have hinstructions : ∀ i ∈ (around target behind).instructions,
      i.Conforms ∧ ∀ t ∈ i.targets, t = target := by
    intro i hi
    have hreturn : Instruction.Conforms ⟨0xB1, .none⟩ := ⟨_, rfl, trivial⟩
    have hcall : (Instruction.invokeStatic 6).Conforms := ⟨_, rfl, trivial⟩
    obtain rfl | rfl | rfl | rfl | hi : i = ⟨0x03, .none⟩ ∨ i = ⟨0x99, .branch target⟩ ∨
        i = .invokeStatic 6 ∨ i = ⟨0xB1, .none⟩ ∨ i ∈ behind := by
      simpa [around, Code.ofInstructions] using hi
    · exact ⟨⟨_, rfl, trivial⟩, List.forall_mem_nil _⟩
    · exact ⟨⟨_, rfl, trivial⟩, List.forall_mem_singleton.mpr rfl⟩
    · exact ⟨hcall, List.forall_mem_nil _⟩
    · exact ⟨hreturn, List.forall_mem_nil _⟩
    · obtain rfl | rfl := hbehind i hi
      · exact ⟨hcall, List.forall_mem_nil _⟩
      · exact ⟨hreturn, List.forall_mem_nil _⟩
  refine ⟨by omega, fun i hi => (hinstructions i hi).1, fun i hi t ht => ?_, List.forall_mem_nil _,
    List.forall_mem_nil _, List.forall_mem_nil _⟩
  rw [(hinstructions i hi).2 t ht, hsize]
  exact htarget

/-- The branch goes to a second return, which gets a call of its own. -/
theorem ran_before_return_around :
    (around 4 [⟨0xB1, .none⟩]).WellFormed hookPool ∧
      exitCall.apply (around 4 [⟨0xB1, .none⟩]) hookPool =
        (.ok (.changed 1), ⟨around 4 [.invokeStatic 6, ⟨0xB1, .none⟩], hookPool⟩) ∧
      exitHook.Ran hookPool (around 4 [.invokeStatic 6, ⟨0xB1, .none⟩]) 5 [4, 1, 0] := by
  have wf : (around 4 [⟨0xB1, .none⟩]).WellFormed hookPool :=
    wellFormed_around (by decide) (by simp)
  have happly : exitCall.apply (around 4 [⟨0xB1, .none⟩]) hookPool =
      (.ok (.changed 1), ⟨around 4 [.invokeStatic 6, ⟨0xB1, .none⟩], hookPool⟩) :=
    Prod.ext (Fallible.eq_ok_of_toOption (by decide +kernel)) (by decide +kernel)
  have hbypass : ¬exitHook.Bypassed hookPool (around 4 [⟨0xB1, .none⟩]) := by
    rintro ⟨q, r, t, last, -, entered, hq, hr⟩
    have targets : ∀ i ∈ (around 4 [⟨0xB1, .none⟩]).instructions, ∀ t ∈ i.targets, t = 4 := by
      decide
    have ht : t = 4 := by
      obtain ⟨i, hi, ht⟩ | ⟨_, hh, -⟩ := entered
      · exact targets i hi t ht
      · cases hh
    obtain ⟨i, hi, hsibling⟩ := last.sibling (j := 3) (by omega) (by omega)
    obtain rfl : (⟨0xB1, .none⟩ : Instruction) = i := Option.some.inj hi
    cases hsibling
  have hpath : (around 4 [.invokeStatic 6, ⟨0xB1, .none⟩]).Path (fun _ => False) [5, 4, 1, 0] := by
    have entry : (around 4 [.invokeStatic 6, ⟨0xB1, .none⟩]).Path (fun _ => False) [0] :=
      .entry (by decide)
    exact ((entry.step (.next rfl rfl) (by decide)).step (.jump rfl (List.mem_singleton.mpr rfl))
      (by decide)).step (.next rfl rfl) (by decide)
  exact ⟨wf, happly, ran_before_return (r := 5) rfl wf (by decide) happly hbypass hpath
    ⟨_, rfl, rfl⟩⟩

/-- The branch goes to the return that the call stands before. The call is found, nothing is
inserted, and the branch leads to the return without it. -/
theorem return_without_call :
    (around 3 []).WellFormed hookPool ∧
      exitCall.apply (around 3 []) hookPool = (.ok .alreadyPresent, ⟨around 3 [], hookPool⟩) ∧
      (around 3 []).Path (fun _ => False) [3, 1, 0] ∧ (around 3 []).ReturnsAt 3 ∧
      ¬exitHook.Ran hookPool (around 3 []) 3 [1, 0] := by
  have happly : exitCall.apply (around 3 []) hookPool =
      (.ok .alreadyPresent, ⟨around 3 [], hookPool⟩) :=
    Prod.ext (Fallible.eq_ok_of_toOption (by decide +kernel)) (by decide +kernel)
  have entry : (around 3 []).Path (fun _ => False) [0] := .entry (by decide)
  refine ⟨wellFormed_around (by decide) (List.forall_mem_nil _), happly, ?_, ⟨_, rfl, rfl⟩, ?_⟩
  · exact (entry.step (.next rfl rfl) (by decide)).step (.jump rfl (List.mem_singleton.mpr rfl))
      (by decide)
  · intro h
    cases h

end Injection

end PluginGuard
