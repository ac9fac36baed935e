import PluginGuard.Proofs.ClassFile.Code.Emission

/-!
# Flow of control

Where execution can go in a body: on to the next instruction, to the targets of
a branch or a switch, back behind a subroutine call, and to the handlers of an
instruction that raises. Values are not followed, so each branch can be taken
and each `ret` can return from any subroutine call made so far.
-/
namespace PluginGuard.ClassFile

namespace Opcode

def fallsThrough (op : UInt8) : Bool := !(between 0xa7 0xb1 op || op == 0xbf || isLongBranch op)

def isSubroutineCall (op : UInt8) : Bool := op == jsr || op == jsrWide

variable {op : UInt8}

theorem isReturn_iff : isReturn op = true ↔
    op = 0xac ∨ op = 0xad ∨ op = 0xae ∨ op = 0xaf ∨ op = 0xb0 ∨ op = 0xb1 := by
  simp only [isReturn, between, Bool.and_eq_true, decide_eq_true_eq, UInt8.le_iff_toNat_le,
    ← UInt8.toNat_inj, UInt8.reduceToNat]
  omega

theorem fallsThrough_of_isReturn (h : isReturn op = true) : fallsThrough op = false := by
  obtain rfl | rfl | rfl | rfl | rfl | rfl := isReturn_iff.mp h
  all_goals rfl

theorem layout_of_isReturn (h : isReturn op = true) : layout op = some .none := by
  obtain rfl | rfl | rfl | rfl | rfl | rfl := isReturn_iff.mp h
  all_goals rfl

theorem ne_ret_of_isReturn (h : isReturn op = true) : op ≠ ret := by
  rintro rfl
  cases h

theorem fallsThrough_of_isSubroutineCall (h : isSubroutineCall op = true) :
    fallsThrough op = false := by
  rw [isSubroutineCall, Bool.or_eq_true, beq_iff_eq, beq_iff_eq] at h
  obtain rfl | rfl := h
  · rfl
  · rfl

end Opcode

structure Instruction.Straight (i : Instruction) : Prop where
  targets : i.targets = []
  falls : Opcode.fallsThrough i.opcode = true

theorem Instruction.straight_invokeStatic (method : UInt16) : (invokeStatic method).Straight :=
  ⟨rfl, rfl⟩

theorem Instruction.targets_of_isReturn {i : Instruction} (h : i.Conforms)
    (hreturn : Opcode.isReturn i.opcode = true) : i.targets = [] := by
  obtain ⟨opcode, operand⟩ := i
  obtain ⟨layout, hlayout, hfits⟩ := h
  rw [Opcode.layout_of_isReturn hreturn] at hlayout
  cases hlayout
  cases operand with
  | none => rfl
  | _ => exact hfits.elim

def Handler.Covers (h : Handler) (k : Nat) : Prop := h.start ≤ k ∧ k < h.stop

namespace Code

def ReturnsAt (c : Code) (k : Nat) : Prop :=
  ∃ i, c.instructions[k]? = some i ∧ Opcode.isReturn i.opcode = true

def Entered (c : Code) (t : Nat) : Prop :=
  (∃ i ∈ c.instructions, t ∈ i.targets) ∨ ∃ h ∈ c.handlers, h.entry = t

variable (c : Code) (raises : Nat → Prop)

/-- What can be executed after the instructions of a list, the last one first. -/
inductive Follows : List Nat → Nat → Prop
  | next {k : Nat} {i : Instruction} {past : List Nat} :
    c.instructions[k]? = some i → Opcode.fallsThrough i.opcode = true → Follows (k :: past) (k + 1)
  | jump {k : Nat} {i : Instruction} {past : List Nat} {t : Nat} :
    c.instructions[k]? = some i → t ∈ i.targets → Follows (k :: past) t
  | back {k : Nat} {i : Instruction} {past : List Nat} {s : Nat} {j : Instruction} :
    c.instructions[k]? = some i → i.opcode = Opcode.ret → s ∈ past →
    c.instructions[s]? = some j → Opcode.isSubroutineCall j.opcode = true →
    Follows (k :: past) (s + 1)
  | raise {k : Nat} {past : List Nat} {h : Handler} :
    raises k → h ∈ c.handlers → h.Covers k → Follows (k :: past) h.entry

inductive Path : List Nat → Prop
  | entry : 0 < c.size → Path [0]
  | step {past : List Nat} {k : Nat} :
    Path past → Follows c raises past k → k < c.size → Path (k :: past)

def ReturningPath (path : List Nat) : Prop :=
  c.Path raises path ∧ ∃ r past, path = r :: past ∧ c.ReturnsAt r

def trace (path : List Nat) : List Instruction := path.filterMap (c.instructions[·]?)

variable {c} {raises}

theorem Path.lt_size {path : List Nat} (h : c.Path raises path) : ∀ k ∈ path, k < c.size := by
  induction h with
  | entry hpos => exact List.forall_mem_singleton.mpr hpos
  | step _ _ hlt ih => exact List.forall_mem_cons.mpr ⟨hlt, ih⟩

theorem countP_returns {r : Nat} {past : List Nat} (hreturns : c.ReturnsAt r)
    (hfirst : ∀ k ∈ past, ¬c.ReturnsAt k) :
    (c.trace (r :: past)).countP (fun i => Opcode.isReturn i.opcode) = 1 := by
  obtain ⟨i, hi, hreturn⟩ := hreturns
  have hnone : (c.trace past).countP (fun i => Opcode.isReturn i.opcode) = 0 := by
    refine List.countP_eq_zero.mpr fun j hj hreturn => ?_
    obtain ⟨k, hk, hj⟩ := List.mem_filterMap.mp hj
    exact hfirst k hk ⟨j, hj, hreturn⟩
  rw [trace, List.filterMap_cons_some hi, List.countP_cons, hreturn, ← trace, hnone]
  rfl

theorem Path.not_returnsAt_of_mem_tail {path : List Nat} (h : c.Path raises path)
    (conforms : ∀ i ∈ c.instructions, i.Conforms)
    (hraises : ∀ k, c.ReturnsAt k → ¬raises k) : ∀ k ∈ path.tail, ¬c.ReturnsAt k := by
  induction h with
  | entry => exact List.forall_mem_nil _
  | @step past _ _ hfollows _ ih =>
    cases past with
    | nil => exact List.forall_mem_nil _
    | cons k past =>
      refine List.forall_mem_cons.mpr ⟨?_, ih⟩
      rintro ⟨i, hi, hreturn⟩
      cases hfollows with
      | next hi' hfalls =>
        cases hi.symm.trans hi'
        simp [Opcode.fallsThrough_of_isReturn hreturn] at hfalls
      | jump hi' ht =>
        cases hi.symm.trans hi'
        rw [Instruction.targets_of_isReturn (conforms i (List.mem_of_getElem? hi)) hreturn] at ht
        cases ht
      | back hi' hret =>
        cases hi.symm.trans hi'
        exact Opcode.ne_ret_of_isReturn hreturn hret
      | raise hk => exact hraises k ⟨i, hi, hreturn⟩ hk

end Code

end PluginGuard.ClassFile
