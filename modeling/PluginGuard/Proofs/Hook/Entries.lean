import PluginGuard.Proofs.ClassFile.Code.Rereading
import PluginGuard.Proofs.Hook.Calls

/-!
# Calls at the entry of a body

Static calls that a body begins with are made whenever the method is entered. A
hook that is called there is still called there after further insertions, in a
pool that grew, and when the body was written and read again.
-/
namespace PluginGuard

open ClassFile

namespace Hook

variable {h : Hook} {pool pool' : Pool} {i : Instruction} {is : List Instruction}

/-- The hook is called in the run of static calls that the list begins with. -/
def leads (h : Hook) (pool : Pool) (is : List Instruction) : Bool :=
  (is.takeWhile (·.opcode == Opcode.invokeStatic)).any (h.calledBy pool)

theorem leads_cons :
    h.leads pool (i :: is) =
      (i.opcode == Opcode.invokeStatic && (h.calledBy pool i || h.leads pool is)) := by
  rw [leads, List.takeWhile_cons]
  cases i.opcode == Opcode.invokeStatic with
  | false => rfl
  | true => simp [leads]

theorem leads_of_inRun (hrun : h.inRun pool is = true) : h.leads pool is = true := by
  induction is with
  | nil => cases hrun
  | cons i is ih =>
    rw [inRun_cons, Bool.and_eq_true, Bool.or_eq_true] at hrun
    obtain ⟨hsibling, hrun⟩ := hrun
    rw [leads_cons, opcode_of_siblingCalledBy hsibling, beq_self_eq_true, Bool.true_and,
      Bool.or_eq_true]
    exact hrun.imp_right ih

theorem leads_of_extends (hext : pool.Extends pool') (hleads : h.leads pool is = true) :
    h.leads pool' is = true := by
  obtain ⟨i, hi, hcall⟩ := List.any_eq_true.mp hleads
  exact List.any_eq_true.mpr
    ⟨i, hi, calledBy_iff.mpr (callee?_of_extends hext (calledBy_iff.mp hcall))⟩

theorem leads_eq_of_extends (hext : pool.Extends pool')
    (linked : ∀ i ∈ is.takeWhile (·.opcode == Opcode.invokeStatic), ∃ m, callee? pool i = some m) :
    h.leads pool' is = h.leads pool is := by
  rw [leads, leads, Bool.eq_iff_iff, List.any_eq_true, List.any_eq_true]
  refine exists_congr fun i => and_congr_right fun hi => ?_
  rw [calledBy, calledBy, callee?_eq_of_extends hext fun _ => linked i hi]

/-! ### More calls -/

theorem leads_append {front : List Instruction}
    (hstatic : ∀ i ∈ front, i.opcode = Opcode.invokeStatic) (hleads : h.leads pool is = true) :
    h.leads pool (front ++ is) = true := by
  induction front with
  | nil => exact hleads
  | cons i front ih =>
    obtain ⟨hi, hfront⟩ := List.forall_mem_cons.mp hstatic
    rw [List.cons_append, leads_cons, hi, ih hfront]
    simp

theorem leads_mapTargets (f : Nat → Nat) :
    h.leads pool (is.map (Instruction.mapTargets f)) = h.leads pool is := by
  induction is with
  | nil => rfl
  | cons i is ih =>
    rw [List.map_cons, leads_cons, leads_cons, ih, calledBy_mapTargets]
    rfl

variable {lead : List Instruction} {gap : Nat → List Instruction}

theorem leads_weave (hgap : ∀ k, ∀ i ∈ gap k, i.opcode = Opcode.invokeStatic)
    (hleads : h.leads pool is = true) (k : Nat) : h.leads pool (weave gap k is) = true := by
  induction is generalizing k with
  | nil => cases hleads
  | cons i is ih =>
    refine leads_append (hgap k) ?_
    rw [leads_cons, Bool.and_eq_true, Bool.or_eq_true] at hleads ⊢
    exact ⟨hleads.1, hleads.2.imp_right fun h => ih h (k + 1)⟩

theorem leads_threaded {c : Code} (hlead : ∀ i ∈ lead, i.opcode = Opcode.invokeStatic)
    (hgap : ∀ k, ∀ i ∈ gap k, i.opcode = Opcode.invokeStatic)
    (hleads : h.leads pool c.instructions = true) :
    h.leads pool (c.threaded lead gap).instructions = true :=
  leads_append hlead (leads_weave hgap ((leads_mapTargets _).trans hleads) 0)

/-! ### Written bodies -/

theorem written_of_invokeStatic (conforms : i.Conforms) (hop : i.opcode = Opcode.invokeStatic)
    (widened : Bool) : i.written widened = i := by
  obtain ⟨opcode, operand⟩ := i
  obtain rfl : opcode = Opcode.invokeStatic := hop
  obtain ⟨layout, hlayout, hfits⟩ := conforms
  cases hlayout
  cases operand with
  | constant k => rfl
  | _ => exact hfits.elim

theorem leads_written {c : Code} {l : BodyLayout} (hl : c.layout = .ok l)
    (conforms : ∀ i ∈ c.instructions, i.Conforms) (hleads : h.leads pool c.instructions = true) :
    h.leads pool (c.written l).instructions = true := by
  have hlength := (Code.settled_of_layout hl).widens.length_eq
  rw [Code.written]
  generalize c.instructions = is at hlength conforms hleads
  generalize l.widened = ws at hlength
  induction is generalizing ws with
  | nil => cases hleads
  | cons i is ih =>
    obtain ⟨hi, his⟩ := List.forall_mem_cons.mp conforms
    cases ws with
    | nil => cases hlength
    | cons widened ws =>
      rw [leads_cons, Bool.and_eq_true, Bool.or_eq_true, beq_iff_eq] at hleads
      change h.leads pool (i.written widened :: (is.zip ws).map _) = true
      rw [written_of_invokeStatic hi hleads.1, leads_cons, hleads.1, beq_self_eq_true,
        Bool.true_and, Bool.or_eq_true]
      exact hleads.2.imp_right fun h => ih his h ws (Nat.succ.inj hlength)

end Hook

/-! ### Bodies that can be written and read again -/

namespace ClassFile

theorem CodeAttribute.name_moved (f : Nat → Nat) (a : CodeAttribute) :
    (a.moved f).name = a.name := by
  cases a with
  | _ => rfl

theorem CodeAttribute.RawFits.moved {a : CodeAttribute} (h : a.RawFits) (f : Nat → Nat) :
    (a.moved f).RawFits := by
  cases a with
  | raw name info => exact h
  | _ => trivial

structure Code.Storable (pool : Pool) (c : Code) : Prop where
  wellFormed : c.WellFormed pool
  rawFits : ∀ a ∈ c.attributes, a.RawFits
  names : c.NamesResolve pool

namespace Code.Storable

variable {pool pool' : Pool} {c : Code} {info : List UInt8}

theorem of_decode (h : Code.decode info pool = .ok c) (names : c.NamesResolve pool) :
    c.Storable pool :=
  ⟨Code.wellFormed_of_decode h, Code.rawFits_of_decode h, names⟩

theorem extend (h : c.Storable pool) (hext : pool.Extends pool') : c.Storable pool' :=
  ⟨h.wellFormed.extend h.names hext, h.rawFits, h.names.extend hext⟩

theorem threaded {lead : List Instruction} {gap : Nat → List Instruction} (h : c.Storable pool)
    (plain : Code.Plain lead gap) (hlead : ∀ i ∈ lead, i.Conforms)
    (hgap : ∀ k, ∀ i ∈ gap k, i.Conforms) : (c.threaded lead gap).Storable pool := by
  refine ⟨h.wellFormed.threaded plain hlead hgap, ?_, ?_⟩
  · exact List.forall_mem_map.mpr fun a ha => (h.rawFits a ha).moved _
  · refine List.forall_mem_map.mpr fun a ha => ?_
    rw [CodeAttribute.name_moved]
    exact h.names a ha

end Code.Storable

end ClassFile

/-! ### Insertions -/

namespace Hook

variable {g h : Hook} {pool : Pool} {c : Code} {position : Position} {outcome : Outcome}
variable {w : Workpiece}

theorem exists_calls_of_insertCall (ordered : ∀ a ∈ c.attributes, a.Ordered)
    (hpool : pool.size < 65536)
    (hrun : (h.insertCall position).run.run ⟨c, pool⟩ = (.ok outcome, w)) :
    ∃ k lead gap, h.Interned pool k w.pool ∧ (∀ i ∈ lead, i = .invokeStatic k) ∧
      (∀ j, ∀ i ∈ gap j, i = .invokeStatic k) ∧ w.code = c.threaded lead gap := by
  rw [← Code.threaded_nil c] at hrun
  cases position with
  | begin =>
    obtain ⟨k, hinterned, hcode⟩ := insertCall_begin_eq_ok .nil ordered hpool hrun
    split at hcode
    · exact ⟨k, [], _, hinterned, List.forall_mem_nil _, fun _ => List.forall_mem_nil _, hcode.2⟩
    · exact ⟨k, _, _, hinterned, List.forall_mem_singleton.mpr rfl,
        fun _ => List.forall_mem_nil _, hcode.2⟩
  | end_ =>
    obtain ⟨k, hinterned, hcode⟩ := insertCall_end_eq_ok .nil ordered hpool hrun
    refine ⟨k, [], _, hinterned, List.forall_mem_nil _, fun j i hi => ?_, hcode⟩
    rw [exitGap_nil, exits] at hi
    split at hi
    · exact List.mem_singleton.mp hi
    · cases hi

section Inserted

variable (storable : c.Storable pool) (hpool : pool.size < 65536)
  (hrun : (h.insertCall position).run.run ⟨c, pool⟩ = (.ok outcome, w))
include storable hpool hrun

theorem extends_of_insertCall : pool.Extends w.pool ∧ w.pool.size < 65536 := by
  have ordered := fun a ha => (storable.wellFormed.attributes a ha).ordered
  obtain ⟨k, _, _, hinterned, -⟩ := exists_calls_of_insertCall ordered hpool hrun
  exact ⟨hinterned.extends_, hinterned.reached⟩

theorem storable_of_insertCall : w.code.Storable w.pool := by
  have ordered := fun a ha => (storable.wellFormed.attributes a ha).ordered
  obtain ⟨k, lead, gap, hinterned, hlead, hgap, hcode⟩ :=
    exists_calls_of_insertCall ordered hpool hrun
  have straight := Instruction.straight_invokeStatic k
  have conforms : (Instruction.invokeStatic k).Conforms := ⟨_, rfl, trivial⟩
  rw [hcode]
  exact (storable.extend hinterned.extends_).threaded
    ⟨fun i hi => hlead i hi ▸ straight, fun j i hi => hgap j i hi ▸ straight⟩
    (fun i hi => hlead i hi ▸ conforms) fun j i hi => hgap j i hi ▸ conforms

theorem leads_of_insertCall (hleads : g.leads pool c.instructions = true) :
    g.leads w.pool w.code.instructions = true := by
  have ordered := fun a ha => (storable.wellFormed.attributes a ha).ordered
  obtain ⟨k, lead, gap, hinterned, hlead, hgap, hcode⟩ :=
    exists_calls_of_insertCall ordered hpool hrun
  rw [hcode]
  refine leads_threaded (fun i hi => ?_) (fun j i hi => ?_)
    (leads_of_extends hinterned.extends_ hleads)
  · rw [hlead i hi]
    rfl
  · rw [hgap j i hi]
    rfl

end Inserted

theorem leads_of_insertCall_begin (storable : c.Storable pool) (hpool : pool.size < 65536)
    (hrun : (h.insertCall .begin).run.run ⟨c, pool⟩ = (.ok outcome, w)) :
    h.leads w.pool w.code.instructions = true ∧ ((∀ n, outcome ≠ .changed n) → w.code = c) := by
  have ordered := fun a ha => (storable.wellFormed.attributes a ha).ordered
  rw [← Code.threaded_nil c] at hrun
  obtain ⟨k, hinterned, hcode⟩ := insertCall_begin_eq_ok .nil ordered hpool hrun
  rw [Code.threaded_nil] at hcode
  split at hcode
  · next hpresent =>
    rw [hcode.2]
    exact ⟨leads_of_inRun hpresent, fun _ => rfl⟩
  · have hcall : h.calledBy w.pool (.invokeStatic k) = true :=
      calledBy_iff.mpr (callee?_invokeStatic hinterned.member)
    have hleads : h.leads w.pool w.code.instructions = true := by
      rw [hcode.2]
      change h.leads w.pool (.invokeStatic k :: _) = true
      rw [leads_cons, hcall]
      rfl
    exact ⟨hleads, fun hnot => absurd hcode.1 (hnot 1)⟩

end Hook

end PluginGuard
