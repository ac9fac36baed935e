import PluginGuard.Hook.Builtin
import PluginGuard.Proofs.ClassFile.Code.Erasure
import PluginGuard.Proofs.Hook.Calls

/-!
# Frames around plugin code

A body with the call that enters a frame in front of it and the call that leaves
it before its returns. On every path the frame is entered first and once, and
left directly before the return; without the two calls the body and its paths
are what they were.
-/
namespace PluginGuard

open ClassFile

namespace Hook

def enterPlugin : Hook := .runtime "enterPlugin"

def exitPlugin : Hook := .runtime "exitPlugin"

end Hook

open Hook (enterPlugin exitPlugin)

def isOwn (pool : Pool) (i : Instruction) : Bool :=
  !enterPlugin.calledBy pool i && !exitPlugin.calledBy pool i

/-- The first body is the second one in a frame. The calls of the hooks raise nothing, and all
other instructions raise as they please. -/
structure Framed (pool : Pool) (t c : Code) : Prop where
  erases : Code.ErasesTo (isOwn pool) t c
  enters : ∀ raises path, t.ReturningPath (t.keptRaises (isOwn pool) raises) path →
    (∃ i, (t.trace path).getLast? = some i ∧ enterPlugin.calledBy pool i = true) ∧
      (t.trace path).countP (enterPlugin.calledBy pool) = 1
  leaves : ∀ raises path, t.ReturningPath (t.keptRaises (isOwn pool) raises) path →
    (∃ return_ call past, t.trace path = return_ :: call :: past ∧
      exitPlugin.calledBy pool call = true) ∧
      (t.trace path).countP (exitPlugin.calledBy pool) =
        (t.trace path).countP fun i => Opcode.isReturn i.opcode
  /-- Returns before the last one have raised; they have left the frame too. -/
  leavesOnce : ∀ raises path, t.ReturningPath (t.keptRaises (isOwn pool) raises) path →
    (∀ k ∈ path.tail, ¬t.ReturnsAt k) → (t.trace path).countP (exitPlugin.calledBy pool) = 1

/-! ### Bodies in a frame -/

theorem isOwn_iff {pool : Pool} {i : Instruction} :
    isOwn pool i = true ↔
      enterPlugin.calledBy pool i = false ∧ exitPlugin.calledBy pool i = false := by
  rw [isOwn, Bool.and_eq_true, Bool.not_eq_true', Bool.not_eq_true']

namespace Framed

variable {pool : Pool} {c : Code} {enter exit : UInt16}

def isReturnAt (c : Code) (k : Nat) : Bool := c.instructions[k]?.any (Opcode.isReturn ·.opcode)

def exitsOf (exit : UInt16) (c : Code) (k : Nat) : List Instruction :=
  if isReturnAt c k then [.invokeStatic exit] else []

theorem exitsOf_of_getElem? {k : Nat} {own : Instruction} (hown : c.instructions[k]? = some own) :
    exitsOf exit c k = if Opcode.isReturn own.opcode then [.invokeStatic exit] else [] := by
  rw [exitsOf, isReturnAt, hown]
  rfl

theorem plain_exitsOf (enter exit : UInt16) (c : Code) :
    Code.Plain [.invokeStatic enter] (exitsOf exit c) := by
  refine ⟨List.forall_mem_singleton.mpr (Instruction.straight_invokeStatic enter), fun k => ?_⟩
  rw [exitsOf]
  split
  · exact List.forall_mem_singleton.mpr (Instruction.straight_invokeStatic exit)
  · exact List.forall_mem_nil _

/-! ### Instructions on a path -/

theorem getLast?_trace {path : List Nat} (hpath : ∀ k ∈ path, k < c.size) :
    ((c.threaded [.invokeStatic enter] (exitsOf exit c)).trace
      (Code.expand [.invokeStatic enter] (exitsOf exit c) path)).getLast? =
        some (.invokeStatic enter) := by
  induction path with
  | nil => rw [Code.trace_expand_nil]; rfl
  | cons k past ih =>
    obtain ⟨hk, hpast⟩ := List.forall_mem_cons.mp hpath
    rw [Code.trace_expand_cons (List.getElem?_eq_getElem hk), List.getLast?_cons,
      List.getLast?_append, ih hpast]
    rfl

structure Fresh (pool : Pool) (enter exit : UInt16) (c : Code) : Prop where
  enter : pool.member enter = .ok enterPlugin.member
  exit : pool.member exit = .ok exitPlugin.member
  own : ∀ i ∈ c.instructions, isOwn pool i = true

namespace Fresh

variable (fresh : Fresh pool enter exit c)
include fresh

theorem enters_enter : enterPlugin.calledBy pool (.invokeStatic enter) = true :=
  Hook.calledBy_iff.mpr (Hook.callee?_invokeStatic fresh.enter)

theorem exits_exit : exitPlugin.calledBy pool (.invokeStatic exit) = true :=
  Hook.calledBy_iff.mpr (Hook.callee?_invokeStatic fresh.exit)

theorem enters_exit : enterPlugin.calledBy pool (.invokeStatic exit) = false := by
  rw [Hook.calledBy, Hook.callee?_invokeStatic fresh.exit]
  decide

theorem exits_enter : exitPlugin.calledBy pool (.invokeStatic enter) = false := by
  rw [Hook.calledBy, Hook.callee?_invokeStatic fresh.enter]
  decide

theorem enters_absent : ∀ i ∈ (c.threaded [] (exitsOf exit c)).instructions,
    enterPlugin.calledBy pool i = false := by
  intro i hi
  obtain (hi | ⟨k, hi⟩) | ⟨own, hown, rfl⟩ := Code.mem_instructions_threaded hi
  · cases hi
  · rw [exitsOf] at hi
    split at hi
    · exact List.mem_singleton.mp hi ▸ fresh.enters_exit
    · cases hi
  · rw [Hook.calledBy_mapTargets]
    exact (isOwn_iff.mp (fresh.own own hown)).1

theorem exits_absent : ∀ i ∈ (c.threaded [.invokeStatic enter] fun _ => []).instructions,
    exitPlugin.calledBy pool i = false := by
  intro i hi
  obtain (hi | ⟨k, hi⟩) | ⟨own, hown, rfl⟩ := Code.mem_instructions_threaded hi
  · exact List.mem_singleton.mp hi ▸ fresh.exits_enter
  · cases hi
  · rw [Hook.calledBy_mapTargets]
    exact (isOwn_iff.mp (fresh.own own hown)).2

theorem not_called {k : Nat} {own : Instruction} (hown : c.instructions[k]? = some own)
    (f : Nat → Nat) : enterPlugin.calledBy pool (own.mapTargets f) = false ∧
      exitPlugin.calledBy pool (own.mapTargets f) = false := by
  rw [Hook.calledBy_mapTargets, Hook.calledBy_mapTargets]
  exact isOwn_iff.mp (fresh.own own (List.mem_of_getElem? hown))

theorem sifts : Code.Sifts (isOwn pool) [.invokeStatic enter] (exitsOf exit c) c := by
  refine ⟨List.forall_mem_singleton.mpr ?_, fun k => ?_, fun i hi f => ?_⟩
  · rw [isOwn, fresh.enters_enter]
    rfl
  · rw [exitsOf]
    split
    · refine List.forall_mem_singleton.mpr ?_
      rw [isOwn, fresh.exits_exit, Bool.not_true, Bool.and_false]
    · exact List.forall_mem_nil _
  · rw [isOwn, Hook.calledBy_mapTargets, Hook.calledBy_mapTargets]
    exact fresh.own i hi

/-! ### Calls on a path -/

theorem countP_enters {path : List Nat} (hpath : ∀ k ∈ path, k < c.size) :
    ((c.threaded [.invokeStatic enter] (exitsOf exit c)).trace
      (Code.expand [.invokeStatic enter] (exitsOf exit c) path)).countP
        (enterPlugin.calledBy pool) = 1 := by
  induction path with
  | nil =>
    rw [Code.trace_expand_nil, List.reverse_singleton, List.countP_singleton, fresh.enters_enter]
    rfl
  | cons k past ih =>
    obtain ⟨hk, hpast⟩ := List.forall_mem_cons.mp hpath
    have hown := List.getElem?_eq_getElem hk
    have hgap : (exitsOf exit c k).reverse.countP (enterPlugin.calledBy pool) = 0 := by
      rw [List.countP_reverse, exitsOf]
      split
      · rw [List.countP_singleton, fresh.enters_exit]
        rfl
      · rfl
    rw [Code.trace_expand_cons hown, List.countP_cons, List.countP_append, ih hpast, hgap,
      (fresh.not_called hown _).1]
    rfl

theorem countP_exits {path : List Nat} (hpath : ∀ k ∈ path, k < c.size) :
    let trace := (c.threaded [.invokeStatic enter] (exitsOf exit c)).trace
      (Code.expand [.invokeStatic enter] (exitsOf exit c) path)
    trace.countP (exitPlugin.calledBy pool) =
      trace.countP fun i => Opcode.isReturn i.opcode := by
  induction path with
  | nil =>
    simp only [Code.trace_expand_nil, List.reverse_singleton, List.countP_singleton,
      fresh.exits_enter]
    rfl
  | cons k past ih =>
    obtain ⟨hk, hpast⟩ := List.forall_mem_cons.mp hpath
    have hown := List.getElem?_eq_getElem hk
    have hopcode (f : Nat → Nat) :
        (c.instructions[k].mapTargets f).opcode = c.instructions[k].opcode := rfl
    have hcall : Opcode.isReturn (Instruction.invokeStatic exit).opcode = false := rfl
    simp only [Code.trace_expand_cons hown, List.countP_cons, List.countP_append, ih hpast,
      (fresh.not_called hown _).2, exitsOf_of_getElem? hown, hopcode]
    cases Opcode.isReturn c.instructions[k].opcode with
    | true => simp [fresh.exits_exit, hcall, Nat.add_comm]
    | false => simp

theorem framed {pool₀ : Pool} (wf : c.WellFormed pool₀) :
    Framed pool (c.threaded [.invokeStatic enter] (exitsOf exit c)) c := by
  have plain := plain_exitsOf enter exit c
  have sifts := fresh.sifts
  refine ⟨Code.erasesTo_threaded wf plain sifts, ?_, ?_, ?_⟩
  · intro raises path hpath
    rw [sifts.keptRaises_eq, Code.returningPath_threaded plain] at hpath
    obtain ⟨own, ⟨hown, -⟩, rfl⟩ := hpath
    exact ⟨⟨_, getLast?_trace hown.lt_size, fresh.enters_enter⟩,
      fresh.countP_enters hown.lt_size⟩
  · intro raises path hpath
    rw [sifts.keptRaises_eq, Code.returningPath_threaded plain] at hpath
    obtain ⟨own, ⟨hown, r, past, rfl, i, hi, hreturn⟩, rfl⟩ := hpath
    have htrace := @Code.trace_expand_cons [.invokeStatic enter] (exitsOf exit c) c r i hi past
    rw [exitsOf_of_getElem? hi, if_pos hreturn] at htrace
    exact ⟨⟨_, _, _, htrace, fresh.exits_exit⟩, fresh.countP_exits hown.lt_size⟩
  · intro raises path hpath hfirst
    obtain ⟨-, r, past, rfl, hreturns⟩ := id hpath
    rw [sifts.keptRaises_eq, Code.returningPath_threaded plain] at hpath
    obtain ⟨own, ⟨hown, -⟩, heq⟩ := hpath
    rw [heq, fresh.countP_exits hown.lt_size, ← heq]
    exact Code.countP_returns hreturns hfirst

end Fresh

theorem leaves_once {t : Code} {raises : Nat → Prop} {path : List Nat} (framed : Framed pool t c)
    (conforms : ∀ i ∈ t.instructions, i.Conforms)
    (hpath : t.ReturningPath (t.keptRaises (isOwn pool) raises) path)
    (hraises : ∀ k, t.ReturnsAt k → ¬t.keptRaises (isOwn pool) raises k) :
    (t.trace path).countP (exitPlugin.calledBy pool) = 1 :=
  framed.leavesOnce raises path hpath (hpath.1.not_returnsAt_of_mem_tail conforms hraises)

end Framed

/-! ### Both edits -/

section Edits

variable {c : Code} {pool pool' : Pool} {enter exit : UInt16}

theorem isOwn_of_extends (hext : pool.Extends pool')
    (linked : ∀ i ∈ c.instructions, i.opcode = Opcode.invokeStatic →
      ∃ m, Hook.callee? pool i = some m)
    (fresh : ∀ i ∈ c.instructions, ∀ m, Hook.callee? pool i = some m →
      ¬(m.owner = Hook.runtimeClass ∧ m.descriptor = Hook.descriptor)) :
    ∀ i ∈ c.instructions, isOwn pool' i = true := by
  intro i hi
  have hcallee := Hook.callee?_eq_of_extends hext (linked i hi)
  have absent (name : String) : (Hook.runtime name).calledBy pool' i = false := by
    refine Bool.eq_false_of_not_eq_true fun hcall => ?_
    rw [Hook.calledBy_iff, hcallee] at hcall
    exact fresh i hi _ hcall ⟨rfl, rfl⟩
  rw [isOwn, enterPlugin, exitPlugin, absent, absent]
  rfl

theorem exitGap_eq_exitsOf {lead : List Instruction}
    (hnone : ∀ i ∈ (c.threaded lead fun _ => []).instructions,
      exitPlugin.calledBy pool i = false) :
    exitPlugin.exitGap pool (.invokeStatic exit) lead (fun _ => []) c =
      Framed.exitsOf exit c := by
  funext k
  refine if_congr ?_ rfl rfl
  rw [Hook.mem_pendingExits, Framed.isReturnAt, Option.any_eq_true]
  constructor
  · intro h
    obtain ⟨i, hi, hreturn, -⟩ := h
    obtain ⟨-, hput⟩ | ⟨r, own, hown, hplace, rfl⟩ := Code.inserted_or_own hi
    · exact absurd rfl (hput k)
    · obtain rfl := (strictMono_place _ _).injective hplace
      exact ⟨own, hown, hreturn⟩
  · intro h
    obtain ⟨own, hown, hreturn⟩ := h
    refine ⟨_, Code.getElem?_place hown, hreturn, Hook.inRun_eq_false fun i hi => hnone i ?_⟩
    exact List.mem_of_mem_take (List.mem_reverse.mp hi)

variable {o o' : Outcome} {w w' : Workpiece}

theorem framed_of_enter_exit (wf : c.WellFormed pool) (hpool : pool.size < 65536)
    (own : ∀ pool', pool.Extends pool' → ∀ i ∈ c.instructions, isOwn pool' i = true)
    (hrun : (enterPlugin.insertCall .begin).run.run ⟨c, pool⟩ = (.ok o, w))
    (hrun' : (exitPlugin.insertCall .end_).run.run ⟨w.code, w.pool⟩ = (.ok o', w')) :
    Framed w'.pool w'.code c := by
  have ordered : ∀ a ∈ c.attributes, a.Ordered := fun a ha => (wf.attributes a ha).ordered
  rw [← Code.threaded_nil c] at hrun
  obtain ⟨k, hinterned, hcode⟩ := Hook.insertCall_begin_eq_ok Code.Plain.nil ordered hpool hrun
  have habsent : enterPlugin.inRun w.pool c.instructions = false :=
    Hook.inRun_eq_false fun i hi => (isOwn_iff.mp (own _ hinterned.extends_ i hi)).1
  rw [Code.threaded_nil, habsent, if_neg Bool.false_ne_true] at hcode
  have plain : Code.Plain [.invokeStatic k] fun _ => [] :=
    ⟨(Framed.plain_exitsOf k k c).lead, fun _ => List.forall_mem_nil _⟩
  rw [hcode.2] at hrun'
  obtain ⟨k', hinterned', hcode'⟩ :=
    Hook.insertCall_end_eq_ok plain ordered hinterned.reached hrun'
  have fresh : Framed.Fresh w'.pool k k' c := ⟨hinterned'.extends_.member hinterned.member,
    hinterned'.member, own _ (hinterned.extends_.trans hinterned'.extends_)⟩
  rw [hcode', exitGap_eq_exitsOf fresh.exits_absent]
  exact fresh.framed wf

theorem framed_of_exit_enter (wf : c.WellFormed pool) (hpool : pool.size < 65536)
    (own : ∀ pool', pool.Extends pool' → ∀ i ∈ c.instructions, isOwn pool' i = true)
    (hrun : (exitPlugin.insertCall .end_).run.run ⟨c, pool⟩ = (.ok o, w))
    (hrun' : (enterPlugin.insertCall .begin).run.run ⟨w.code, w.pool⟩ = (.ok o', w')) :
    Framed w'.pool w'.code c := by
  have ordered : ∀ a ∈ c.attributes, a.Ordered := fun a ha => (wf.attributes a ha).ordered
  rw [← Code.threaded_nil c] at hrun
  obtain ⟨k, hinterned, hcode⟩ := Hook.insertCall_end_eq_ok Code.Plain.nil ordered hpool hrun
  have habsent : ∀ i ∈ (c.threaded [] fun _ => []).instructions,
      exitPlugin.calledBy w.pool i = false := by
    rw [Code.threaded_nil]
    exact fun i hi => (isOwn_iff.mp (own _ hinterned.extends_ i hi)).2
  rw [exitGap_eq_exitsOf habsent] at hcode
  have plain : Code.Plain [] (Framed.exitsOf k c) :=
    ⟨List.forall_mem_nil _, (Framed.plain_exitsOf k k c).gap⟩
  rw [hcode] at hrun'
  obtain ⟨k', hinterned', hcode'⟩ :=
    Hook.insertCall_begin_eq_ok plain ordered hinterned.reached hrun'
  have fresh : Framed.Fresh w'.pool k' k c := ⟨hinterned'.member,
    hinterned'.extends_.member hinterned.member,
    own _ (hinterned.extends_.trans hinterned'.extends_)⟩
  rw [Hook.inRun_eq_false fresh.enters_absent, if_neg Bool.false_ne_true] at hcode'
  rw [hcode'.2]
  exact fresh.framed wf

end Edits

namespace Injection

variable {a b : Injection} {c : Code} {pool : Pool}

/-- Put the enter call in front and the exit call before the returns of a body that calls no hook
of their class, in either order: if the pool has room both edits succeed, and when both do the
body is in a frame. -/
theorem framed_of_apply
    (hedits : a.edit = .call enterPlugin .begin ∧ b.edit = .call exitPlugin .end_ ∨
      a.edit = .call exitPlugin .end_ ∧ b.edit = .call enterPlugin .begin)
    (wf : c.WellFormed pool) (hpool : pool.size < 65536)
    (linked : ∀ i ∈ c.instructions, i.opcode = Opcode.invokeStatic →
      ∃ m, Hook.callee? pool i = some m)
    (fresh : ∀ i ∈ c.instructions, ∀ m, Hook.callee? pool i = some m →
      ¬(m.owner = Hook.runtimeClass ∧ m.descriptor = Hook.descriptor)) :
    (pool.size + 12 ≤ 65535 → ∃ o w o' w', a.apply c pool = (.ok o, w) ∧
      b.apply w.code w.pool = (.ok o', w')) ∧
      ∀ o w o' w', a.apply c pool = (.ok o, w) → b.apply w.code w.pool = (.ok o', w') →
        Framed w'.pool w'.code c := by
  have ordered : ∀ a ∈ c.attributes, a.Ordered := fun a ha => (wf.attributes a ha).ordered
  constructor
  · intro hroom
    obtain ⟨h, position, h', position', ha, hb⟩ : ∃ h position h' position',
        a.edit = .call h position ∧ b.edit = .call h' position' := by
      obtain ⟨ha, hb⟩ | ⟨ha, hb⟩ := hedits
      · exact ⟨_, _, _, _, ha, hb⟩
      · exact ⟨_, _, _, _, ha, hb⟩
    have hroom₁ : pool.size + 6 ≤ 65535 := by omega
    obtain ⟨o, w, hrun, hsize⟩ :=
      Hook.exists_run_insertCall (h := h) Code.Plain.nil ordered hroom₁ position
    obtain ⟨lead, gap, plain, hcode⟩ :=
      Hook.exists_threaded_of_insertCall Code.Plain.nil ordered hpool hrun
    have hroom₂ : w.pool.size + 6 ≤ 65535 := by omega
    obtain ⟨o', w', hrun', -⟩ :=
      Hook.exists_run_insertCall (h := h') plain ordered hroom₂ position'
    rw [Code.threaded_nil] at hrun
    refine ⟨o, w, o', w', ?_, ?_⟩
    · rw [Injection.apply, ha]
      exact hrun
    · rw [Injection.apply, hb, hcode]
      exact hrun'
  · intro o w o' w' happly happly'
    have own (pool' : Pool) (hext : pool.Extends pool') := isOwn_of_extends hext linked fresh
    obtain ⟨ha, hb⟩ | ⟨ha, hb⟩ := hedits
    · rw [Injection.apply, ha] at happly
      rw [Injection.apply, hb] at happly'
      exact framed_of_enter_exit wf hpool own happly happly'
    · rw [Injection.apply, ha] at happly
      rw [Injection.apply, hb] at happly'
      exact framed_of_exit_enter wf hpool own happly happly'

def enterFrame : Injection := call "enter" (.of "a.B" "onEnable" "()V") enterPlugin .begin

def exitFrame : Injection := call "exit" (.of "a.B" "onEnable" "()V") exitPlugin .end_

def specimenPool : Pool :=
  ⟨#[none, some (.ofText "a/Other"), some (.classRef 1), some (.ofText "h"),
    some (.ofText "()V"), some (.nameAndType 3 4), some (.member .method 2 5)]⟩

/-- A loop back to the first instruction and two returns, the second one in a handler whose range
ends at the first. -/
def specimen : Code where
  maxStack := 1
  maxLocals := 1
  instructions := [.invokeStatic 6, ⟨0x99, .branch 0⟩, ⟨0xB1, .none⟩, ⟨0xB1, .none⟩]
  handlers := [⟨0, 2, 3, 0⟩]
  attributes := []

theorem wellFormed_specimen : specimen.WellFormed specimenPool where
  nonempty := by decide
  conforms := by
    simp only [specimen, List.forall_mem_cons]
    exact ⟨⟨_, rfl, trivial⟩, ⟨_, rfl, trivial⟩, ⟨_, rfl, trivial⟩, ⟨_, rfl, trivial⟩,
      List.forall_mem_nil _⟩
  targets := by decide
  handlers := by simp [specimen, Handler.Within, Code.size]
  attributes := List.forall_mem_nil _
  named := List.forall_mem_nil _

theorem framed_of_apply_specimen :
    (∃ o w o' w', enterFrame.apply specimen specimenPool = (.ok o, w) ∧
      exitFrame.apply w.code w.pool = (.ok o', w') ∧ Framed w'.pool w'.code specimen) ∧
    ∃ o w o' w', exitFrame.apply specimen specimenPool = (.ok o, w) ∧
      enterFrame.apply w.code w.pool = (.ok o', w') ∧ Framed w'.pool w'.code specimen := by
  have callee : Hook.callee? specimenPool (.invokeStatic 6) = some ⟨"a/Other", "h", "()V"⟩ := by
    decide
  have callees : ∀ i ∈ specimen.instructions, i = .invokeStatic 6 ∨
      i.opcode ≠ Opcode.invokeStatic ∧ Hook.callee? specimenPool i = none := by decide
  have linked : ∀ i ∈ specimen.instructions, i.opcode = Opcode.invokeStatic →
      ∃ m, Hook.callee? specimenPool i = some m := by
    intro i hi hop
    obtain rfl | ⟨hne, -⟩ := callees i hi
    · exact ⟨_, callee⟩
    · exact absurd hop hne
  have fresh : ∀ i ∈ specimen.instructions, ∀ m, Hook.callee? specimenPool i = some m →
      ¬(m.owner = Hook.runtimeClass ∧ m.descriptor = Hook.descriptor) := by
    intro i hi m hm
    obtain rfl | ⟨-, hnone⟩ := callees i hi
    · obtain rfl := Option.some.inj (callee.symm.trans hm)
      decide
    · cases hnone.symm.trans hm
  have hroom : specimenPool.size + 12 ≤ 65535 := by decide
  constructor
  · obtain ⟨hruns, hframed⟩ := framed_of_apply (a := enterFrame) (b := exitFrame)
      (.inl ⟨rfl, rfl⟩) wellFormed_specimen (by decide) linked fresh
    obtain ⟨o, w, o', w', happly, happly'⟩ := hruns hroom
    exact ⟨o, w, o', w', happly, happly', hframed _ _ _ _ happly happly'⟩
  · obtain ⟨hruns, hframed⟩ := framed_of_apply (a := exitFrame) (b := enterFrame)
      (.inr ⟨rfl, rfl⟩) wellFormed_specimen (by decide) linked fresh
    obtain ⟨o, w, o', w', happly, happly'⟩ := hruns hroom
    exact ⟨o, w, o', w', happly, happly', hframed _ _ _ _ happly happly'⟩

def framePool : Pool :=
  ⟨#[none, some (.ofText "warden/runtime/Hooks"), some (.classRef 1), some (.ofText "enterPlugin"),
    some (.ofText "()V"), some (.nameAndType 3 4), some (.member .method 2 5),
    some (.ofText "exitPlugin"), some (.nameAndType 7 4), some (.member .method 2 8)]⟩

def returningAgain (before between : List Instruction) (handler : Handler) : Code where
  maxStack := 0
  maxLocals := 0
  instructions := before ++ ⟨0xB1, .none⟩ :: (between ++ [⟨0xB1, .none⟩])
  handlers := [handler]
  attributes := []

/-- A return that raises has left the frame before, and the return in its handler leaves it again:
on one path the frame is left twice, and the call before the first return is not the last one. -/
theorem left_twice_of_raise :
    let c := returningAgain [] [] ⟨0, 1, 1, 0⟩
    let entered := returningAgain [.invokeStatic 6] [] ⟨1, 2, 2, 0⟩
    let t := returningAgain [.invokeStatic 6, .invokeStatic 9] [.invokeStatic 9] ⟨1, 3, 3, 0⟩
    c.WellFormed framePool ∧ (∀ i ∈ c.instructions, i.opcode ≠ Opcode.invokeStatic) ∧
      enterFrame.apply c framePool = (.ok (.changed 1), ⟨entered, framePool⟩) ∧
      exitFrame.apply entered framePool = (.ok (.changed 2), ⟨t, framePool⟩) ∧
      t.ReturningPath (t.keptRaises (isOwn framePool) (· = 0)) [4, 3, 2, 1, 0] ∧
      (t.trace [4, 3, 2, 1, 0]).countP (exitPlugin.calledBy framePool) = 2 := by
  intro c entered t
  have wf : c.WellFormed framePool := by
    refine ⟨by decide, ?_, by decide, ?_, List.forall_mem_nil _, List.forall_mem_nil _⟩
    · exact List.forall_mem_cons.mpr ⟨⟨_, rfl, trivial⟩,
        List.forall_mem_singleton.mpr ⟨_, rfl, trivial⟩⟩
    · exact List.forall_mem_singleton.mpr ⟨by decide, by decide, by decide⟩
  have happly : enterFrame.apply c framePool = (.ok (.changed 1), ⟨entered, framePool⟩) :=
    Prod.ext (Fallible.eq_ok_of_toOption (by decide +kernel)) (by decide +kernel)
  have happly' : exitFrame.apply entered framePool = (.ok (.changed 2), ⟨t, framePool⟩) :=
    Prod.ext (Fallible.eq_ok_of_toOption (by decide +kernel)) (by decide +kernel)
  have hraises : t.keptRaises (isOwn framePool) (· = 0) 2 := ⟨by decide, by decide⟩
  have hentered : t.Path (t.keptRaises (isOwn framePool) (· = 0)) [2, 1, 0] :=
    ((Code.Path.entry (by decide)).step (.next rfl rfl) (by decide)).step (.next rfl rfl)
      (by decide)
  have hraised : t.Path (t.keptRaises (isOwn framePool) (· = 0)) [4, 3, 2, 1, 0] :=
    (hentered.step (.raise hraises List.mem_cons_self ⟨by decide, by decide⟩) (by decide)).step
      (.next rfl rfl) (by decide)
  exact ⟨wf, by decide, happly, happly', ⟨hraised, 4, _, rfl, _, rfl, rfl⟩, by decide⟩

end Injection

end PluginGuard
