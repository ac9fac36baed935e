import PluginGuard.Proofs.ClassFile.Code.Spelling

/-!
# Instructions one after another

An instruction is an opcode with its operand, or the wide form of a variable
access. The bytes of a body are such instructions without a gap, each read at
the offset where the one before it ends.
-/
namespace PluginGuard.ClassFile

open Reader

/-! ### One instruction -/

namespace Instruction

def SpelledWide (i : Instruction) (bs : List UInt8) : Prop :=
  (Opcode.isWidenableSlot i.opcode = true ∧
    ∃ k, i.operand = .slot k true ∧ bs = [i.opcode] ++ Put.half k) ∨
  (i.opcode = Opcode.iinc ∧
    ∃ k d, i.operand = .iinc k d true ∧ bs = [i.opcode] ++ (Put.half k ++ Put.half d.toUInt16))

def Spelled (length pc : Nat) (i : Instruction) (bs : List UInt8) : Prop :=
  (∃ layout os, Opcode.layout i.opcode = some layout ∧
    i.operand.Spelled length pc layout os ∧ bs = [i.opcode] ++ os) ∨
  ∃ ws, i.SpelledWide ws ∧ bs = [Opcode.wide] ++ ws

theorem Spelled.length_pos {length pc : Nat} {i : Instruction} {bs : List UInt8}
    (h : i.Spelled length pc bs) : 0 < bs.length := by
  obtain ⟨_, os, -, -, rfl⟩ | ⟨ws, -, rfl⟩ := h
  · simp
  · simp

theorem exact_readWide (pc : Nat) : Exact SpelledWide (readWide pc) := by
  have hiinc : Opcode.isWidenableSlot Opcode.iinc = false := by decide
  intro c i c'
  constructor
  · intro h
    rw [readWide, bind_eq_ok] at h
    obtain ⟨op, c1, h1, h⟩ := h
    rw [byte_eq_ok] at h1
    split at h
    · next hop =>
      simp only [bind_eq_ok, half_eq_ok, signedHalf_eq_ok, pure_eq_ok] at h
      obtain ⟨k, c2, h2, d, c3, h3, rfl, rfl⟩ := h
      exact ⟨_, .inr ⟨eq_of_beq hop, k, d, rfl, rfl⟩, h1.trans (h2.trans h3)⟩
    · split at h
      · next hop =>
        simp only [bind_eq_ok, half_eq_ok, pure_eq_ok] at h
        obtain ⟨k, c2, h2, rfl, rfl⟩ := h
        exact ⟨_, .inl ⟨hop, k, rfl, rfl⟩, h1.trans h2⟩
      · cases h
  · intro h
    rcases h with ⟨bs, hbs, hp⟩
    obtain ⟨op, operand⟩ := i
    rw [readWide, bind_eq_ok]
    obtain ⟨hop, k, rfl, rfl⟩ | ⟨rfl, k, d, rfl, rfl⟩ := hbs
    · obtain ⟨c1, h1, h2⟩ := Cursor.Past.append_iff.mp hp
      have hne : op ≠ Opcode.iinc := by
        intro h
        subst h
        rw [hiinc] at hop
        cases hop
      refine ⟨op, c1, byte_eq_ok.mpr h1, ?_⟩
      rw [if_neg (by simpa using hne), if_pos hop]
      simp only [bind_eq_ok, half_eq_ok, pure_eq_ok]
      exact ⟨k, c', h2, rfl, rfl⟩
    · obtain ⟨c1, h1, hp⟩ := Cursor.Past.append_iff.mp hp
      obtain ⟨c2, h2, h3⟩ := Cursor.Past.append_iff.mp hp
      refine ⟨Opcode.iinc, c1, byte_eq_ok.mpr h1, ?_⟩
      rw [if_pos (beq_self_eq_true _)]
      simp only [bind_eq_ok, half_eq_ok, signedHalf_eq_ok, pure_eq_ok]
      exact ⟨k, c2, h2, d, c', h3, rfl, rfl⟩

theorem read_eq_ok {length : Nat} {c c' : Cursor} {i : Instruction} :
    read length c = .ok (i, c') ↔ ∃ bs, i.Spelled length c.position bs ∧ c.Past bs c' := by
  have hwide : Opcode.layout Opcode.wide = none := by decide
  simp only [read, bind_eq_ok, get_eq_ok, byte_eq_ok]
  constructor
  · intro h
    rcases h with ⟨_, _, ⟨rfl, rfl⟩, op, c1, h1, h⟩
    split at h
    · next hop =>
      obtain ⟨ws, hws, h2⟩ := (exact_readWide _ _ _ _).mp h
      rw [eq_of_beq hop] at h1
      exact ⟨_, .inr ⟨ws, hws, rfl⟩, h1.trans h2⟩
    · cases hlayout : Opcode.layout op with
      | none =>
        rw [hlayout] at h
        cases h
      | some layout =>
        simp only [hlayout, bind_eq_ok, exact_readOperand _ _ _ _ _ _, pure_eq_ok] at h
        obtain ⟨o, c2, ⟨os, hos, h2⟩, rfl, rfl⟩ := h
        exact ⟨_, .inl ⟨layout, os, hlayout, hos, rfl⟩, h1.trans h2⟩
  · intro h
    rcases h with ⟨bs, hbs, hp⟩
    obtain ⟨op, operand⟩ := i
    obtain ⟨layout, os, hlayout, hos, rfl⟩ | ⟨ws, hws, rfl⟩ := hbs
    · obtain ⟨c1, h1, h2⟩ := Cursor.Past.append_iff.mp hp
      have hne : op ≠ Opcode.wide := by
        intro h
        subst h
        rw [hwide] at hlayout
        cases hlayout
      refine ⟨c, c, ⟨rfl, rfl⟩, op, c1, h1, ?_⟩
      rw [if_neg (by simpa using hne)]
      simp only [hlayout, bind_eq_ok, exact_readOperand _ _ _ _ _ _, pure_eq_ok]
      exact ⟨operand, c', ⟨os, hos, h2⟩, rfl, rfl⟩
    · obtain ⟨c1, h1, h2⟩ := Cursor.Past.append_iff.mp hp
      refine ⟨c, c, ⟨rfl, rfl⟩, Opcode.wide, c1, h1, ?_⟩
      rw [if_pos (beq_self_eq_true _)]
      exact (exact_readWide _ _ _ _).mpr ⟨ws, hws, h2⟩

/-! ### All of a body -/

inductive Sequence (length : Nat) : Nat → List (Nat × Instruction) → List UInt8 → Prop
  | nil (pc : Nat) : Sequence length pc [] []
  | cons {pc : Nat} {i : Instruction} {placed : List (Nat × Instruction)} {bs cs : List UInt8} :
    i.Spelled length pc bs → Sequence length (pc + bs.length) placed cs →
      Sequence length pc ((pc, i) :: placed) (bs ++ cs)

theorem Sequence.nil_iff {length pc : Nat} {placed : List (Nat × Instruction)} :
    Sequence length pc placed [] ↔ placed = [] := by
  constructor
  · intro h
    generalize hbs : ([] : List UInt8) = bs at h
    cases h with
    | nil => rfl
    | cons hi _ =>
      have hpos := hi.length_pos
      rw [(List.append_eq_nil_iff.mp hbs.symm).1] at hpos
      cases hpos
  · intro h
    subst h
    exact .nil pc

theorem readAllInto_end {length fuel : Nat} {acc placed : List (Nat × Instruction)}
    {c : Cursor} (hrest : c.rest = []) :
    readAllInto length fuel acc c = .ok placed ↔
      ∃ new, placed = acc.reverse ++ new ∧ Sequence length c.position new c.rest := by
  have hdone : readAllInto length fuel acc c = .ok acc.reverse := by
    cases fuel <;> simp [readAllInto, Cursor.atEnd, hrest]
  rw [hdone, hrest, Except.ok.injEq]
  constructor
  · intro h
    subst h
    exact ⟨[], (List.append_nil _).symm, .nil _⟩
  · intro h
    rcases h with ⟨new, rfl, hnew⟩
    rw [Sequence.nil_iff.mp hnew, List.append_nil]

/-- Every instruction takes a byte, so the bytes left bound the steps needed. -/
theorem readAllInto_eq_ok {length fuel : Nat} {acc placed : List (Nat × Instruction)}
    {c : Cursor} (hfuel : c.rest.length ≤ fuel) :
    readAllInto length fuel acc c = .ok placed ↔
      ∃ new, placed = acc.reverse ++ new ∧ Sequence length c.position new c.rest := by
  induction fuel generalizing acc c with
  | zero => exact readAllInto_end (List.length_eq_zero_iff.mp (Nat.le_zero.mp hfuel))
  | succ fuel ih =>
    by_cases hrest : c.rest = []
    · exact readAllInto_end hrest
    · rw [readAllInto, if_neg (by simpa [Cursor.atEnd] using hrest)]
      constructor
      · intro h
        split at h
        · next i c' hread =>
          obtain ⟨bs, hbs, hp⟩ := read_eq_ok.mp hread
          have hpos := hbs.length_pos
          have hlength := congrArg List.length hp.rest_eq
          rw [List.length_append] at hlength
          obtain ⟨new, rfl, hnew⟩ := (ih (by omega)).mp h
          rw [hp.position_eq] at hnew
          refine ⟨(c.position, i) :: new, by simp, ?_⟩
          rw [hp.rest_eq]
          exact .cons hbs hnew
        · cases h
      · intro h
        rcases h with ⟨new, rfl, hnew⟩
        generalize hcs : c.rest = rest at hnew
        cases hnew with
        | nil => exact absurd hcs hrest
        | @cons _ i placed bs cs hbs hnew =>
          have hpos := hbs.length_pos
          have hp : c.Past bs ⟨c.position + bs.length, cs⟩ := ⟨hcs, rfl⟩
          rw [hcs, List.length_append] at hfuel
          simp only [read_eq_ok.mpr ⟨bs, hbs, hp⟩]
          exact (ih (by simp only; omega)).mpr ⟨placed, by simp, hnew⟩

theorem readAll_eq_ok {bytes : List UInt8} {placed : List (Nat × Instruction)} :
    readAll bytes = .ok placed ↔ Sequence bytes.length 0 placed bytes := by
  have hall := @readAllInto_eq_ok bytes.length bytes.length [] placed (Cursor.start bytes)
    (Nat.le_refl _)
  rw [readAll, hall]
  simp [Cursor.start]

end Instruction

end PluginGuard.ClassFile
