import PluginGuard.ClassFile.Code.Decode
import PluginGuard.Proofs.Fallible

/-!
# What readers take

A reader that succeeds has gone past some bytes. For the fixed fields the bytes
gone past are exactly what the writer of the field puts, so reading and writing
are two sides of one relation between values and byte strings. Lists of fields
and counted lists inherit the relation from their elements.
-/
namespace PluginGuard.ClassFile

structure Cursor.Past (c : Cursor) (bs : List UInt8) (c' : Cursor) : Prop where
  rest_eq : c.rest = bs ++ c'.rest
  position_eq : c'.position = c.position + bs.length

namespace Cursor.Past

theorem refl (c : Cursor) : c.Past [] c := ⟨rfl, rfl⟩

theorem nil_iff {c c' : Cursor} : c.Past [] c' ↔ c' = c := by
  constructor
  · intro h
    rcases c' with ⟨p', rest'⟩
    obtain rfl : c.rest = rest' := h.rest_eq
    obtain rfl : p' = c.position := h.position_eq
    rfl
  · intro h
    subst h
    exact refl _

theorem trans {c d c' : Cursor} {bs cs : List UInt8} (h : c.Past bs d) (h' : d.Past cs c') :
    c.Past (bs ++ cs) c' := by
  refine ⟨?_, ?_⟩
  · rw [h.rest_eq, h'.rest_eq, List.append_assoc]
  · rw [h'.position_eq, h.position_eq, List.length_append, Nat.add_assoc]

theorem append_iff {c c' : Cursor} {bs cs : List UInt8} :
    c.Past (bs ++ cs) c' ↔ ∃ d, c.Past bs d ∧ d.Past cs c' := by
  constructor
  · intro h
    rcases h with ⟨hr, hp⟩
    refine ⟨⟨c.position + bs.length, cs ++ c'.rest⟩, ⟨?_, rfl⟩, ⟨rfl, ?_⟩⟩
    · rw [hr, List.append_assoc]
    · rw [hp, List.length_append, Nat.add_assoc]
  · intro h
    rcases h with ⟨d, h, h'⟩
    exact h.trans h'

theorem cons_iff {c c' : Cursor} {b : UInt8} {bs : List UInt8} :
    c.Past (b :: bs) c' ↔ ∃ d, c.Past [b] d ∧ d.Past bs c' :=
  @append_iff c c' [b] bs

end Cursor.Past

theorem Cursor.has_iff {c : Cursor} {n : Nat} : c.has n = true ↔ n ≤ c.rest.length := by
  unfold Cursor.has
  split
  · simp only [Nat.zero_le]
  · simp only [Bool.not_eq_true', List.isEmpty_eq_false_iff, ne_eq, List.drop_eq_nil_iff]
    omega

theorem Cursor.Past.has {c c' : Cursor} {bs : List UInt8} (h : c.Past bs c') :
    c.has bs.length = true := by
  rw [Cursor.has_iff, h.rest_eq, List.length_append]
  omega

namespace Reader

variable {α β : Type}

/-! ### Composed readers -/

theorem bind_eq_ok {r : Reader α} {f : α → Reader β} {c c' : Cursor} {b : β} :
    (r >>= f) c = .ok (b, c') ↔ ∃ a d, r c = .ok (a, d) ∧ f a d = .ok (b, c') := by
  change StateT.bind r f c = _ ↔ _
  cases h : r c with
  | error e => simp [StateT.bind, h, bind, Except.bind]
  | ok x =>
    obtain ⟨a, d⟩ := x
    have step : StateT.bind r f c = f a d := by simp [StateT.bind, h, bind, Except.bind]
    rw [step]
    constructor
    · exact fun hf => ⟨a, d, rfl, hf⟩
    · intro h
      rcases h with ⟨_, _, heq, hf⟩
      cases heq
      exact hf

theorem bind_of_eq_ok {r : Reader α} {f : α → Reader β} {c d : Cursor} {a : α}
    (h : r c = .ok (a, d)) : (r >>= f) c = f a d := by
  change StateT.bind r f c = _
  simp [StateT.bind, h, bind, Except.bind]

theorem pure_eq_ok {a b : α} {c c' : Cursor} :
    (pure a : Reader α) c = .ok (b, c') ↔ b = a ∧ c' = c := by
  change Except.ok (a, c) = .ok (b, c') ↔ _
  simp [eq_comm]

theorem get_eq_ok {c c' d : Cursor} :
    (get : Reader Cursor) c = .ok (d, c') ↔ d = c ∧ c' = c := by
  change Except.ok (c, c) = .ok (d, c') ↔ _
  simp [eq_comm]

theorem lift_eq_ok {e : Except Fault α} {c c' : Cursor} {a : α} :
    lift e c = .ok (a, c') ↔ e = .ok a ∧ c' = c := by
  cases e with
  | error e => simp [lift, Except.map]
  | ok x => simp [lift, Except.map, eq_comm]

theorem fail_eq_ok {fault : Fault} {c c' : Cursor} {a : α} :
    fail fault c = .ok (a, c') ↔ False := by
  simp [fail]

/-! ### Exact readers -/

/-- The reader succeeds exactly on what is written for the value it gives. -/
def Exact (written : α → List UInt8 → Prop) (r : Reader α) : Prop :=
  ∀ c a c', r c = .ok (a, c') ↔ ∃ bs, written a bs ∧ c.Past bs c'

inductive Each (written : α → List UInt8 → Prop) : List α → List UInt8 → Prop
  | nil : Each written [] []
  | cons {a : α} {as : List α} {bs cs : List UInt8} :
    written a bs → Each written as cs → Each written (a :: as) (bs ++ cs)

theorem Each.nil_iff {written : α → List UInt8 → Prop} {bs : List UInt8} :
    Each written [] bs ↔ bs = [] := by
  constructor
  · intro h
    cases h
    rfl
  · intro h
    subst h
    exact .nil

theorem Each.cons_iff {written : α → List UInt8 → Prop} {a : α} {as : List α}
    {bs : List UInt8} :
    Each written (a :: as) bs ↔ ∃ cs ds, written a cs ∧ Each written as ds ∧ bs = cs ++ ds := by
  constructor
  · intro h
    cases h
    exact ⟨_, _, ‹_›, ‹_›, rfl⟩
  · intro h
    rcases h with ⟨cs, ds, ha, has, rfl⟩
    exact .cons ha has

theorem Each.of_fun {write : α → List UInt8} {as : List α} {bs : List UInt8} :
    Each (fun a bs => bs = write a) as bs ↔ bs = as.flatMap write := by
  induction as generalizing bs with
  | nil => simp [Each.nil_iff]
  | cons a as ih => simp [Each.cons_iff, ih]

theorem Each.exists_of_mem {written : α → List UInt8 → Prop} {as : List α}
    {bs : List UInt8} (h : Each written as bs) : ∀ a ∈ as, ∃ cs, written a cs := by
  induction h with
  | nil => exact List.forall_mem_nil _
  | cons ha _ ih => exact List.forall_mem_cons.mpr ⟨⟨_, ha⟩, ih⟩

theorem Each.exists_length_le {written : α → List UInt8 → Prop} {as : List α}
    {bs : List UInt8} (h : Each written as bs) :
    ∀ a ∈ as, ∃ cs, written a cs ∧ cs.length ≤ bs.length := by
  induction h with
  | nil => exact List.forall_mem_nil _
  | cons ha _ ih =>
    simp only [List.length_append]
    refine List.forall_mem_cons.mpr ⟨⟨_, ha, Nat.le_add_right _ _⟩, fun a hmem => ?_⟩
    obtain ⟨cs, hcs, hle⟩ := ih a hmem
    exact ⟨cs, hcs, Nat.le_add_left_of_le hle⟩

theorem Each.mono {written other : α → List UInt8 → Prop} {as : List α}
    {bs : List UInt8} (h : Each written as bs) (step : ∀ a ∈ as, ∀ cs, written a cs → other a cs) :
    Each other as bs := by
  induction h with
  | nil => exact .nil
  | cons ha _ ih =>
    obtain ⟨hhead, htail⟩ := List.forall_mem_cons.mp step
    exact .cons (hhead _ ha) (ih htail)

theorem Each.length_eq {written : α → List UInt8 → Prop} {width : Nat}
    (hw : ∀ a bs, written a bs → bs.length = width) {as : List α} {bs : List UInt8}
    (h : Each written as bs) : bs.length = as.length * width := by
  induction h with
  | nil => simp
  | cons ha _ ih => rw [List.length_append, hw _ _ ha, ih, List.length_cons, Nat.succ_mul,
      Nat.add_comm]

theorem Each.and_fun_iff {p : α → Prop} {write : α → List UInt8}
    {as : List α} {bs : List UInt8} :
    Each (fun a bs => p a ∧ bs = write a) as bs ↔ (∀ a ∈ as, p a) ∧ bs = as.flatMap write := by
  induction as generalizing bs with
  | nil => simp [Each.nil_iff]
  | cons a as ih =>
    simp only [Each.cons_iff, ih, List.forall_mem_cons, List.flatMap_cons]
    constructor
    · intro h
      rcases h with ⟨_, _, ⟨ha, rfl⟩, ⟨has, rfl⟩, rfl⟩
      exact ⟨⟨ha, has⟩, rfl⟩
    · intro h
      rcases h with ⟨⟨ha, has⟩, rfl⟩
      exact ⟨_, _, ⟨ha, rfl⟩, ⟨has, rfl⟩, rfl⟩

theorem Each.of_mapM {write : α → Except Fault (List UInt8)} {as : List α} {bs : List UInt8} :
    Each (fun a bs => write a = .ok bs) as bs ↔
      ∃ parts, as.mapM write = .ok parts ∧ bs = parts.flatten := by
  induction as generalizing bs with
  | nil => simp [Each.nil_iff, Fallible.pure_eq_ok]
  | cons a as ih =>
    simp only [Each.cons_iff, List.mapM_cons, Fallible.bind_eq_ok, Fallible.pure_eq_ok, ih]
    constructor
    · intro h
      rcases h with ⟨cs, _, ha, ⟨parts, has, rfl⟩, rfl⟩
      exact ⟨cs :: parts, ⟨cs, ha, parts, has, rfl⟩, rfl⟩
    · intro h
      rcases h with ⟨_, ⟨cs, ha, parts, has, rfl⟩, rfl⟩
      exact ⟨cs, parts.flatten, ha, ⟨parts, has, rfl⟩, rfl⟩

theorem repeatedInto_eq_ok {written : α → List UInt8 → Prop} {one : Reader α}
    (exact : Exact written one) (n : Nat) {acc as : List α} {c c' : Cursor} :
    repeatedInto one n acc c = .ok (as, c') ↔
      ∃ new bs, as = acc.reverse ++ new ∧ new.length = n ∧ Each written new bs ∧
        c.Past bs c' := by
  induction n generalizing acc c with
  | zero =>
    constructor
    · intro h
      obtain ⟨rfl, rfl⟩ := by simpa [repeatedInto] using h
      exact ⟨[], [], by simp, rfl, .nil, .refl _⟩
    · intro h
      rcases h with ⟨new, bs, rfl, hn, hw, hp⟩
      obtain rfl := List.length_eq_zero_iff.mp hn
      obtain rfl := Each.nil_iff.mp hw
      obtain rfl := Cursor.Past.nil_iff.mp hp
      simp [repeatedInto]
  | succ n ih =>
    constructor
    · intro h
      simp only [repeatedInto] at h
      split at h
      · next a d hone =>
        obtain ⟨bs, hbs, hpast⟩ := (exact ..).mp hone
        obtain ⟨new, cs, rfl, hn, hw, hp⟩ := ih.mp h
        exact ⟨a :: new, bs ++ cs, by simp, by simp [hn], .cons hbs hw, hpast.trans hp⟩
      · cases h
    · intro h
      rcases h with ⟨new, bs, rfl, hn, hw, hp⟩
      cases hw with
      | nil => simp at hn
      | cons ha has =>
        obtain ⟨d, hd, hd'⟩ := Cursor.Past.append_iff.mp hp
        simp only [repeatedInto, (exact ..).mpr ⟨_, ha, hd⟩]
        exact ih.mpr ⟨_, _, by simp, by simpa using hn, has, hd'⟩

theorem Exact.repeated {written : α → List UInt8 → Prop} {one : Reader α}
    (exact : Exact written one) (n : Nat) :
    Exact (fun as bs => as.length = n ∧ Each written as bs) (repeated n one) := by
  intro c as c'
  rw [Reader.repeated, repeatedInto_eq_ok exact]
  constructor
  · intro h
    rcases h with ⟨new, bs, rfl, hn, hw, hp⟩
    exact ⟨bs, ⟨hn, hw⟩, hp⟩
  · intro h
    rcases h with ⟨bs, ⟨hn, hw⟩, hp⟩
    exact ⟨as, bs, rfl, hn, hw, hp⟩

/-! ### Whole inputs -/

theorem runOn_eq_ok {r : Reader α} {bytes : List UInt8} {a : α} :
    runOn r bytes = .ok a ↔ ∃ c', r (Cursor.start bytes) = .ok (a, c') := by
  rw [runOn]
  cases r (Cursor.start bytes) with
  | error e => simp [Except.map]
  | ok x =>
    obtain ⟨b, c'⟩ := x
    simp [Except.map]

theorem Exact.runOn_eq_ok {written : α → List UInt8 → Prop} {r : Reader α}
    (exact : Exact written r) {bytes : List UInt8} {a : α} :
    runOn r bytes = .ok a ↔ ∃ bs rest, written a bs ∧ bytes = bs ++ rest := by
  rw [Reader.runOn_eq_ok]
  constructor
  · intro h
    rcases h with ⟨c', h⟩
    obtain ⟨bs, hbs, hp⟩ := (exact ..).mp h
    exact ⟨bs, c'.rest, hbs, hp.rest_eq⟩
  · intro h
    rcases h with ⟨bs, rest, hbs, rfl⟩
    exact ⟨⟨bs.length, rest⟩, (exact ..).mpr ⟨bs, hbs, rfl, (Nat.zero_add _).symm⟩⟩

end Reader

end PluginGuard.ClassFile
