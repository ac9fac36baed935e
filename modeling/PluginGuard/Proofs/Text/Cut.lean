import Mathlib.Data.List.TakeWhile
import PluginGuard.Text.Character
import PluginGuard.Text.Cut
import PluginGuard.Text.Numeral

/-!
# Cuts and numbers in a text

A text falls apart at its first or last separator exactly where one side holds no other
one. A text that does not end in a blank is not trimmed there, and a port that is written
in decimal digits reads back.
-/
namespace PluginGuard.Text

/-! ### Cuts -/

theorem cutWhere?_append {sep : Char → Bool} {word : List Char} (hword : ∀ c ∈ word, sep c = false)
    {s : Char} (hs : sep s = true) (rest : List Char) :
    cutWhere? sep (word ++ s :: rest) = some (word, rest) := by
  have hskip : ∀ c ∈ word, (!sep c) = true := fun c hc => by rw [hword c hc, Bool.not_false]
  have hdrop : (word ++ s :: rest).dropWhile (!sep ·) = s :: rest := by
    rw [List.dropWhile_append_of_pos hskip, List.dropWhile_cons, hs]
    rfl
  have htake : (word ++ s :: rest).takeWhile (!sep ·) = word := by
    rw [List.takeWhile_append_of_pos hskip, List.takeWhile_cons, hs]
    exact List.append_nil word
  rw [cutWhere?, hdrop, htake]

theorem cutWhere?_eq_none {sep : Char → Bool} {cs : List Char} (h : ∀ c ∈ cs, sep c = false) :
    cutWhere? sep cs = none := by
  have hdrop : cs.dropWhile (!sep ·) = [] :=
    List.dropWhile_eq_nil_iff.mpr fun c hc => by rw [h c hc, Bool.not_false]
  rw [cutWhere?, hdrop]

/-- The last separator is looked for from behind, where it is the first one. -/
theorem beq_eq_false_of_mem_reverse {sep : Char} {cs : List Char} (h : sep ∉ cs) :
    ∀ c ∈ cs.reverse, (c == sep) = false := fun _ hc =>
  beq_eq_false_iff_ne.mpr (ne_of_mem_of_not_mem (List.mem_reverse.mp hc) h)

theorem cutLast?_append {sep : Char} (before : List Char) {after : List Char} (h : sep ∉ after) :
    cutLast? sep (before ++ sep :: after) = some (before, after) := by
  rw [cutLast?, List.reverse_append, List.reverse_cons, List.append_assoc, List.singleton_append,
    cutFirst?, cutWhere?_append (beq_eq_false_of_mem_reverse h) (beq_self_eq_true sep),
    Option.map_some]
  simp only [List.reverse_reverse]

theorem cutLast?_eq_none {sep : Char} {cs : List Char} (h : sep ∉ cs) : cutLast? sep cs = none := by
  rw [cutLast?, cutFirst?, cutWhere?_eq_none (beq_eq_false_of_mem_reverse h), Option.map_none]

theorem exists_last_of_mem {sep : Char} {cs : List Char} (h : sep ∈ cs) :
    ∃ before after, cs = before ++ sep :: after ∧ sep ∉ after := by
  obtain ⟨after, before, hcs, hafter⟩ := List.eq_append_cons_of_mem (List.mem_reverse.mpr h)
  refine ⟨before.reverse, after.reverse, ?_, fun hmem => hafter (List.mem_reverse.mp hmem)⟩
  rw [← List.reverse_reverse cs, hcs, List.reverse_append, List.reverse_cons, List.append_assoc,
    List.singleton_append]

/-! ### Trimming -/

def NoBlankEnd (cs : List Char) : Prop := ∀ c ∈ cs.getLast?, isBlank c = false

theorem any_getLast?_iff {cs : List Char} :
    cs.getLast?.any isBlank = false ↔ NoBlankEnd cs := by
  rw [NoBlankEnd]
  cases cs.getLast? <;> simp

instance (cs : List Char) : Decidable (NoBlankEnd cs) :=
  decidable_of_iff _ any_getLast?_iff

theorem NoBlankEnd.append {lead cs : List Char} (hlead : NoBlankEnd lead) (h : NoBlankEnd cs) :
    NoBlankEnd (lead ++ cs) := by
  intro c hc
  rw [List.getLast?_append, Option.mem_def, Option.or_eq_some_iff] at hc
  rcases hc with hc | ⟨-, hc⟩
  · exact h c hc
  · exact hlead c hc

theorem NoBlankEnd.of_forall {cs : List Char} (h : ∀ c ∈ cs, isBlank c = false) : NoBlankEnd cs :=
  fun c hc => h c (List.mem_of_getLast? hc)

theorem trimEndChars_of_noBlankEnd {cs : List Char} (h : NoBlankEnd cs) : trimEndChars cs = cs := by
  rw [trimEndChars]
  cases hlast : cs.reverse with
  | nil => simpa using hlast.symm
  | cons c rest =>
    have hc : isBlank c = false := h c (by simp [← List.head?_reverse, hlast])
    rw [List.dropWhile_cons, hc, if_neg Bool.false_ne_true, ← hlast, List.reverse_reverse]

theorem trimEndChars_append_blanks {cs blanks : List Char} (h : NoBlankEnd cs)
    (hblanks : ∀ c ∈ blanks, isBlank c = true) : trimEndChars (cs ++ blanks) = cs := by
  have hreverse : ∀ c ∈ blanks.reverse, isBlank c = true :=
    fun c hc => hblanks c (List.mem_reverse.mp hc)
  rw [trimEndChars, List.reverse_append, List.dropWhile_append_of_pos hreverse]
  exact trimEndChars_of_noBlankEnd h

theorem trimChars_cons {c : Char} {cs : List Char} (hc : isBlank c = false)
    (h : NoBlankEnd (c :: cs)) : trimChars (c :: cs) = c :: cs := by
  rw [trimChars, trimStartChars, List.dropWhile_cons, hc, if_neg Bool.false_ne_true,
    trimEndChars_of_noBlankEnd h]

/-! ### Ports -/

namespace Numeral

theorem isDigit_of_mem_toDigits {n : Nat} {c : Char} (h : c ∈ Nat.toDigits 10 n) :
    Ascii.isDigit c = true := by
  have hc := Nat.isDigit_of_mem_toDigits (by decide) (by decide) h
  rw [Char.isDigit, Bool.and_eq_true, decide_eq_true_eq, decide_eq_true_eq] at hc
  rw [Ascii.isDigit, Bool.and_eq_true, decide_eq_true_eq, decide_eq_true_eq]
  exact hc

theorem digits?_toDigits (n : Nat) : digits? (Nat.toDigits 10 n) = some n := by
  have hall : (Nat.toDigits 10 n).all Ascii.isDigit = true :=
    List.all_eq_true.mpr fun c => isDigit_of_mem_toDigits
  have hempty : (Nat.toDigits 10 n).isEmpty = false := by simp [Nat.toDigits_ne_nil]
  have hvalue : (Nat.toDigits 10 n).foldl (fun m c => m * 10 + (c.toNat - 48)) 0 = n := by
    have hread : Nat.ofDigitChars 10 (Nat.toDigits 10 n) 0 = n := Nat.ofDigitChars_ten_toDigits
    simp only [Nat.ofDigitChars_eq_foldl, Nat.mul_comm 10] at hread
    exact hread
  rw [digits?, hempty, hall, hvalue]
  rfl

theorem toList_toString (p : UInt16) : (toString p).toList = Nat.toDigits 10 p.toNat := by
  rw [show toString p = toString p.toNat from rfl, Nat.toString_eq_ofList_toDigits,
    String.toList_ofList]

theorem natural?_toDigits (n : Nat) : natural? (Nat.toDigits 10 n) = some n := by
  unfold natural?
  split
  · next rest hplus =>
    exact absurd (isDigit_of_mem_toDigits (hplus ▸ List.mem_cons_self)) (by decide)
  · exact digits?_toDigits n

theorem port?_toString (p : UInt16) : port? (toString p).toList = some p := by
  have hsmall : p.toNat < 65536 := p.toNat_lt
  rw [toList_toString, port?, natural?_toDigits]
  simp only [hsmall, if_true, UInt16.ofNat_toNat]

end Numeral

end PluginGuard.Text
