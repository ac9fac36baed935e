import Mathlib.Data.List.Infix

/-!
# Texts with parts struck out

A text whose characters are kept one by one or struck out in stretches, and what is shown of it with
a filler in the place of each stretch. What is read in there and has nothing to do with the filler
has been in the text, and none of it is struck out.
-/
namespace PluginGuard.Text

/-- The two can share characters without one of them standing beside the other. -/
def Overlaps (w s : List Char) : Prop :=
  w <:+: s ∨ s <:+: w ∨ (∃ t ∈ w.tails, t ≠ [] ∧ t <+: s) ∨ ∃ t ∈ w.inits, t ≠ [] ∧ t <:+ s

instance (w s : List Char) : Decidable (Overlaps w s) := by
  unfold Overlaps
  infer_instance

theorem not_overlaps_cons {b c : Char} {w s : List Char} (hb : b ∉ c :: s) (hc : c ∉ b :: w) :
    ¬Overlaps (b :: w) (c :: s) := by
  rintro (h | h | ⟨t, ht, hne, h⟩ | ⟨t, ht, hne, h⟩)
  · exact hb (h.subset List.mem_cons_self)
  · exact hc (h.subset List.mem_cons_self)
  · obtain ⟨d, t, rfl⟩ := List.exists_cons_of_ne_nil hne
    obtain ⟨rfl, -⟩ := List.cons_prefix_cons.mp h
    exact hc (((List.mem_tails _ _).mp ht).subset List.mem_cons_self)
  · obtain ⟨d, t, rfl⟩ := List.exists_cons_of_ne_nil hne
    obtain ⟨rfl, -⟩ := List.cons_prefix_cons.mp ((List.mem_inits _ _).mp ht)
    exact hb (h.subset List.mem_cons_self)

theorem not_overlaps_of_notMem {c : Char} {w s : List Char} (hc : c ∉ s) (h : ¬Overlaps w s) :
    ¬Overlaps (c :: w) s := by
  rintro (hi | hi | ⟨t, ht, hne, hp⟩ | ⟨t, ht, hne, hs⟩)
  · exact hc (hi.subset List.mem_cons_self)
  · rcases List.infix_cons_iff.mp hi with hp | hi
    · cases s with
      | nil => exact h (.inr (.inl List.nil_infix))
      | cons d s => exact hc ((List.cons_prefix_cons.mp hp).1 ▸ List.mem_cons_self)
    · exact h (.inr (.inl hi))
  · rcases List.suffix_cons_iff.mp ((List.mem_tails _ _).mp ht) with rfl | ht
    · exact hc (hp.subset List.mem_cons_self)
    · exact h (.inr (.inr (.inl ⟨t, (List.mem_tails _ _).mpr ht, hne, hp⟩)))
  · obtain ⟨d, t, rfl⟩ := List.exists_cons_of_ne_nil hne
    obtain ⟨rfl, -⟩ := List.cons_prefix_cons.mp ((List.mem_inits _ _).mp ht)
    exact hc (hs.subset List.mem_cons_self)

theorem exists_of_length_le {u v x y : List Char} (h : u ++ v = x ++ y)
    (hle : u.length ≤ x.length) : ∃ d, x = u ++ d ∧ v = d ++ y := by
  rcases List.append_eq_append_iff.mp h with hd | ⟨d, rfl, rfl⟩
  · exact hd
  · obtain rfl : d = [] := by
      rw [List.length_append] at hle
      exact List.eq_nil_of_length_eq_zero (by omega)
    exact ⟨[], by simp, rfl⟩

theorem mem_of_length_lt {u v w x y : List Char} {c : Char} (h : u ++ (v ++ w) = x ++ c :: y)
    (hfrom : u.length ≤ x.length) (hto : x.length < (u ++ v).length) : c ∈ v := by
  obtain ⟨d, rfl, hrest⟩ := exists_of_length_le h hfrom
  rw [List.length_append, List.length_append] at hto
  obtain ⟨e, rfl, he⟩ := exists_of_length_le hrest.symm (by omega)
  cases e with
  | nil => simp at hto
  | cons b e =>
    obtain ⟨rfl, -⟩ := List.cons.inj he
    simp

inductive Part
  | kept (c : Char)
  | struck (cs : List Char) (solid : cs ≠ [])

namespace Part

def source : Part → List Char
  | kept c => [c]
  | struck cs _ => cs

def shown (filler : List Char) : Part → List Char
  | kept c => [c]
  | struck _ _ => filler

def whole (ps : List Part) : List Char := ps.flatMap source

def masked (filler : List Char) (ps : List Part) : List Char := ps.flatMap (shown filler)

variable {filler : List Char} {ps p q p' q' : List Part} {s t u v x y : List Char}

@[simp] theorem whole_nil : whole [] = [] := rfl

@[simp] theorem whole_cons (a : Part) (ps : List Part) : whole (a :: ps) = a.source ++ whole ps :=
  rfl

@[simp] theorem whole_append (ps qs : List Part) : whole (ps ++ qs) = whole ps ++ whole qs :=
  List.flatMap_append

@[simp] theorem whole_map_kept (s : List Char) : whole (s.map kept) = s := by
  induction s with
  | nil => rfl
  | cons c s ih => simp [source, ih]

@[simp] theorem masked_nil : masked filler [] = [] := rfl

@[simp] theorem masked_cons (a : Part) (ps : List Part) :
    masked filler (a :: ps) = a.shown filler ++ masked filler ps := rfl

@[simp] theorem masked_append (ps qs : List Part) :
    masked filler (ps ++ qs) = masked filler ps ++ masked filler qs :=
  List.flatMap_append

@[simp] theorem masked_map_kept (s : List Char) : masked filler (s.map kept) = s := by
  induction s with
  | nil => rfl
  | cons c s ih => simp [shown, ih]

theorem source_ne_nil (a : Part) : a.source ≠ [] := by
  cases a with
  | kept c => exact List.cons_ne_nil c []
  | struck cs solid => exact solid

theorem shown_ne_nil (hfiller : filler ≠ []) (a : Part) : a.shown filler ≠ [] := by
  cases a with
  | kept c => exact List.cons_ne_nil c []
  | struck cs solid => exact hfiller

/-- Where parts are cut is told by how much stands in front of the cut, in the text as in what is
shown of it. -/
theorem eq_of_length_flatMap {f : Part → List Char} (hf : ∀ a, f a ≠ []) (h : p ++ q = p' ++ q')
    (hlen : (p.flatMap f).length = (p'.flatMap f).length) : p = p' := by
  have hnil {a : List Part} (ha : (a.flatMap f).length = 0) : a = [] := by
    cases a with
    | nil => rfl
    | cons a as => simp [hf] at ha
  rcases List.append_eq_append_iff.mp h with ⟨a, rfl, -⟩ | ⟨a, rfl, -⟩ <;>
    simp [hnil (a := a) (by simpa using hlen)]

theorem eq_of_length_whole (h : p ++ q = p' ++ q')
    (hlen : (whole p).length = (whole p').length) : p = p' :=
  eq_of_length_flatMap source_ne_nil h hlen

theorem eq_of_masked (hfiller : filler ≠ []) (h : p ++ q = p' ++ q')
    (hmasked : masked filler p = masked filler p') : p = p' :=
  eq_of_length_flatMap (shown_ne_nil hfiller) h (congrArg List.length hmasked)

/-! ### What is shown has been in the text -/

theorem ne_nil_of_not_overlaps (h : ¬Overlaps filler s) : s ≠ [] := by
  rintro rfl
  exact h (.inr (.inl (List.nil_infix)))

theorem kept_of_masked_prefix (hnone : ¬filler <:+: s)
    (hinits : ∀ t, t ≠ [] → t <+: filler → ¬t <:+ s) (h : masked filler ps = s ++ v) :
    ∃ q, ps = s.map kept ++ q ∧ masked filler q = v := by
  induction s generalizing ps with
  | nil => exact ⟨ps, rfl, h⟩
  | cons c s ih =>
    cases ps with
    | nil => cases h
    | cons a ps =>
      cases a with
      | kept d =>
        obtain ⟨rfl, hrest⟩ := List.cons.inj h
        obtain ⟨q, rfl, hq⟩ := ih (fun hs => hnone (hs.trans (List.suffix_cons d s).isInfix))
          (fun t ht hfill hs => hinits t ht hfill (hs.trans (List.suffix_cons d s))) hrest
        exact ⟨q, rfl, hq⟩
      | struck cs solid =>
        rcases List.append_eq_append_iff.mp h with ⟨w, hw, -⟩ | ⟨w, hw, -⟩
        · exact absurd ⟨[], w, hw.symm⟩ hnone
        · exact absurd List.suffix_rfl (hinits (c :: s) (List.cons_ne_nil c s) ⟨w, hw.symm⟩)

theorem kept_of_masked (hover : ¬Overlaps filler s) (h : masked filler ps = u ++ (s ++ v)) :
    ∃ p q, ps = p ++ (s.map kept ++ q) ∧ masked filler p = u ∧ masked filler q = v := by
  have hs := ne_nil_of_not_overlaps hover
  induction ps generalizing u with
  | nil => simp_all
  | cons a ps ih =>
    cases a with
    | kept d =>
      cases u with
      | nil =>
        obtain ⟨q, hq, hshown⟩ := kept_of_masked_prefix (fun hi => hover (.inl hi))
          (fun t ht hfill hts =>
            hover (.inr (.inr (.inr ⟨t, (List.mem_inits t _).mpr hfill, ht, hts⟩)))) h
        exact ⟨[], q, hq, rfl, hshown⟩
      | cons e u =>
        obtain ⟨rfl, hrest⟩ := List.cons.inj h
        obtain ⟨p, q, rfl, rfl, rfl⟩ := ih hrest
        exact ⟨kept d :: p, q, rfl, rfl, rfl⟩
    | struck cs solid =>
      rcases List.append_eq_append_iff.mp h with ⟨w, rfl, hrest⟩ | ⟨w, hw, hrest⟩
      · obtain ⟨p, q, rfl, rfl, rfl⟩ := ih hrest
        exact ⟨struck cs solid :: p, q, rfl, rfl, rfl⟩
      · rcases eq_or_ne w [] with rfl | hne
        · obtain ⟨p, q, rfl, hp, rfl⟩ := ih (u := []) hrest.symm
          refine ⟨struck cs solid :: p, q, rfl, ?_, rfl⟩
          rw [masked_cons, hp, hw]
          simp
        · refine absurd ?_ hover
          rcases List.append_eq_append_iff.mp hrest with ⟨z, hz, -⟩ | ⟨z, hz, -⟩
          · exact .inr (.inl ⟨u, z, by rw [List.append_assoc, ← hz]; exact hw.symm⟩)
          · exact .inr (.inr (.inl ⟨w, (List.mem_tails w _).mpr ⟨u, hw.symm⟩, hne, z, hz.symm⟩))

theorem not_infix_masked (hover : ¬Overlaps filler s) (h : ¬s <:+: whole ps) :
    ¬s <:+: masked filler ps := by
  rintro ⟨u, v, huv⟩
  obtain ⟨p, q, rfl, -, -⟩ := kept_of_masked (v := v) hover (huv.symm.trans (List.append_assoc ..))
  exact h ⟨whole p, whole q, by simp⟩

/-! ### What is struck out -/

def Reaches (x s : List Char) (ps : List Part) : Prop :=
  ∃ p t solid q, ps = p ++ struck t solid :: q ∧
    (whole p).length < (x ++ s).length ∧ x.length < (whole p ++ t).length

theorem Reaches.cons (a : Part) (h : Reaches x s ps) : Reaches (a.source ++ x) s (a :: ps) := by
  obtain ⟨p, t, solid, q, rfl, hfrom, hto⟩ := h
  refine ⟨a :: p, t, solid, q, rfl, ?_, ?_⟩
  · simpa using hfrom
  · simpa using hto

theorem kept_or_reaches_head (h : whole ps = s ++ y) :
    (∃ q, ps = s.map kept ++ q ∧ whole q = y) ∨ Reaches [] s ps := by
  induction s generalizing ps with
  | nil => exact .inl ⟨ps, rfl, h⟩
  | cons c s ih =>
    cases ps with
    | nil => cases h
    | cons a ps =>
      cases a with
      | kept d =>
        obtain ⟨rfl, hrest⟩ := List.cons.inj h
        rcases ih hrest with ⟨q, rfl, hq⟩ | ⟨p, t, solid, q, rfl, hfrom, hto⟩
        · exact .inl ⟨q, rfl, hq⟩
        · exact .inr ⟨kept d :: p, t, solid, q, rfl, by simpa [source] using hfrom,
            by simp [source]⟩
      | struck cs solid =>
        exact .inr ⟨[], cs, solid, ps, rfl, by simp, by simpa [List.length_pos_iff] using solid⟩

theorem kept_or_reaches (hs : s ≠ []) (h : whole ps = x ++ (s ++ y)) :
    (∃ p q, ps = p ++ (s.map kept ++ q) ∧ whole p = x ∧ whole q = y) ∨ Reaches x s ps := by
  induction ps generalizing x with
  | nil => simp_all
  | cons a ps ih =>
    have hgo {x : List Char} (h : whole ps = x ++ (s ++ y)) :
        (∃ p q, a :: ps = p ++ (s.map kept ++ q) ∧ whole p = a.source ++ x ∧ whole q = y) ∨
          Reaches (a.source ++ x) s (a :: ps) := by
      rcases ih h with ⟨p, q, rfl, rfl, rfl⟩ | hreach
      · exact .inl ⟨a :: p, q, rfl, rfl, rfl⟩
      · exact .inr (hreach.cons a)
    rcases List.append_eq_append_iff.mp h with ⟨w, rfl, hrest⟩ | ⟨w, hw, hrest⟩
    · exact hgo hrest
    · rcases eq_or_ne w [] with rfl | hne
      · simpa [hw] using hgo (x := []) hrest.symm
      · cases a with
        | kept d =>
          obtain ⟨rfl, -⟩ : x = [] ∧ w = [d] := by
            simpa [hne, source, List.singleton_eq_append_iff] using hw
          rcases kept_or_reaches_head (s := s) (y := y) h with ⟨q, hps, hq⟩ | hreach
          · exact .inl ⟨[], q, hps, rfl, hq⟩
          · exact .inr hreach
        | struck cs solid =>
          obtain rfl : cs = x ++ w := hw
          refine .inr ⟨[], x ++ w, solid, ps, rfl, ?_, ?_⟩
          · simpa using Nat.add_pos_right x.length (List.length_pos_iff.mpr hs)
          · simpa using List.length_pos_iff.mpr hne

theorem not_reaches_head : ¬Reaches [] s (s.map kept ++ q) := by
  induction s with
  | nil => simp [Reaches]
  | cons c s ih =>
    rintro ⟨_ | ⟨a, p⟩, t, solid, q', hps, hfrom, -⟩
    · cases hps
    · obtain ⟨rfl, hrest⟩ := List.cons.inj hps
      refine ih ⟨p, t, solid, q', hrest, by simpa [source] using hfrom, ?_⟩
      simpa using Nat.add_pos_right (whole p).length (List.length_pos_iff.mpr solid)

theorem not_reaches : ¬Reaches (whole p) s (p ++ (s.map kept ++ q)) := by
  induction p with
  | nil => exact not_reaches_head
  | cons a p ih =>
    rintro ⟨_ | ⟨b, p'⟩, t, solid, q', hps, hfrom, hto⟩
    · obtain ⟨rfl, -⟩ := List.cons.inj hps
      rw [whole_cons, source, List.length_append, whole_nil, List.nil_append] at hto
      omega
    · obtain ⟨rfl, hrest⟩ := List.cons.inj hps
      exact ih ⟨p', t, solid, q', hrest, by simpa using hfrom, by simpa using hto⟩

end Part

/-- Nowhere else does the text read `s`. -/
def OnlyAt (s cs : List Char) (place : Nat) : Prop := ∀ j < cs.length, s <+: cs.drop j → j = place

instance (s cs : List Char) (place : Nat) : Decidable (OnlyAt s cs place) := by
  unfold OnlyAt
  infer_instance

theorem OnlyAt.length_eq {s u v cs : List Char} {place : Nat} (h : OnlyAt s cs place)
    (hs : s ≠ []) (hcs : cs = u ++ (s ++ v)) : u.length = place := by
  subst hcs
  refine h _ ?_ ⟨v, by simp⟩
  simpa using Nat.add_pos_left (List.length_pos_iff.mpr hs) v.length

namespace Part

variable {filler s u v x : List Char} {ps p q : List Part}

theorem not_infix_of_reaches (hover : ¬Overlaps filler s) (honly : OnlyAt s (whole ps) x.length)
    (h : Reaches x s ps) : ¬s <:+: masked filler ps := by
  rintro ⟨u, v, huv⟩
  obtain ⟨p, q, rfl, -, -⟩ := kept_of_masked (v := v) hover (huv.symm.trans (List.append_assoc ..))
  have hne := ne_nil_of_not_overlaps hover
  have hlen := honly.length_eq (u := whole p) (v := whole q) hne (by simp)
  obtain ⟨p', t, solid, q', hps, hfrom, hto⟩ := h
  refine not_reaches (s := s) ⟨p', t, solid, q', hps, ?_, by rwa [hlen]⟩
  rw [List.length_append] at hfrom ⊢
  rwa [hlen]

theorem onlyAt_masked (hover : ¬Overlaps filler s)
    (honly : OnlyAt s (whole ps) (whole p).length) (hps : ps = p ++ (s.map kept ++ q)) :
    OnlyAt s (masked filler ps) (masked filler p).length := by
  rintro j hj ⟨v, hv⟩
  have hcut : masked filler ps = (masked filler ps).take j ++ (s ++ v) := by
    rw [hv, List.take_append_drop]
  obtain ⟨p', q', hps', hp', -⟩ := kept_of_masked hover hcut
  have hlen := honly.length_eq (u := whole p') (v := whole q') (ne_nil_of_not_overlaps hover)
    (by simp [hps'])
  rw [← eq_of_length_whole (hps'.symm.trans hps) hlen, hp', List.length_take_of_le hj.le]

end Part

end PluginGuard.Text
