import PluginGuard.Proofs.Text.Parts
import PluginGuard.Proofs.Text.Reading
import PluginGuard.Security.Redaction

/-!
# Replacing credentials

What is found of a credential is replaced from left to right. The announcement is kept as far as the
replacement repeats it, the rest of it and the secret are struck out, and what follows the secret is
kept.
-/
namespace PluginGuard

theorem Text.Spot.upTo_between (before before' u after : List Char) :
    (Spot.between before (u ++ after)).upTo (.between before' after) = u.length := by
  simp [Spot.upTo, Spot.between]

namespace Redaction

open Text (Pattern Spot Part OnlyAt Overlaps)
open Text.Part (whole masked kept struck Reaches)

namespace Credential

variable {k : Credential} {before lead secret tail after rest cs : List Char} {m : Match}

structure Reads (k : Credential) (before lead secret tail after : List Char) : Prop where
  lead_reads : k.lead.Reads before lead (secret ++ (tail ++ after))
  secret_reads : k.secret.Reads (before ++ lead) secret (tail ++ after)
  tail_reads : k.tail.Reads (before ++ lead ++ secret) tail after

def IsFree (k : Credential) : Prop := k.lead.isFree ∧ k.secret.isFree ∧ k.tail.isFree

theorem Reads.elsewhere (h : k.Reads before lead secret tail after) (hfree : k.IsFree)
    (before' after' : List Char) : k.Reads before' lead secret tail after' :=
  ⟨h.lead_reads.elsewhere hfree.1 _ _, h.secret_reads.elsewhere hfree.2.1 _ _,
    h.tail_reads.elsewhere hfree.2.2 _ _⟩

/-- No announcement holds another one with a secret. -/
def IsPlain (k : Credential) : Prop :=
  ∀ ⦃before lead secret tail after before' lead' secret' tail' after' d e : List Char⦄,
    k.Reads before lead secret tail after → k.Reads before' lead' secret' tail' after' →
    lead' ≠ d ++ (lead ++ (secret ++ e))

/-! ### Matches -/

theorem isSome_matchAt? (h : k.Reads before lead secret tail after) :
    (k.matchAt? (.between before (lead ++ (secret ++ (tail ++ after))))).isSome := by
  simp only [matchAt?, List.findSome?_isSome_iff]
  refine ⟨_, h.lead_reads, _, h.secret_reads, ?_⟩
  simpa using List.ne_nil_of_mem h.tail_reads

theorem exists_of_matchAt? (h : k.matchAt? (.between before rest) = some m) :
    ∃ lead secret tail after, rest = lead ++ (secret ++ (tail ++ after)) ∧
      m = ⟨lead.length, secret.length, tail.length⟩ ∧ k.Reads before lead secret tail after := by
  obtain ⟨a, ha, h⟩ := List.exists_of_findSome?_eq_some h
  obtain ⟨b, hb, h⟩ := List.exists_of_findSome?_eq_some h
  obtain ⟨c, hc, rfl⟩ := Option.map_eq_some_iff.mp h
  have hc := List.mem_of_mem_head? hc
  obtain ⟨lead, r, rfl, rfl⟩ := Pattern.exists_of_mem_ends ha
  obtain ⟨secret, r, rfl, rfl⟩ := Pattern.exists_of_mem_ends hb
  obtain ⟨tail, after, rfl, rfl⟩ := Pattern.exists_of_mem_ends hc
  exact ⟨lead, secret, tail, after, rfl, by simp only [Spot.upTo_between], ha, hb, hc⟩

theorem reads_of_matchAt? (h : k.matchAt? (.between before (lead ++ (secret ++ (tail ++ after)))) =
    some ⟨lead.length, secret.length, tail.length⟩) : k.Reads before lead secret tail after := by
  obtain ⟨lead', secret', tail', after', hcut, hm, hreads⟩ := exists_of_matchAt? h
  obtain ⟨hlead, hsecret, htail⟩ := Match.mk.inj hm
  obtain ⟨rfl, hbehind⟩ := List.append_inj hcut hlead
  obtain ⟨rfl, hbehind'⟩ := List.append_inj hbehind hsecret
  obtain ⟨rfl, rfl⟩ := List.append_inj hbehind' htail
  exact hreads

theorem matchAt?_of_prefers (hlead : k.lead.Prefers before lead (secret ++ (tail ++ after)))
    (hsecret : k.secret.Prefers (before ++ lead) secret (tail ++ after))
    (htail : k.tail.Prefers (before ++ lead ++ secret) tail after) :
    k.matchAt? (.between before (lead ++ (secret ++ (tail ++ after)))) =
      some ⟨lead.length, secret.length, tail.length⟩ := by
  obtain ⟨as, ha⟩ := List.head?_eq_some_iff.mp hlead
  obtain ⟨bs, hb⟩ := List.head?_eq_some_iff.mp hsecret
  obtain ⟨cs, hc⟩ := List.head?_eq_some_iff.mp htail
  simp only [matchAt?, ha, hb, hc, List.findSome?_cons, List.head?_cons, Option.map_some,
    Spot.upTo_between]

def at? (k : Credential) (cs : List Char) (j : Nat) : Option Match :=
  k.matchAt? (.between (cs.take j) (cs.drop j))

theorem at?_append (before rest : List Char) :
    k.at? (before ++ rest) before.length = k.matchAt? (.between before rest) := by
  simp [at?]

structure Found (k : Credential) (cs : List Char) where
  before : List Char
  lead : List Char
  secret : List Char
  tail : List Char
  after : List Char
  cut : cs = before ++ (lead ++ (secret ++ (tail ++ after)))
  reads : k.Reads before lead secret tail after

namespace Found

variable (f : k.Found cs)

def start : Nat := f.before.length

def secretStart : Nat := f.start + f.lead.length

def secretEnd : Nat := f.secretStart + f.secret.length

def finish : Nat := f.secretEnd + f.tail.length

theorem cut_extent : cs = f.before ++ (f.lead ++ (f.secret ++ f.tail) ++ f.after) := by
  simpa using f.cut

theorem finish_le : f.finish ≤ cs.length := by
  have hlength := congrArg List.length f.cut
  simp only [List.length_append] at hlength
  rw [finish, secretEnd, secretStart, start]
  omega

theorem length_secretStart : (f.before ++ f.lead).length = f.secretStart := List.length_append

theorem length_secretEnd : (f.before ++ f.lead ++ f.secret).length = f.secretEnd := by
  rw [List.length_append, length_secretStart, secretEnd]

end Found

/-- Where a secret that the pattern prefers takes something of the credential `f`, it takes
something of its secret. -/
def HitsSecret (k : Credential) {k' : Credential} {cs : List Char} (f : k'.Found cs) : Prop :=
  ∀ j < cs.length, ∀ m ∈ k.at? cs j, j + m.lead < f.finish → f.start < j + m.lead + m.secret →
    j + m.lead < f.secretEnd ∧ f.secretStart < j + m.lead + m.secret

instance (k : Credential) {k' : Credential} (f : k'.Found cs) : Decidable (k.HitsSecret f) := by
  unfold HitsSecret
  infer_instance

/-! ### What a replacement keeps -/

/-- The filler that a replacement puts in, and how much of an announcement it repeats before. -/
structure Masking (k : Credential) where
  filler : List Char
  repeated : List Char → Nat
  replacement_eq : ∀ {before lead secret tail after}, k.Reads before lead secret tail after →
    k.replacement lead = lead.take (repeated lead) ++ (filler ++ tail)
  secret_pos : 0 < k.secret.least

namespace Masking

variable (M : k.Masking)

include M in
theorem secret_ne_nil (h : k.Reads before lead secret tail after) : secret ≠ [] := by
  have := Pattern.least_le_length h.secret_reads
  have := M.secret_pos
  exact List.ne_nil_of_length_pos (by omega)

def parts (lead secret tail : List Char) (hs : secret ≠ []) : List Part :=
  (lead.take (M.repeated lead)).map kept ++
    (.struck (lead.drop (M.repeated lead) ++ secret) (by simp [hs]) :: tail.map kept)

theorem whole_parts (hs : secret ≠ []) :
    whole (M.parts lead secret tail hs) = lead ++ (secret ++ tail) := by
  rw [parts, Part.whole_append, Part.whole_map_kept, Part.whole_cons, Part.whole_map_kept,
    Part.source, List.append_assoc, ← List.append_assoc, List.take_append_drop]

theorem masked_parts (hs : secret ≠ []) : masked M.filler (M.parts lead secret tail hs) =
    lead.take (M.repeated lead) ++ (M.filler ++ tail) := by
  rw [parts, Part.masked_append, Part.masked_map_kept, Part.masked_cons, Part.masked_map_kept,
    Part.shown]

/-- What becomes of the rest of a text behind `before`, where every match is replaced that starts
behind the one before. -/
inductive Run : List Char → List Part → Prop
  | done (before : List Char) : Run before []
  | copy {before : List Char} {c : Char} {ps : List Part}
      (hnone : k.matchAt? (.between before (c :: whole ps)) = none)
      (hrest : Run (before ++ [c]) ps) : Run before (.kept c :: ps)
  | hit {before lead secret tail : List Char} {ps : List Part} (hs : secret ≠ [])
      (hsome : k.matchAt? (.between before (lead ++ (secret ++ (tail ++ whole ps)))) =
        some ⟨lead.length, secret.length, tail.length⟩)
      (hrest : Run (before ++ whole (M.parts lead secret tail hs)) ps) :
      Run before (M.parts lead secret tail hs ++ ps)

end Masking

theorem replaceInto_acc (n : Nat) (acc : List Char) (prev : Option Char) (cs : List Char) :
    k.replaceInto n acc prev cs = acc.reverse ++ k.replaceInto n [] prev cs := by
  induction cs generalizing n acc prev with
  | nil => cases n <;> simp [replaceInto]
  | cons c cs ih =>
    cases n with
    | succ n => rw [replaceInto, replaceInto, ih]
    | zero =>
      rw [replaceInto, replaceInto]
      cases hm : k.matchAt? ⟨prev, c :: cs⟩ with
      | none =>
        rw [ih 0 (c :: acc), ih 0 [c]]
        simp
      | some m =>
        dsimp only
        split
        · rw [ih 0 (c :: acc), ih 0 [c]]
          simp
        · rw [ih _ (_ ++ acc), ih _ (_ ++ [])]
          simp

theorem replaceInto_covered (acc before u rest : List Char) :
    k.replaceInto u.length acc before.getLast? (u ++ rest) =
      k.replaceInto 0 acc (before ++ u).getLast? rest := by
  induction u generalizing before with
  | nil => simp
  | cons c u ih =>
    have ih := ih (before ++ [c])
    rw [List.getLast?_concat] at ih
    rw [List.length_cons, List.cons_append, replaceInto, ih, List.append_assoc,
      List.singleton_append]

theorem replaceInto_copy {c : Char} (before : List Char)
    (h : k.matchAt? (.between before (c :: rest)) = none) :
    k.replaceInto 0 [] before.getLast? (c :: rest) =
      c :: k.replaceInto 0 [] (before ++ [c]).getLast? rest := by
  rw [replaceInto, show k.matchAt? ⟨before.getLast?, c :: rest⟩ = none from h]
  dsimp only
  rw [replaceInto_acc, List.getLast?_concat]
  rfl

theorem replaceInto_hit (hs : secret ≠ [])
    (h : k.matchAt? (.between before (lead ++ (secret ++ (tail ++ after)))) =
      some ⟨lead.length, secret.length, tail.length⟩) :
    k.replaceInto 0 [] before.getLast? (lead ++ (secret ++ (tail ++ after))) =
      k.replacement lead ++
        k.replaceInto 0 [] (before ++ (lead ++ (secret ++ tail))).getLast? after := by
  obtain ⟨c, u, hu⟩ := List.exists_cons_of_ne_nil
    (show lead ++ (secret ++ tail) ≠ [] by simp [hs])
  have hcut : lead ++ (secret ++ (tail ++ after)) = c :: (u ++ after) := by
    rw [← List.cons_append, ← hu]
    simp
  have hlength : (⟨lead.length, secret.length, tail.length⟩ : Match).length = u.length + 1 := by
    rw [← List.length_cons, ← hu, Match.length]
    simp [Nat.add_assoc]
  have hlead : (c :: (u ++ after)).take lead.length = lead := by
    rw [← hcut, List.take_left]
  rw [hcut] at h ⊢
  rw [replaceInto, show k.matchAt? ⟨before.getLast?, c :: (u ++ after)⟩ = some _ from h]
  dsimp only
  rw [hlength, if_neg (Nat.succ_ne_zero _), Nat.add_sub_cancel, hlead, replaceInto_acc,
    ← List.getLast?_concat (l := before), replaceInto_covered, hu]
  simp

theorem Masking.exists_run (M : k.Masking) (before cs : List Char) :
    ∃ ps, M.Run before ps ∧ whole ps = cs ∧
      masked M.filler ps = k.replaceInto 0 [] before.getLast? cs := by
  induction hn : cs.length using Nat.strong_induction_on generalizing before cs with
  | _ n ih =>
    subst hn
    cases cs with
    | nil => exact ⟨[], .done before, rfl, rfl⟩
    | cons c cs =>
      cases hm : k.matchAt? (.between before (c :: cs)) with
      | none =>
        obtain ⟨ps, hrun, rfl, hmasked⟩ := ih cs.length (by simp) (before ++ [c]) cs rfl
        refine ⟨.kept c :: ps, .copy hm hrun, rfl, ?_⟩
        rw [replaceInto_copy before hm, ← hmasked]
        rfl
      | some m =>
        obtain ⟨lead, secret, tail, after, hcut, rfl, hreads⟩ := exists_of_matchAt? hm
        have hs := M.secret_ne_nil hreads
        have hlt : after.length < (c :: cs).length := by
          rw [hcut]
          have := List.length_pos_iff.mpr hs
          simp
          omega
        obtain ⟨ps, hrun, rfl, hmasked⟩ :=
          ih _ hlt (before ++ whole (M.parts lead secret tail hs)) after rfl
        rw [hcut] at hm ⊢
        refine ⟨M.parts lead secret tail hs ++ ps, .hit hs hm hrun, ?_, ?_⟩
        · simp [M.whole_parts]
        · rw [replaceInto_hit hs hm, M.replacement_eq hreads, Part.masked_append, hmasked,
            M.masked_parts, M.whole_parts]

/-! ### What is replaced -/

namespace Masking

structure Hit (M : k.Masking) (before : List Char) (ps : List Part) where
  front : List Part
  lead : List Char
  secret : List Char
  tail : List Char
  back : List Part
  solid : secret ≠ []
  parts_eq : ps = front ++ (M.parts lead secret tail solid ++ back)
  matchAt?_eq : k.matchAt? (.between (before ++ whole front)
    (lead ++ (secret ++ (tail ++ whole back)))) = some ⟨lead.length, secret.length, tail.length⟩

variable {M : k.Masking} {ps : List Part} {u v s x : List Char}

namespace Hit

def start (h : M.Hit before ps) : Nat := (whole h.front).length

def secretStart (h : M.Hit before ps) : Nat := h.start + h.lead.length

def secretEnd (h : M.Hit before ps) : Nat := h.secretStart + h.secret.length

def finish (h : M.Hit before ps) : Nat := h.secretEnd + h.tail.length

def first (hs : secret ≠ []) (hsome : k.matchAt? (.between before
    (lead ++ (secret ++ (tail ++ whole ps)))) = some ⟨lead.length, secret.length, tail.length⟩) :
    M.Hit before (M.parts lead secret tail hs ++ ps) where
  front := []
  lead := lead
  secret := secret
  tail := tail
  back := ps
  solid := hs
  parts_eq := rfl
  matchAt?_eq := by simpa using hsome

def behind (r : List Part) (h : M.Hit (before ++ whole r) ps) : M.Hit before (r ++ ps) where
  front := r ++ h.front
  lead := h.lead
  secret := h.secret
  tail := h.tail
  back := h.back
  solid := h.solid
  parts_eq := by simpa using h.parts_eq
  matchAt?_eq := by simpa using h.matchAt?_eq

theorem start_behind (r : List Part) (h : M.Hit (before ++ whole r) ps) :
    (h.behind r).start = (whole r).length + h.start := by
  simp [behind, start]

theorem finish_behind (r : List Part) (h : M.Hit (before ++ whole r) ps) :
    (h.behind r).finish = (whole r).length + h.finish := by
  simp only [finish, secretEnd, secretStart, start_behind]
  simp only [behind]
  omega

theorem whole_eq (h : M.Hit before ps) :
    whole ps = whole h.front ++ (h.lead ++ (h.secret ++ (h.tail ++ whole h.back))) := by
  conv_lhs => rw [h.parts_eq]
  simp [M.whole_parts]

theorem length_secretEnd (h : M.Hit before ps) :
    (whole h.front ++ h.lead ++ h.secret).length = h.secretEnd := by
  rw [List.length_append, List.length_append]
  rfl

theorem at?_eq (h : M.Hit [] ps) :
    k.at? (whole ps) h.start = some ⟨h.lead.length, h.secret.length, h.tail.length⟩ := by
  rw [h.whole_eq, start, at?_append]
  exact h.matchAt?_eq

theorem reads (h : M.Hit before ps) :
    k.Reads (before ++ whole h.front) h.lead h.secret h.tail (whole h.back) :=
  reads_of_matchAt? h.matchAt?_eq

theorem reaches (h : M.Hit before ps) (hfrom : h.secretStart < (x ++ s).length)
    (hto : x.length < h.secretEnd) : Reaches x s ps := by
  refine ⟨h.front ++ (h.lead.take (M.repeated h.lead)).map kept,
    h.lead.drop (M.repeated h.lead) ++ h.secret, by simp [h.solid], h.tail.map kept ++ h.back,
    ?_, ?_, ?_⟩
  · conv_lhs => rw [h.parts_eq, parts]
    simp
  · rw [Part.whole_append, Part.whole_map_kept, List.length_append, List.length_take]
    rw [secretStart, start] at hfrom
    omega
  · simp only [Part.whole_append, Part.whole_map_kept, List.length_append, List.length_take,
      List.length_drop]
    rw [secretEnd, secretStart, start] at hto
    omega

theorem reaches_secret {k' : Credential} (h : M.Hit [] ps) (f : k'.Found (whole ps))
    (hhits : k.HitsSecret f) (hfrom : h.secretStart < f.finish) (hto : f.start < h.secretEnd) :
    Reaches (f.before ++ f.lead) f.secret ps := by
  have hlt : h.start < (whole ps).length := by
    rw [h.whole_eq, start]
    have := List.length_pos_iff.mpr h.solid
    simp only [List.length_append]
    omega
  obtain ⟨hfrom, hto⟩ := hhits h.start hlt _ h.at?_eq hfrom hto
  exact h.reaches (f.length_secretEnd ▸ hfrom) (f.length_secretStart ▸ hto)

theorem exists_inside {k' : Credential} (h : M.Hit [] ps) (f : k'.Found (whole ps))
    (hfrom : h.start ≤ f.start) (hto : f.secretEnd ≤ h.secretStart) :
    ∃ d e, h.lead = d ++ (f.lead ++ (f.secret ++ e)) := by
  obtain ⟨d, hd, hrest⟩ := Text.exists_of_length_le (h.whole_eq.symm.trans f.cut) hfrom
  have hle : (d ++ (f.lead ++ f.secret)).length ≤ h.lead.length := by
    have hlength := congrArg List.length hd
    rw [Found.secretEnd, Found.secretStart, Found.start, secretStart, start] at hto
    simp only [List.length_append] at hlength ⊢
    omega
  obtain ⟨e, he, -⟩ := Text.exists_of_length_le
    (u := d ++ (f.lead ++ f.secret)) (v := f.tail ++ f.after) (by simpa using hrest.symm) hle
  exact ⟨d, e, by simpa using he⟩

end Hit

/-- Where something is found, it is replaced, or it is covered by what is replaced before. -/
theorem Run.exists_hit (hrun : M.Run before ps) (hps : whole ps = u ++ v) (hv : v ≠ [])
    (hm : (k.matchAt? (.between (before ++ u) v)).isSome) :
    ∃ h : M.Hit before ps, h.start ≤ u.length ∧ u.length < h.finish := by
  induction hrun generalizing u with
  | done before => simp_all
  | @copy before c ps hnone _ ih =>
    cases u with
    | nil =>
      obtain rfl : c :: whole ps = v := hps
      rw [List.append_nil, hnone] at hm
      cases hm
    | cons d u =>
      obtain ⟨rfl, hrest⟩ := List.cons.inj hps
      obtain ⟨h, hfrom, hto⟩ := ih hrest (by simpa using hm)
      refine ⟨h.behind [.kept c], ?_, ?_⟩
      · rw [h.start_behind [.kept c]]
        simpa [Part.source, Nat.add_comm 1] using hfrom
      · rw [h.finish_behind [.kept c]]
        simpa [Part.source, Nat.add_comm 1] using hto
  | @hit before lead secret tail ps hs hsome _ ih =>
    rw [Part.whole_append] at hps
    by_cases hlt : u.length < (whole (M.parts lead secret tail hs)).length
    · refine ⟨.first hs hsome, Nat.zero_le _, ?_⟩
      simpa [M.whole_parts, Hit.first, Hit.finish, Hit.secretEnd, Hit.secretStart, Hit.start,
        Nat.add_assoc] using hlt
    · obtain ⟨w, rfl, hrest⟩ : ∃ w, u = whole (M.parts lead secret tail hs) ++ w ∧
          whole ps = w ++ v := by
        rcases List.append_eq_append_iff.mp hps with hbehind | ⟨w, hw, hrest⟩
        · exact hbehind
        · obtain rfl : w = [] := by simpa [hw] using hlt
          exact ⟨[], by simpa using hw.symm, by simpa using hrest.symm⟩
      obtain ⟨h, hfrom, hto⟩ := ih hrest (by simpa using hm)
      refine ⟨h.behind (M.parts lead secret tail hs), ?_, ?_⟩
      · rw [h.start_behind]
        simpa using hfrom
      · rw [h.finish_behind]
        simpa using hto

theorem Run.exists_hit_of_found (hrun : M.Run [] ps) (hplain : k.IsPlain)
    (f : k.Found (whole ps)) :
    ∃ h : M.Hit [] ps, h.start ≤ f.start ∧ f.start < h.finish ∧ h.secretStart < f.secretEnd := by
  have hne := M.secret_ne_nil f.reads
  obtain ⟨h, hfrom, hto⟩ := hrun.exists_hit f.cut (by simp [hne]) (isSome_matchAt? f.reads)
  refine ⟨h, hfrom, hto, ?_⟩
  by_contra hin
  obtain ⟨d, e, hlead⟩ := h.exists_inside f hfrom (Nat.le_of_not_lt hin)
  exact hplain f.reads h.reads hlead

theorem struck_of_map_kept {w t : List Char} {solid : t ≠ []} {p q r : List Part}
    (h : w.map kept ++ r = p ++ .struck t solid :: q) :
    ∃ p', p = w.map kept ++ p' ∧ r = p' ++ .struck t solid :: q := by
  induction w generalizing p with
  | nil => exact ⟨p, rfl, h⟩
  | cons c w ih =>
    cases p with
    | nil => cases h
    | cons a p =>
      obtain ⟨rfl, hrest⟩ := List.cons.inj h
      obtain ⟨p', rfl, hr⟩ := ih hrest
      exact ⟨p', rfl, hr⟩

theorem struck_of_parts {t : List Char} {solid : t ≠ []} {p q r : List Part} (hs : secret ≠ [])
    (h : M.parts lead secret tail hs ++ r = p ++ .struck t solid :: q) :
    p = (lead.take (M.repeated lead)).map kept ∧ t = lead.drop (M.repeated lead) ++ secret ∨
      ∃ p', p = M.parts lead secret tail hs ++ p' ∧ r = p' ++ .struck t solid :: q := by
  rw [parts, List.append_assoc, List.cons_append] at h
  obtain ⟨p', rfl, hstruck⟩ := struck_of_map_kept h
  cases p' with
  | nil => exact .inl ⟨List.append_nil _, (Part.struck.inj (List.cons.inj hstruck).1).symm⟩
  | cons a p' =>
    obtain ⟨rfl, hrest⟩ := List.cons.inj hstruck
    obtain ⟨p, rfl, hr⟩ := struck_of_map_kept hrest
    exact .inr ⟨p, by simp [parts], hr⟩

theorem Run.exists_hit_of_struck {t : List Char} {solid : t ≠ []} {p q : List Part}
    (hrun : M.Run before ps) (hps : ps = p ++ .struck t solid :: q) :
    ∃ h : M.Hit before ps, whole p = whole h.front ++ h.lead.take (M.repeated h.lead) ∧
      whole p ++ t = whole h.front ++ (h.lead ++ h.secret) := by
  induction hrun generalizing p with
  | done before => simp at hps
  | @copy before c ps hnone _ ih =>
    cases p with
    | nil => cases hps
    | cons a p =>
      obtain ⟨rfl, hrest⟩ := List.cons.inj hps
      obtain ⟨h, hp, ht⟩ := ih hrest
      exact ⟨h.behind [.kept c], congrArg (c :: ·) hp, congrArg (c :: ·) ht⟩
  | @hit before lead secret tail ps hs hsome _ ih =>
    rcases struck_of_parts hs hps with ⟨rfl, rfl⟩ | ⟨p', rfl, hrest⟩
    · refine ⟨.first hs hsome, Part.whole_map_kept _, ?_⟩
      rw [Part.whole_map_kept, ← List.append_assoc, List.take_append_drop]
      rfl
    · obtain ⟨h, hp, ht⟩ := ih hrest
      refine ⟨h.behind (M.parts lead secret tail hs), ?_, ?_⟩
      · rw [Part.whole_append, hp, Hit.behind, Part.whole_append, List.append_assoc]
      · rw [Part.whole_append, List.append_assoc, ht, Hit.behind, Part.whole_append,
          List.append_assoc]

theorem Run.exists_hit_of_reaches (hrun : M.Run before ps) (h : Reaches x s ps) :
    ∃ h : M.Hit before ps,
      h.start + (h.lead.take (M.repeated h.lead)).length < (x ++ s).length ∧
      x.length < h.secretEnd := by
  obtain ⟨p, t, solid, q, rfl, hfrom, hto⟩ := h
  obtain ⟨h, hp, ht⟩ := hrun.exists_hit_of_struck rfl
  refine ⟨h, ?_, ?_⟩
  · rwa [hp, List.length_append] at hfrom
  · rw [ht] at hto
    simpa [Hit.secretEnd, Hit.secretStart, Hit.start, Nat.add_assoc] using hto

theorem exists_run_replace (M : k.Masking) (cs : List Char) :
    ∃ ps, M.Run [] ps ∧ whole ps = cs ∧ masked M.filler ps = k.replace cs :=
  M.exists_run [] cs

theorem not_infix_replace (M : k.Masking) (hover : ¬Overlaps M.filler s) (h : ¬s <:+: cs) :
    ¬s <:+: k.replace cs := by
  obtain ⟨ps, -, rfl, hmasked⟩ := M.exists_run_replace cs
  exact hmasked ▸ Part.not_infix_masked hover h

end Masking

/-! ### What is kept -/

namespace Found

variable {filler : List Char} {ps p q : List Part}

def KeptIn (f : k.Found cs) (p q ps : List Part) : Prop :=
  ps = p ++ ((f.lead ++ (f.secret ++ f.tail)).map kept ++ q)

def shown (f : k.Found cs) (hfree : k.IsFree) (filler : List Char) (hkept : f.KeptIn p q ps) :
    k.Found (masked filler ps) where
  before := masked filler p
  lead := f.lead
  secret := f.secret
  tail := f.tail
  after := masked filler q
  cut := (congrArg (masked filler) hkept).trans (by simp)
  reads := f.reads.elsewhere hfree _ _

theorem onlyAt_shown (f : k.Found cs) (hfree : k.IsFree) (hkept : f.KeptIn p q ps)
    (hps : whole ps = cs) (hp : whole p = f.before) (hover : ¬Overlaps filler f.secret)
    (honly : OnlyAt f.secret cs f.secretStart) :
    OnlyAt f.secret (masked filler ps) (f.shown hfree filler hkept).secretStart := by
  have hcut : ps = p ++ f.lead.map kept ++ (f.secret.map kept ++ (f.tail.map kept ++ q)) :=
    hkept.trans (by simp)
  have hstart : (whole (p ++ f.lead.map kept)).length = f.secretStart := by
    rw [Part.whole_append, Part.whole_map_kept, hp, length_secretStart]
  have hshown : (masked filler (p ++ f.lead.map kept)).length =
      (f.shown hfree filler hkept).secretStart := by
    rw [Part.masked_append, Part.masked_map_kept, List.length_append]
    rfl
  rw [← hshown]
  exact Part.onlyAt_masked hover (by rwa [hps, hstart]) hcut

end Found

end Credential

end Redaction

end PluginGuard
