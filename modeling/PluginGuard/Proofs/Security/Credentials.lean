import PluginGuard.Proofs.Security.Replacement

/-!
# The three credentials

What their announcements look like, up to what is needed to tell where the secret starts: an
assignment has one sign and only blanks behind it, a bearer header one name and only blanks behind
it, and the user in front of a password has no colon.
-/
namespace PluginGuard.Redaction

open Text (isBlank Pattern Spot Overlaps)

variable {before lead secret tail after : List Char}

theorem mark_ne_nil : mark ≠ [] := by decide

/-! ### Assignments -/

def isSign (c : Char) : Bool := c == '=' || c == ':'

theorem not_isBlank_of_isSign {c : Char} (h : isSign c) : ¬isBlank c := by
  rcases (by simpa [isSign] using h : c = '=' ∨ c = ':') with rfl | rfl <;> decide

def isSmall (c : Char) : Bool := 'a' ≤ c && c ≤ 'z'

theorem isLetter_of_isSmall {l : Char} (h : isSmall l) : Text.Ascii.isLetter l :=
  (Bool.or_eq_true _ _).mpr (.inl h)

theorem toNat_of_isSmall {l : Char} (h : isSmall l) : 97 ≤ l.toNat ∧ l.toNat ≤ 122 := by
  simpa [isSmall, Char.le_def, UInt32.le_iff_toNat_le] using h

theorem not_isSign_of_isLetterOf {l c : Char} (hl : isSmall l) (h : Pattern.isLetterOf l c) :
    ¬isSign c := by
  intro hsign
  have hl := toNat_of_isSmall hl
  have hc : c.toNat = 61 ∨ c.toNat = 58 := by
    rcases (by simpa [isSign] using hsign : c = '=' ∨ c = ':') with rfl | rfl
    · exact .inl rfl
    · exact .inr rfl
  simp only [Pattern.isLetterOf, Bool.or_eq_true, Bool.and_eq_true, beq_iff_eq] at h
  rcases h with ((rfl | h) | ⟨-, rfl⟩) | ⟨-, rfl⟩
  · omega
  · omega
  · exact absurd hc (by decide)
  · exact absurd hc (by decide)

theorem not_isSign_word (s : String) (h : s.toList.all isSmall) :
    (Pattern.word s).Within (¬isSign ·) :=
  Pattern.within_word s fun l hl =>
    have hsmall := List.all_eq_true.mp h l hl
    ⟨isLetter_of_isSmall hsmall, fun _ => not_isSign_of_isLetterOf hsmall⟩

theorem not_isSign_apiKey : apiKey.Within (¬isSign ·) := by
  refine ⟨not_isSign_word _ (by decide), ⟨fun c hc => ?_, trivial⟩,
    not_isSign_word _ (by decide), trivial⟩
  rcases (by simpa [isJoiner] using hc : c = '_' ∨ c = '-') with rfl | rfl <;> decide

theorem not_isSign_tellingName : tellingName.Within (¬isSign ·) :=
  ⟨not_isSign_word _ (by decide), not_isSign_word _ (by decide), not_isSign_word _ (by decide),
    not_isSign_word _ (by decide), not_isSign_word _ (by decide), not_isSign_apiKey⟩

theorem lead_of_assignment (h : assignment.Reads before lead secret tail after) :
    ∃ name sign gap, lead = name ++ sign :: gap ∧ (∀ c ∈ name, ¬isSign c) ∧ isSign sign ∧
      ∀ c ∈ gap, isBlank c := by
  obtain ⟨v, r₁, rfl, hboundary, h₁⟩ := Pattern.reads_both.mp h.lead_reads
  obtain ⟨rfl, -⟩ := Pattern.reads_boundary.mp hboundary
  obtain ⟨name, r₂, rfl, hname, h₂⟩ := Pattern.reads_both.mp h₁
  obtain ⟨blanks, r₃, rfl, hblanks, h₃⟩ := Pattern.reads_both.mp h₂
  obtain ⟨v, r₄, rfl, hone, h₄⟩ := Pattern.reads_both.mp h₃
  obtain ⟨sign, hsign, rfl⟩ := Pattern.reads_one.mp hone
  obtain ⟨gap, r₅, rfl, hgap, h₅⟩ := Pattern.reads_both.mp h₄
  obtain rfl := Pattern.reads_nothing.mp h₅
  refine ⟨name ++ blanks, sign, gap, by simp, fun c hc => ?_, hsign, (Pattern.reads_run.mp hgap).2⟩
  rcases List.mem_append.mp hc with hc | hc
  · exact not_isSign_tellingName.of_reads hname c hc
  · exact fun hs => not_isBlank_of_isSign hs ((Pattern.reads_run.mp hblanks).2 c hc)

theorem secret_of_assignment (h : assignment.Reads before lead secret tail after) :
    secret ≠ [] ∧ (∀ c ∈ secret, ¬isBlank c) ∧ tail = [] := by
  obtain ⟨hlength, hsecret⟩ := Pattern.reads_run.mp h.secret_reads
  refine ⟨List.ne_nil_of_length_pos hlength, fun c hc => ?_, Pattern.reads_nothing.mp h.tail_reads⟩
  simpa using hsecret c hc

theorem isPlain_assignment : assignment.IsPlain := by
  intro before lead secret tail after before' lead' secret' tail' after' d e h h' hin
  obtain ⟨name', sign', gap', rfl, hname', -, hgap'⟩ := lead_of_assignment h'
  obtain ⟨name, sign, gap, rfl, -, hsign, -⟩ := lead_of_assignment h
  obtain ⟨hne, hblank, -⟩ := secret_of_assignment h
  obtain ⟨c, secret, rfl⟩ := List.exists_cons_of_ne_nil hne
  have hc : c ∉ gap' := fun hc => hblank c List.mem_cons_self (hgap' c hc)
  rw [List.append_assoc, ← List.append_assoc] at hin
  rcases List.append_eq_append_iff.mp hin with ⟨a, -, ha⟩ | ⟨a, ha, ha'⟩
  · cases a with
    | nil =>
      obtain ⟨-, rfl⟩ := List.cons.inj ha
      simp at hc
    | cons b a =>
      obtain ⟨-, rfl⟩ := List.cons.inj ha
      simp at hc
  · cases a with
    | nil =>
      obtain ⟨-, rfl⟩ := List.cons.inj ha'
      simp at hc
    | cons b a =>
      obtain ⟨rfl, -⟩ := List.cons.inj ha'
      exact hname' sign (by simp [ha]) hsign

def assignmentMasking : assignment.Masking where
  filler := mark
  repeated lead := lead.length
  replacement_eq {_ lead _ _ _} h := by
    have htail := (secret_of_assignment h).2.2
    simp [assignment, htail]
  secret_pos := by decide

/-! ### Bearer headers -/

def bearerName : List Char := "Bearer".toList

theorem bearerName_ne_nil : bearerName ≠ [] := by decide

theorem lead_of_bearer (h : bearer.Reads before lead secret tail after) :
    ∃ gap, lead = bearerName ++ gap ∧ gap ≠ [] ∧ ∀ c ∈ gap, isBlank c := by
  obtain ⟨v, r₁, rfl, hname, h₁⟩ := Pattern.reads_both.mp h.lead_reads
  obtain rfl := (Pattern.reads_exactly _).mp hname
  obtain ⟨gap, r₂, rfl, hgap, h₂⟩ := Pattern.reads_both.mp h₁
  obtain rfl := Pattern.reads_nothing.mp h₂
  obtain ⟨hlength, hblank⟩ := Pattern.reads_run.mp hgap
  exact ⟨gap, by rw [List.append_nil]; rfl, List.ne_nil_of_length_pos hlength, hblank⟩

theorem tail_of_bearer (h : bearer.Reads before lead secret tail after) : tail = [] :=
  Pattern.reads_nothing.mp h.tail_reads

theorem secret_of_bearer (h : bearer.Reads before lead secret tail after) :
    ∃ token signs, secret = token ++ signs ∧ token ≠ [] ∧ (∀ c ∈ token, isTokenChar c) ∧
      ∀ c ∈ signs, c = '=' := by
  obtain ⟨token, signs, rfl, htoken, hsigns⟩ := Pattern.reads_both.mp h.secret_reads
  obtain ⟨hlength, htoken⟩ := Pattern.reads_run.mp htoken
  refine ⟨token, signs, rfl, List.ne_nil_of_length_pos hlength, htoken, fun c hc => ?_⟩
  simpa using (Pattern.reads_run.mp hsigns).2 c hc

theorem not_isBlank_of_isTokenChar {c : Char} (h : isTokenChar c) : ¬isBlank c := by
  simp only [isTokenChar, Text.Letter.asciiLetter, Text.Letter.asciiDigit, Bool.and_eq_true,
    Bool.or_eq_true, decide_eq_true_eq, beq_iff_eq] at h
  rcases h.2 with ((((((h | h) | rfl) | rfl) | rfl) | rfl) | rfl) | rfl
  · simp only [isBlank, Bool.or_eq_true, Bool.and_eq_true, decide_eq_true_eq, beq_iff_eq]
    omega
  · simp only [isBlank, Bool.or_eq_true, Bool.and_eq_true, decide_eq_true_eq, beq_iff_eq]
    omega
  all_goals decide

theorem not_isBlank_of_bearer
    (h : bearer.Reads before lead secret tail after) : secret ≠ [] ∧ ∀ c ∈ secret, ¬isBlank c := by
  obtain ⟨token, signs, rfl, hne, htoken, hsigns⟩ := secret_of_bearer h
  refine ⟨by simp [hne], fun c hc => ?_⟩
  rcases List.mem_append.mp hc with hc | hc
  · exact not_isBlank_of_isTokenChar (htoken c hc)
  · exact hsigns c hc ▸ by decide

theorem notMem_bearerName_tail {gap : List Char} (hgap : ∀ c ∈ gap, isBlank c) :
    'B' ∉ "earer".toList ++ gap := by
  intro h
  rcases List.mem_append.mp h with h | h
  · exact absurd h (by decide)
  · exact absurd (hgap _ h) (by decide)

theorem eq_nil_of_lead_of_bearer {d v : List Char}
    (h : bearer.Reads before lead secret tail after) (hlead : lead = d ++ 'B' :: v) : d = [] := by
  obtain ⟨gap, rfl, -, hgap⟩ := lead_of_bearer h
  cases d with
  | nil => rfl
  | cons b d =>
    have htail : "earer".toList ++ gap = d ++ 'B' :: v := (List.cons.inj hlead).2
    exact absurd (htail ▸ by simp) (notMem_bearerName_tail hgap)

theorem isPlain_bearer : bearer.IsPlain := by
  intro before lead secret tail after before' lead' secret' tail' after' d e h h' hin
  obtain ⟨gap, rfl, -, -⟩ := lead_of_bearer h
  obtain rfl := eq_nil_of_lead_of_bearer h' hin
  obtain ⟨gap', rfl, -, hgap'⟩ := lead_of_bearer h'
  obtain ⟨hne, hblank⟩ := not_isBlank_of_bearer h
  obtain ⟨c, secret, rfl⟩ := List.exists_cons_of_ne_nil hne
  rw [List.nil_append, List.append_assoc] at hin
  obtain rfl := List.append_cancel_left hin
  exact hblank c List.mem_cons_self (hgap' c (by simp))

theorem exists_token_of_bearer {d v : List Char}
    (h : bearer.Reads before lead secret tail after) (hd : d ≠ [])
    (hcut : lead ++ secret = d ++ 'B' :: v) :
    ∃ e, d = lead ++ e ∧ ∀ c ∈ e, isTokenChar c := by
  have hle : lead.length ≤ d.length := by
    by_contra hlt
    obtain ⟨w, hw, hrest⟩ := Text.exists_of_length_le hcut.symm (by omega)
    cases w with
    | nil => simp [hw] at hlt
    | cons b w =>
      obtain ⟨rfl, -⟩ := List.cons.inj hrest
      exact hd (eq_nil_of_lead_of_bearer h hw)
  obtain ⟨e, rfl, hsecret⟩ := Text.exists_of_length_le hcut hle
  refine ⟨e, rfl, ?_⟩
  obtain ⟨token, signs, rfl, -, htoken, hsigns⟩ := secret_of_bearer h
  rcases List.append_eq_append_iff.mp hsecret with ⟨w, -, hw⟩ | ⟨w, rfl, -⟩
  · exact absurd (hsigns 'B' (by simp [hw])) (by decide)
  · exact fun c hc => htoken c (List.mem_append_left w hc)

theorem isTokenChar_bearerName : ∀ c ∈ bearerName, isTokenChar c :=
  List.all_eq_true.mp (by decide)

theorem matchAt?_bearer {gap token : List Char} (hgap : gap ≠ [])
    (hblank : ∀ c ∈ gap, isBlank c) (hne : token ≠ []) (htoken : ∀ c ∈ token, isTokenChar c)
    {c : Char} (hc : isBlank c) :
    bearer.matchAt? (.between before (bearerName ++ gap ++ (token ++ ([] ++ c :: after)))) =
      some ⟨(bearerName ++ gap).length, token.length, 0⟩ := by
  have hlead : bearer.lead.Prefers before (bearerName ++ gap) (token ++ ([] ++ c :: after)) := by
    rw [← List.append_nil gap]
    refine Pattern.prefers_both (Pattern.prefers_exactly _) (Pattern.prefers_both ?_
      Pattern.prefers_nothing)
    refine Pattern.prefers_run (List.length_pos_iff.mpr hgap) hblank ?_
    obtain ⟨d, token, rfl⟩ := List.exists_cons_of_ne_nil hne
    simpa using not_isBlank_of_isTokenChar (htoken d List.mem_cons_self)
  have hsecret : bearer.secret.Prefers (before ++ (bearerName ++ gap)) token
      ([] ++ c :: after) := by
    rw [← List.append_nil token]
    refine Pattern.prefers_both (Pattern.prefers_run (List.length_pos_iff.mpr hne) htoken ?_)
      (Pattern.prefers_run (Nat.zero_le _) (by simp) ?_)
    · simpa using fun h => not_isBlank_of_isTokenChar h hc
    · rintro d hd hequals
      obtain rfl : c = d := by simpa using hd
      rw [beq_iff_eq] at hequals
      exact absurd (hequals ▸ hc) (by decide)
  exact Credential.matchAt?_of_prefers hlead hsecret Pattern.prefers_nothing

theorem not_overlaps_mark {gap e : List Char} (hgap : ∀ c ∈ gap, isBlank c)
    (htoken : ∀ c ∈ e, isTokenChar c) : ¬Overlaps mark (bearerName ++ gap ++ e) := by
  refine Text.not_overlaps_cons (b := '[') (c := 'B') ?_ (by decide)
  intro h
  rcases List.mem_append.mp (show '[' ∈ bearerName ++ gap ++ e from h) with h | h
  · rcases List.mem_append.mp h with h | h
    · exact absurd h (by decide)
    · exact absurd (hgap _ h) (by decide)
  · exact absurd (htoken _ h) (by decide)

theorem exists_covered {x lead' secret' tail' after' r' y r : List Char}
    (h' : bearer.Reads x lead' secret' tail' after') (h : bearer.Reads y lead secret tail after)
    (hcut : x ++ (lead' ++ (secret' ++ r')) = y ++ (lead ++ (secret ++ r)))
    (hfrom : x.length ≤ y.length) (hto : y.length < (x ++ lead' ++ secret').length)
    (hshort : (x ++ lead' ++ secret').length ≤ (y ++ lead).length) :
    ∃ d v, d ≠ [] ∧ y = x ++ d ∧ lead' ++ secret' = d ++ 'B' :: v := by
  obtain ⟨d, rfl, hrest⟩ := Text.exists_of_length_le hcut hfrom
  simp only [List.length_append] at hto hshort
  obtain ⟨v, hv, hlead⟩ := Text.exists_of_length_le (u := d) (x := lead' ++ secret') (y := r')
    (hrest.symm.trans (List.append_assoc ..).symm) (by rw [List.length_append]; omega)
  have hlength := congrArg List.length hv
  rw [List.length_append, List.length_append] at hlength
  obtain ⟨e, he, -⟩ := Text.exists_of_length_le hlead.symm (by omega)
  obtain ⟨gap, rfl, -, -⟩ := lead_of_bearer h
  refine ⟨d, v.tail, ?_, rfl, ?_⟩
  · rintro rfl
    refine isPlain_bearer (d := []) (e := e) h' h ?_
    rw [he, ← List.nil_append v, ← hv]
    simp
  · cases v with
    | nil => simp at hlength; omega
    | cons c v =>
      obtain ⟨rfl, -⟩ := List.cons.inj he
      exact hv

theorem isFree_bearer : bearer.IsFree := ⟨rfl, rfl, rfl⟩

def bearerMasking : bearer.Masking where
  filler := ' ' :: mark
  repeated _ := bearerName.length
  replacement_eq {_ lead _ _ _} h := by
    obtain ⟨gap, rfl, -⟩ := lead_of_bearer h
    obtain rfl := tail_of_bearer h
    rw [List.take_left, List.append_nil]
    rfl
  secret_pos := by decide

/-! ### Passwords in front of a host -/

def scheme : List Char := "://".toList

theorem lead_of_urlPassword (h : urlPassword.Reads before lead secret tail after) :
    ∃ user, lead = scheme ++ (user ++ [':']) ∧ ∀ c ∈ user, isUserChar c := by
  obtain ⟨v, r₁, rfl, hscheme, h₁⟩ := Pattern.reads_both.mp h.lead_reads
  obtain rfl := (Pattern.reads_exactly _).mp hscheme
  obtain ⟨user, r₂, rfl, huser, h₂⟩ := Pattern.reads_both.mp h₁
  obtain ⟨v, r₃, rfl, hcolon, h₃⟩ := Pattern.reads_both.mp h₂
  obtain rfl := (Pattern.reads_exactly _).mp hcolon
  obtain rfl := Pattern.reads_nothing.mp h₃
  exact ⟨user, rfl, (Pattern.reads_run.mp huser).2⟩

theorem secret_of_urlPassword (h : urlPassword.Reads before lead secret tail after) :
    secret ≠ [] ∧ (∀ c ∈ secret, isPasswordChar c) ∧ tail = ['@'] := by
  obtain ⟨hlength, hsecret⟩ := Pattern.reads_run.mp h.secret_reads
  exact ⟨List.ne_nil_of_length_pos hlength, hsecret, (Pattern.reads_exactly _).mp h.tail_reads⟩

theorem not_isBlank_of_urlPassword (h : urlPassword.Reads before lead secret tail after) :
    ∀ c ∈ lead ++ (secret ++ tail), ¬isBlank c := by
  obtain ⟨user, rfl, huser⟩ := lead_of_urlPassword h
  obtain ⟨-, hsecret, rfl⟩ := secret_of_urlPassword h
  intro c hc
  simp only [List.mem_append, List.mem_singleton] at hc
  rcases hc with (hc | hc | rfl) | hc | rfl
  · have hall : scheme.all (!isBlank ·) := by decide
    simpa using List.all_eq_true.mp hall c hc
  · exact fun hblank => by simpa [isUserChar, hblank] using huser c hc
  · decide
  · exact fun hblank => by simpa [isPasswordChar, hblank] using hsecret c hc
  · decide

theorem notMem_of_urlPassword (h : urlPassword.Reads before lead secret tail after) :
    '@' ∉ lead ++ secret := by
  obtain ⟨user, rfl, huser⟩ := lead_of_urlPassword h
  obtain ⟨-, hsecret, rfl⟩ := secret_of_urlPassword h
  intro hc
  simp only [List.mem_append, List.mem_singleton] at hc
  rcases hc with (hc | hc | hc) | hc
  · exact absurd hc (by decide)
  · exact absurd (huser _ hc) (by decide)
  · cases hc
  · exact absurd (hsecret _ hc) (by decide)

theorem isPlain_urlPassword : urlPassword.IsPlain := by
  intro before lead secret tail after before' lead' secret' tail' after' d e h h' hin
  obtain ⟨name, rfl, hname⟩ := lead_of_urlPassword h'
  obtain ⟨user, rfl, -⟩ := lead_of_urlPassword h
  obtain ⟨hne, -, -⟩ := secret_of_urlPassword h
  have hcut : scheme ++ (name ++ [':']) = d ++ (scheme ++ user) ++ ':' :: (secret ++ e) := by
    simpa using hin
  have hlength := congrArg List.length hcut
  have hpos := List.length_pos_iff.mpr hne
  simp only [List.length_append, List.length_cons, List.length_nil] at hlength
  refine absurd (hname ':' (Text.mem_of_length_lt hcut ?_ ?_)) (by decide) <;>
    simp only [List.length_append] <;> omega

theorem isFree_urlPassword : urlPassword.IsFree := ⟨rfl, rfl, rfl⟩

def urlPasswordMasking : urlPassword.Masking where
  filler := mark
  repeated _ := scheme.length
  replacement_eq {_ lead _ _ _} h := by
    obtain ⟨user, rfl, -⟩ := lead_of_urlPassword h
    obtain ⟨-, -, rfl⟩ := secret_of_urlPassword h
    rw [List.take_left]
    rfl
  secret_pos := by decide

end PluginGuard.Redaction
