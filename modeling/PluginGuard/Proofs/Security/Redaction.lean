import PluginGuard.Proofs.Security.Credentials
import PluginGuard.Security.Event

/-!
# Secrets and redaction

The three credentials are looked for one after the other, and what is replaced for one can take away
what the next is found by. A secret that stands in a text once is gone after redaction unless a
match of its own pattern, or of one before, takes a part of its credential and nothing of itself.
-/
namespace PluginGuard.Redaction

open Text (isBlank Pattern Spot Part OnlyAt Overlaps)
open Text.Part (whole masked kept struck Reaches)

/-- One behind the other, as they are replaced. -/
def credentials : List Credential := [assignment, bearer, urlPassword]

variable {ps qs : List Part}

/-! ### Assignments -/

theorem reaches_of_assignment (hrun : assignmentMasking.Run [] ps) (f : assignment.Found (whole ps))
    (hhits : assignment.HitsSecret f) : Reaches (f.before ++ f.lead) f.secret ps := by
  obtain ⟨h, -, hto, hsecret⟩ := hrun.exists_hit_of_found isPlain_assignment f
  refine h.reaches_secret f hhits ?_ ?_
  · exact hsecret.trans_le (Nat.le_add_right _ _)
  · rwa [Credential.Masking.Hit.finish, (secret_of_assignment h.reads).2.2] at hto

theorem reaches_or_kept {k : Credential} (hrun : assignmentMasking.Run [] ps)
    (f : k.Found (whole ps)) (hhits : assignment.HitsSecret f) (hs : f.secret ≠ []) :
    Reaches (f.before ++ f.lead) f.secret ps ∨
      ∃ p q, f.KeptIn p q ps ∧ whole p = f.before := by
  rcases Part.kept_or_reaches (by simp [hs]) f.cut_extent with ⟨p, q, hkept, hp, -⟩ | hreach
  · exact .inr ⟨p, q, hkept, hp⟩
  · obtain ⟨h, hfrom, hto⟩ := hrun.exists_hit_of_reaches hreach
    have hrepeated : h.lead.take (assignmentMasking.repeated h.lead) = h.lead := List.take_length
    refine .inl (h.reaches_secret f hhits ?_ hto)
    rw [hrepeated] at hfrom
    simp only [List.length_append, ← Nat.add_assoc] at hfrom
    exact hfrom

/-! ### Bearer headers -/

theorem exists_at?_of_covered {p q : List Part} {x lead secret tail after d v rest : List Char}
    {b : Char} (h : bearer.Reads x lead secret tail after) (hd : d ≠ [])
    (hcut : lead ++ secret = d ++ 'B' :: v) (hps : ps = p ++ q) (hp : masked mark p = x ++ d)
    (hq : whole q = bearerName ++ b :: rest) (hb : isBlank b) :
    ∃ j m, bearer.at? (whole ps) j = some m ∧ j + m.lead ≤ (whole p).length ∧
      j + m.lead + m.secret = (whole p ++ bearerName).length := by
  obtain ⟨e, rfl, htoken⟩ := exists_token_of_bearer h hd hcut
  obtain ⟨gap, rfl, hgap, hblank⟩ := lead_of_bearer h
  have hmasked : masked mark ps = x ++ ((bearerName ++ gap ++ e) ++ masked mark q) := by
    rw [hps, Part.masked_append, hp, List.append_assoc]
  obtain ⟨p', q', hps', hp', -⟩ := Part.kept_of_masked (not_overlaps_mark hblank htoken) hmasked
  obtain rfl : p = p' ++ (bearerName ++ gap ++ e).map kept := by
    refine Part.eq_of_masked mark_ne_nil (hps.symm.trans (hps'.trans (List.append_assoc ..).symm)) ?_
    rw [Part.masked_append, Part.masked_map_kept, hp', hp]
  have hname : ∀ c ∈ e ++ bearerName, isTokenChar c := fun c hc =>
    (List.mem_append.mp hc).elim (htoken c) (isTokenChar_bearerName c)
  refine ⟨(whole p').length, ⟨(bearerName ++ gap).length, (e ++ bearerName).length, 0⟩, ?_, ?_, ?_⟩
  · have hwhole : whole ps =
        whole p' ++ (bearerName ++ gap ++ (e ++ bearerName ++ ([] ++ b :: rest))) := by
      rw [hps, Part.whole_append, hq]
      simp
    rw [hwhole, Credential.at?_append]
    exact matchAt?_bearer hgap hblank (by simp [bearerName_ne_nil]) hname hb
  · simp
  · simp [Nat.add_assoc]

theorem reaches_or_covered {cs : List Char} (hrun : bearerMasking.Run [] qs) (hqs : whole qs = cs)
    (f : bearer.Found cs) : Reaches (f.before ++ f.lead) f.secret qs ∨
      ∃ (h : bearerMasking.Hit [] qs) (d v : List Char), d ≠ [] ∧ f.before = whole h.front ++ d ∧
        h.lead ++ h.secret = d ++ 'B' :: v := by
  subst hqs
  obtain ⟨h, hfrom, hto, hsecret⟩ := hrun.exists_hit_of_found isPlain_bearer f
  rw [Credential.Masking.Hit.finish, tail_of_bearer h.reads] at hto
  by_cases hshort : h.secretEnd ≤ (f.before ++ f.lead).length
  · obtain ⟨d, v, hd, hbefore, hv⟩ := exists_covered h.reads f.reads (h.whole_eq.symm.trans f.cut)
      hfrom (h.length_secretEnd ▸ hto) (h.length_secretEnd ▸ hshort)
    exact .inr ⟨h, d, v, hd, hbefore, hv⟩
  · exact .inl (h.reaches (f.length_secretEnd ▸ hsecret) (Nat.lt_of_not_le hshort))

/-- A header that is kept where assignments are replaced is not covered by another there, as it is
not in the text. -/
theorem masked_ne_of_hitsSecret {p q : List Part} {x lead secret tail after d v : List Char}
    (f : bearer.Found (whole ps)) (hhits : bearer.HitsSecret f) (hkept : f.KeptIn p q ps)
    (hp : whole p = f.before) (h : bearer.Reads x lead secret tail after) (hd : d ≠ [])
    (hcut : lead ++ secret = d ++ 'B' :: v) : masked mark p ≠ x ++ d := by
  intro hmasked
  obtain ⟨gap, hgap, hgapne, hblank⟩ := lead_of_bearer f.reads
  obtain ⟨b, gap, rfl⟩ := List.exists_cons_of_ne_nil hgapne
  have hq : whole ((f.lead ++ (f.secret ++ f.tail)).map kept ++ q) =
      bearerName ++ b :: (gap ++ (f.secret ++ (f.tail ++ whole q))) := by
    rw [Part.whole_append, Part.whole_map_kept, hgap]
    simp
  obtain ⟨j, m, hm, hle, heq⟩ := exists_at?_of_covered h hd hcut hkept hmasked hq
    (hblank b List.mem_cons_self)
  have hbefore : (whole p).length = f.start := congrArg List.length hp
  have hlead : f.lead.length = bearerName.length + (gap.length + 1) := by
    rw [hgap, List.length_append, List.length_cons]
  have hname := List.length_pos_iff.mpr bearerName_ne_nil
  have hfinish : f.start + f.lead.length ≤ f.finish := by
    rw [Credential.Found.finish, Credential.Found.secretEnd, Credential.Found.secretStart]
    omega
  rw [List.length_append] at heq
  have htaken := (hhits j (f.finish_le.trans_lt' (by omega)) m hm (by omega) (by omega)).2
  rw [Credential.Found.secretStart] at htaken
  omega

/-! ### Passwords in front of a host -/

theorem not_reaches_of_bearer {cs : List Char} (hrun : bearerMasking.Run [] qs)
    (hqs : whole qs = cs) (f : urlPassword.Found cs) :
    ¬Reaches f.before (f.lead ++ (f.secret ++ f.tail)) qs := by
  subst hqs
  intro hreach
  obtain ⟨h, hfrom, hto⟩ := hrun.exists_hit_of_reaches hreach
  obtain ⟨gap, hlead, hgapne, hgap⟩ := lead_of_bearer h.reads
  obtain ⟨token, signs, hsecret, -, htoken, hsigns⟩ := secret_of_bearer h.reads
  obtain ⟨b, gap, rfl⟩ := List.exists_cons_of_ne_nil hgapne
  obtain ⟨l, hl⟩ : ∃ l, f.lead = ':' :: l := by
    obtain ⟨user, hurl, -⟩ := lead_of_urlPassword f.reads
    exact ⟨_, hurl⟩
  have hcut := h.whole_eq.symm.trans f.cut
  have hname : (bearerName ++ b :: gap).take (bearerMasking.repeated (bearerName ++ b :: gap)) =
      bearerName := List.take_left
  rw [hlead, hname] at hfrom
  rw [hlead] at hcut
  rcases Nat.lt_or_ge f.before.length (whole h.front ++ bearerName).length with hlt | hle
  · -- The blank in front of the token would be a part of what is found by the password.
    refine not_isBlank_of_urlPassword f.reads b (Text.mem_of_length_lt (u := f.before)
      (w := f.after) (x := whole h.front ++ bearerName)
      (y := gap ++ (h.secret ++ (h.tail ++ whole h.back))) ?_ hlt.le ?_) (hgap b List.mem_cons_self)
    · simpa using hcut.symm
    · rw [List.length_append]
      exact hfrom
  · -- The colon in front of the user would be a blank or a part of the token.
    have hmem : ':' ∈ b :: gap ++ h.secret := by
      refine Text.mem_of_length_lt (u := whole h.front ++ bearerName) (w := h.tail ++ whole h.back)
        (x := f.before) (y := l ++ (f.secret ++ (f.tail ++ f.after))) ?_ hle ?_
      · simpa [hl] using hcut
      · have hend := h.length_secretEnd
        rw [hlead] at hend
        rw [← hend] at hto
        simpa using hto
    rw [hsecret] at hmem
    rcases List.mem_append.mp hmem with hmem | hmem
    · exact absurd (hgap _ hmem) (by decide)
    · rcases List.mem_append.mp hmem with hmem | hmem
      · exact absurd (htoken _ hmem) (by decide)
      · exact absurd (hsigns _ hmem) (by decide)

theorem kept_of_bearer {cs : List Char} (hrun : bearerMasking.Run [] qs) (hqs : whole qs = cs)
    (f : urlPassword.Found cs) : ∃ p q, f.KeptIn p q qs ∧ whole p = f.before := by
  obtain ⟨hne, -, -⟩ := secret_of_urlPassword f.reads
  rcases Part.kept_or_reaches (by simp [hne]) (hqs.trans f.cut_extent) with
    ⟨p, q, hkept, hp, -⟩ | hreach
  · exact ⟨p, q, hkept, hp⟩
  · exact absurd hreach (not_reaches_of_bearer hrun hqs f)

theorem reaches_of_urlPassword {cs : List Char} (hrun : urlPasswordMasking.Run [] ps)
    (hps : whole ps = cs) (f : urlPassword.Found cs) :
    Reaches (f.before ++ f.lead) f.secret ps := by
  subst hps
  obtain ⟨hne, -⟩ := secret_of_urlPassword f.reads
  obtain ⟨h, -, hto, hsecret⟩ := hrun.exists_hit_of_found isPlain_urlPassword f
  refine h.reaches (f.length_secretEnd ▸ hsecret) ?_
  by_contra hshort
  have hcut : f.before ++ (f.lead ++ f.secret ++ (f.tail ++ f.after)) =
      whole h.front ++ h.lead ++ h.secret ++ '@' :: whole h.back := by
    have hcut := f.cut.symm.trans h.whole_eq
    rw [(secret_of_urlPassword h.reads).2.2] at hcut
    simpa using hcut
  refine notMem_of_urlPassword f.reads (Text.mem_of_length_lt hcut ?_ ?_)
  · rw [Credential.Masking.Hit.finish, (secret_of_urlPassword h.reads).2.2] at hto
    rw [h.length_secretEnd]
    exact Nat.le_of_lt_succ hto
  · have hpos := List.length_pos_iff.mpr hne
    rw [h.length_secretEnd, ← List.append_assoc, List.length_append]
    omega

/-! ### One replacement after the other -/

variable {cs : List Char}

theorem not_infix_redactChars {s : List Char} (hover : ¬Overlaps mark s) (hspace : ' ' ∉ s)
    (h : ¬s <:+: assignment.replace cs) : ¬s <:+: redactChars cs :=
  urlPasswordMasking.not_infix_replace hover
    (bearerMasking.not_infix_replace (Text.not_overlaps_of_notMem hspace hover) h)

theorem not_infix_or_kept {k : Credential} (f : k.Found cs) (hover : ¬Overlaps mark f.secret)
    (hspace : ' ' ∉ f.secret) (honly : OnlyAt f.secret cs f.secretStart)
    (hhits : assignment.HitsSecret f) : ¬f.secret <:+: redactChars cs ∨
      ∃ ps p q, whole ps = cs ∧ masked mark ps = assignment.replace cs ∧ f.KeptIn p q ps ∧
        whole p = f.before := by
  obtain ⟨ps, hrun, rfl, hmasked⟩ := assignmentMasking.exists_run_replace cs
  rcases reaches_or_kept hrun f hhits (Part.ne_nil_of_not_overlaps hover) with
    hreach | ⟨p, q, hkept, hp⟩
  · refine .inl (not_infix_redactChars hover hspace ?_)
    rw [← hmasked]
    exact Part.not_infix_of_reaches hover (f.length_secretStart ▸ honly) hreach
  · exact .inr ⟨ps, p, q, rfl, hmasked, hkept, hp⟩

theorem not_infix_of_assignment (f : assignment.Found cs) (hover : ¬Overlaps mark f.secret)
    (honly : OnlyAt f.secret cs f.secretStart) (hhits : assignment.HitsSecret f) :
    ¬f.secret <:+: redactChars cs := by
  obtain ⟨ps, hrun, rfl, hmasked⟩ := assignmentMasking.exists_run_replace cs
  obtain ⟨-, hblank, -⟩ := secret_of_assignment f.reads
  refine not_infix_redactChars hover (fun hc => hblank _ hc (by decide)) ?_
  rw [← hmasked]
  exact Part.not_infix_of_reaches hover (f.length_secretStart ▸ honly)
    (reaches_of_assignment hrun f hhits)

theorem not_infix_of_bearer (f : bearer.Found cs) (hover : ¬Overlaps mark f.secret)
    (honly : OnlyAt f.secret cs f.secretStart) (hassignment : assignment.HitsSecret f)
    (hbearer : bearer.HitsSecret f) : ¬f.secret <:+: redactChars cs := by
  have hspace : ' ' ∉ f.secret := fun hc => (not_isBlank_of_bearer f.reads).2 _ hc (by decide)
  rcases not_infix_or_kept f hover hspace honly hassignment with
    hgone | ⟨ps, p, q, rfl, hmasked, hkept, hp⟩
  · exact hgone
  · obtain ⟨qs, hrun, hqs, hmasked'⟩ := bearerMasking.exists_run_replace (masked mark ps)
    let f' := f.shown isFree_bearer mark hkept
    have honly' : OnlyAt f.secret (whole qs) (f'.before ++ f'.lead).length := by
      rw [hqs, f'.length_secretStart]
      exact f.onlyAt_shown isFree_bearer hkept rfl hp hover honly
    refine urlPasswordMasking.not_infix_replace hover ?_
    rw [← hmasked, ← hmasked']
    rcases reaches_or_covered hrun hqs f' with hreach | ⟨h, d, v, hd, hbefore, hv⟩
    · exact Part.not_infix_of_reaches (Text.not_overlaps_of_notMem hspace hover) honly' hreach
    · exact absurd hbefore (masked_ne_of_hitsSecret f hbearer hkept hp h.reads hd hv)

theorem not_infix_of_urlPassword (f : urlPassword.Found cs) (hover : ¬Overlaps mark f.secret)
    (honly : OnlyAt f.secret cs f.secretStart) (hassignment : assignment.HitsSecret f) :
    ¬f.secret <:+: redactChars cs := by
  have hspace : ' ' ∉ f.secret := fun hc =>
    not_isBlank_of_urlPassword f.reads ' ' (by simp [hc]) (by decide)
  rcases not_infix_or_kept f hover hspace honly hassignment with
    hgone | ⟨ps, p, q, rfl, hmasked, hkept, hp⟩
  · exact hgone
  · obtain ⟨qs, hrun, hqs, hmasked'⟩ := bearerMasking.exists_run_replace (masked mark ps)
    let f' := f.shown isFree_urlPassword mark hkept
    obtain ⟨p', q', hkept', hp'⟩ := kept_of_bearer hrun hqs f'
    obtain ⟨rs, hrun', hrs, hmasked''⟩ :=
      urlPasswordMasking.exists_run_replace (masked bearerMasking.filler qs)
    let f'' := f'.shown isFree_urlPassword bearerMasking.filler hkept'
    have honly'' : OnlyAt f.secret (whole rs) (f''.before ++ f''.lead).length := by
      rw [hrs, f''.length_secretStart]
      exact f'.onlyAt_shown isFree_urlPassword hkept' hqs hp'
        (Text.not_overlaps_of_notMem hspace hover)
        (f.onlyAt_shown isFree_urlPassword hkept rfl hp hover honly)
    rw [redactChars, ← hmasked, ← hmasked', ← hmasked'']
    exact Part.not_infix_of_reaches hover honly'' (reaches_of_urlPassword hrun' hrs f'')

/-- A secret that stands in a text once and has nothing in common with the mark is gone after
redaction, if all that is preferred by its own pattern or by one before it, and that takes something
of its credential, takes something of the secret as well. So it is not in the argument on record. -/
theorem not_infix_redact {text : String} {k : Credential} {earlier later : List Credential}
    (hk : credentials = earlier ++ k :: later) (f : k.Found text.toList)
    (honly : OnlyAt f.secret text.toList f.secretStart) (hover : ¬Overlaps mark f.secret)
    (hhits : ∀ k' ∈ earlier ++ [k], k'.HitsSecret f) :
    ¬f.secret <:+: (redact text).toList ∧ ∀ operation identity, ∃ argument,
      (SecurityEvent.accessDenied operation identity text).recorded =
        .accessDenied operation identity argument ∧ ¬f.secret <:+: argument.toList := by
  have hgone : ¬f.secret <:+: redactChars text.toList := by
    rcases earlier with _ | ⟨first, _ | ⟨second, _ | ⟨third, earlier⟩⟩⟩
    · obtain rfl : assignment = k := (List.cons.inj hk).1
      exact not_infix_of_assignment f hover honly (hhits _ (by simp))
    · obtain ⟨rfl, hrest⟩ := List.cons.inj hk
      obtain rfl : bearer = k := (List.cons.inj hrest).1
      exact not_infix_of_bearer f hover honly (hhits _ (by simp)) (hhits _ (by simp))
    · obtain ⟨rfl, hrest⟩ := List.cons.inj hk
      obtain rfl : urlPassword = k := (List.cons.inj (List.cons.inj hrest).2).1
      exact not_infix_of_urlPassword f hover honly (hhits _ (by simp))
    · simp [credentials] at hk
  rw [← show (redact text).toList = redactChars text.toList from String.toList_ofList] at hgone
  exact ⟨hgone, fun operation identity => ⟨redact text, rfl, hgone⟩⟩

def headerBehindKey : bearer.Found "api_key=k1 Bearer abc".toList where
  before := "api_key=k1 ".toList
  lead := "Bearer ".toList
  secret := "abc".toList
  tail := []
  after := []
  cut := by decide
  reads := Credential.reads_of_matchAt? (by decide)

theorem not_infix_redact_header :
    OnlyAt headerBehindKey.secret "api_key=k1 Bearer abc".toList headerBehindKey.secretStart ∧
      ¬Overlaps mark headerBehindKey.secret ∧
      (∀ k ∈ [assignment, bearer], k.HitsSecret headerBehindKey) ∧
      ¬"abc".toList <:+: (redact "api_key=k1 Bearer abc").toList := by
  have honly : OnlyAt headerBehindKey.secret "api_key=k1 Bearer abc".toList
      headerBehindKey.secretStart := by decide
  have hover : ¬Overlaps mark headerBehindKey.secret := by decide
  have hhits : ∀ k ∈ [assignment, bearer], k.HitsSecret headerBehindKey := by decide +kernel
  exact ⟨honly, hover, hhits,
    (not_infix_redact (show credentials = [assignment] ++ bearer :: [urlPassword] from rfl)
      headerBehindKey honly hover hhits).1⟩

def headerAsPassword : bearer.Found "password=Bearer abc123".toList where
  before := "password=".toList
  lead := "Bearer ".toList
  secret := "abc123".toList
  tail := []
  after := []
  cut := by decide
  reads := Credential.reads_of_matchAt? (by decide)

/-- The replaced password ends in the name of the header, and the token that follows stays. -/
theorem infix_redact_header :
    bearer.at? "password=Bearer abc123".toList headerAsPassword.start = some ⟨7, 6, 0⟩ ∧
      OnlyAt headerAsPassword.secret "password=Bearer abc123".toList
        headerAsPassword.secretStart ∧
      ¬Overlaps mark headerAsPassword.secret ∧
      headerAsPassword.secret <:+: (redact "password=Bearer abc123").toList ∧
      (SecurityEvent.accessDenied "misc" "p" "password=Bearer abc123").recorded =
        .accessDenied "misc" "p" "password=[REDACTED] abc123" :=
  ⟨by decide, by decide, by decide, by decide +kernel, by decide +kernel⟩

end PluginGuard.Redaction
