import PluginGuard.Proofs.Access.Decision
import PluginGuard.Proofs.Text.Cut

/-!
# Rules for one text

A rule whose pattern begins with an equals sign is about the very text behind it. Behind
the text that an argument is shown with it is about that argument and no other. What
stands behind the last colon of a network rule is a port, so a host alone is covered on
every port exactly if it holds no colon. With a colon the line is a rule for a shorter
host, or no rule.
-/
namespace PluginGuard

open Text (isBlank NoBlankEnd)

/-! ### Lines -/

theorem firstWord_append {word : List Char} (hword : ∀ c ∈ word, isBlank c = false) {b : Char}
    (hb : isBlank b = true) (rest : List Char) :
    firstWord (word ++ b :: rest) = (word, some rest) := by
  rw [firstWord, Text.cutWhere?_append hword hb]

namespace Rule

variable {kind : ArgumentKind} {o : Operation} {text : String} {rule : Rule}

theorem parseChars_append {word token rest : List Char} {b b' : Char} {r : Ruling} {s : Subject}
    (hword : ∀ c ∈ word, isBlank c = false) (hb : isBlank b = true)
    (htoken : ∀ c ∈ token, isBlank c = false) (hb' : isBlank b' = true) (hfirst : word ≠ [])
    (hruling : Ruling.ofName? (String.ofList word) = some r)
    (hsubject : Subject.parse token = .ok s)
    (hpattern : Text.trimChars rest ≠ []) :
    parseChars kind (word ++ b :: (token ++ b' :: rest)) =
      (ArgumentPattern.parse kind (Text.trimChars rest)).map fun a =>
        ⟨r, s, a, String.ofList (word ++ b :: (token ++ b' :: rest))⟩ := by
  have hfirst : word.isEmpty = false := by simpa using hfirst
  have hpattern : (Text.trimChars rest).isEmpty = false := by simpa using hpattern
  simp only [parseChars, firstWord_append hword hb, firstWord_append htoken hb', hfirst, hruling,
    hsubject, hpattern]
  cases ArgumentPattern.parse kind (Text.trimChars rest) <;> rfl

/-- The line that denies to every caller what reads exactly as the text. -/
def exactLine (text : String) : String := "DENY ALL =" ++ text

theorem toList_exactLine (text : String) :
    (exactLine text).toList =
      ['D', 'E', 'N', 'Y'] ++ ' ' :: (['A', 'L', 'L'] ++ ' ' :: '=' :: text.toList) := by
  rw [exactLine, String.toList_append]
  rfl

theorem parse_exactLine (o : Operation) (h : NoBlankEnd text.toList) :
    parse o (exactLine text) =
      ((ArgumentPattern.parse o.kind ('=' :: text.toList)).map fun a =>
        (⟨.deny, .all, a, exactLine text⟩ : Rule)).mapError fun flaw =>
          ⟨o, exactLine text, flaw⟩ := by
  have hmark : NoBlankEnd ['='] := by decide
  have hfront : NoBlankEnd "DENY ALL =".toList := by decide
  have hpattern : Text.trimChars ('=' :: text.toList) = '=' :: text.toList :=
    Text.trimChars_cons (by decide) (hmark.append h)
  have hline : Text.trimChars (exactLine text).toList = (exactLine text).toList := by
    rw [exactLine, String.toList_append]
    exact Text.trimChars_cons (by decide) (hfront.append h)
  have hword : ∀ c ∈ ['D', 'E', 'N', 'Y'], isBlank c = false := by simp [isBlank]
  have htoken : ∀ c ∈ ['A', 'L', 'L'], isBlank c = false := by simp [isBlank]
  rw [parse, hline, toList_exactLine, parseChars_append (r := .deny) (s := .all) hword
    (by decide) htoken (by decide) (by decide) (by decide) rfl (by simp [hpattern]), hpattern,
    ← toList_exactLine, String.ofList_toList]

theorem parse_exactLine_eq_ok (h : NoBlankEnd text.toList) :
    parse o (exactLine text) = .ok rule ↔
      ∃ a, ArgumentPattern.parse o.kind ('=' :: text.toList) = .ok a ∧
        rule = ⟨.deny, .all, a, exactLine text⟩ := by
  rw [parse_exactLine o h]
  cases ArgumentPattern.parse o.kind ('=' :: text.toList) with
  | error flaw => simp [Except.map, Except.mapError]
  | ok a => simp [Except.map, Except.mapError, eq_comm]

theorem accepts_exactLine (a : ArgumentPattern) (site : CallSite) (x : Argument) :
    accepts ⟨.deny, .all, a, exactLine text⟩ (.concrete site) x = a.accepts x := by
  rw [accepts, Subject.filter]
  rfl

end Rule

/-! ### Hosts and ports -/

theorem Text.toList_append_colon (front tail : String) :
    (front ++ ":" ++ tail).toList = front.toList ++ ':' :: tail.toList := by
  rw [String.toList_append, String.toList_append, List.append_assoc]
  rfl

theorem Text.cutLast?_append_colon (front : String) {tail : String} (h : ':' ∉ tail.toList) :
    cutLast? ':' (front ++ ":" ++ tail).toList = some (front.toList, tail.toList) := by
  rw [toList_append_colon, cutLast?_append front.toList h]

/-- A text is about every port of the host that it is, or about the number or the star behind its
last colon. -/
inductive CoversSocket (text : String) : String → UInt16 → Prop
  | alone (p : UInt16) : ':' ∉ text.toList → CoversSocket text text p
  | port {host tail : String} {p : UInt16} : text = host ++ ":" ++ tail → ':' ∉ tail.toList →
      (tail = "*" ∨ Text.Numeral.port? tail.toList = some p) → CoversSocket text host p

namespace CoversSocket

variable {text front tail host : String} {p : UInt16}

theorem exists_tail (h : ':' ∈ text.toList) :
    ∃ front tail, text = front ++ ":" ++ tail ∧ ':' ∉ tail.toList := by
  obtain ⟨before, after, htext, hafter⟩ := Text.exists_last_of_mem h
  refine ⟨.ofList before, .ofList after, String.toList_inj.mp ?_, by rwa [String.toList_ofList]⟩
  rw [Text.toList_append_colon, String.toList_ofList, String.toList_ofList, htext]

theorem iff_of_alone (h : ':' ∉ text.toList) : CoversSocket text host p ↔ host = text := by
  constructor
  · rintro (_ | ⟨rfl, -, -⟩)
    · rfl
    · exact absurd (by rw [Text.toList_append_colon]; simp) h
  · rintro rfl
    exact .alone p h

theorem iff_of_tail (h : ':' ∉ tail.toList) :
    CoversSocket (front ++ ":" ++ tail) host p ↔
      host = front ∧ (tail = "*" ∨ Text.Numeral.port? tail.toList = some p) := by
  constructor
  · rintro (⟨_, hnone⟩ | ⟨hcut, htail, hport⟩)
    · exact absurd (by rw [Text.toList_append_colon]; simp) hnone
    · have hsame := Text.cutLast?_append_colon front h
      rw [hcut, Text.cutLast?_append_colon _ htail, Option.some.injEq, Prod.mk.injEq,
        String.toList_inj, String.toList_inj] at hsame
      obtain ⟨rfl, rfl⟩ := hsame
      exact ⟨rfl, hport⟩
  · rintro ⟨rfl, hport⟩
    exact .port rfl h hport

theorem self_iff : CoversSocket text text p ↔ ':' ∉ text.toList := by
  constructor
  · rintro (⟨_, halone⟩ | ⟨hcut, -, -⟩)
    · exact halone
    · have hlength := congrArg (fun t => t.toList.length) hcut
      simp only [Text.toList_append_colon, List.length_append, List.length_cons] at hlength
      omega
  · exact .alone p

end CoversSocket

namespace ArgumentPattern

theorem portOf_eq_ok {tail : String} {port : Option UInt16} :
    portOf tail.toList = .ok port ↔
      (tail = "*" ∧ port = none) ∨
        ∃ p, Text.Numeral.port? tail.toList = some p ∧ port = some p := by
  rw [portOf]
  split_ifs with hstar
  · have htail : tail = "*" := String.toList_inj.mp hstar
    have hno : Text.Numeral.port? ['*'] = none := by decide
    simp [hno, htail, eq_comm]
  · have htail : tail ≠ "*" := fun h => hstar (by rw [h]; rfl)
    cases Text.Numeral.port? tail.toList with
    | none => simp [htail]
    | some p => simp [htail, eq_comm]

theorem exactSocket_eq_ok {host : String} {port : Option UInt16} {a : ArgumentPattern} :
    (if host.toList.isEmpty then throw RuleFlaw.emptyHost
      else return .socket (.exact (String.ofList host.toList)) port : Except RuleFlaw _) = .ok a ↔
      host ≠ "" ∧ a = .socket (.exact host) port := by
  by_cases hhost : host = ""
  · simp [hhost, throw, throwThe, MonadExceptOf.throw]
  · have hnamed : host.toList.isEmpty = false := by simpa using hhost
    rw [hnamed, if_neg Bool.false_ne_true, String.ofList_toList, and_iff_right hhost]
    exact ⟨fun h => (Except.ok.inj h).symm, fun h => h ▸ rfl⟩

theorem parse_exact_alone {host : String} (h : ':' ∉ host.toList) {a : ArgumentPattern} :
    parse .socket ('=' :: host.toList) = .ok a ↔
      host ≠ "" ∧ a = .socket (.exact host) none := by
  rw [parse, parseSocket, Text.cutLast?_eq_none h]
  exact exactSocket_eq_ok

theorem parse_exact_port {host tail : String} (h : ':' ∉ tail.toList) {a : ArgumentPattern} :
    parse .socket ('=' :: (host ++ ":" ++ tail).toList) = .ok a ↔
      host ≠ "" ∧ ∃ port, portOf tail.toList = .ok port ∧ a = .socket (.exact host) port := by
  rw [parse, parseSocket, Text.cutLast?_append_colon host h]
  cases hport : portOf tail.toList with
  | error flaw => simp [hport, bind, Except.bind]
  | ok port =>
    simp only [hport]
    refine exactSocket_eq_ok.trans ?_
    simp

theorem accepts_socket_exact {name host : String} {port : Option UInt16} {p : UInt16} :
    accepts (.socket (.exact name) port) (.socket host p) = true ↔
      host = name ∧ (port = none ∨ port = some p) := by
  rw [accepts, TextPattern.accepts, Bool.and_eq_true, beq_iff_eq, Bool.or_eq_true, beq_iff_eq,
    Option.isNone_iff_eq_none, eq_comm]

theorem accepts_exact_socket {text : String} {a : ArgumentPattern}
    (h : parse .socket ('=' :: text.toList) = .ok a) (host : String) (p : UInt16) :
    a.accepts (.socket host p) = true ↔ CoversSocket text host p := by
  by_cases hcolon : ':' ∈ text.toList
  · obtain ⟨front, tail, rfl, htail⟩ := CoversSocket.exists_tail hcolon
    obtain ⟨-, port, hport, rfl⟩ := (parse_exact_port htail).mp h
    rw [CoversSocket.iff_of_tail htail, accepts_socket_exact]
    refine and_congr_right fun _ => ?_
    rcases portOf_eq_ok.mp hport with ⟨rfl, rfl⟩ | ⟨q, hq, rfl⟩
    · simp
    · have hstar : tail ≠ "*" := by
        rintro rfl
        cases hq
      simp [hq, hstar]
  · obtain ⟨-, rfl⟩ := (parse_exact_alone hcolon).mp h
    simp [CoversSocket.iff_of_alone hcolon, accepts_socket_exact]

theorem exists_exact_socket {text : String} :
    (∃ a, parse .socket ('=' :: text.toList) = .ok a) ↔
      ∃ host p, host ≠ "" ∧ CoversSocket text host p := by
  by_cases hcolon : ':' ∈ text.toList
  · obtain ⟨front, tail, rfl, htail⟩ := CoversSocket.exists_tail hcolon
    simp only [parse_exact_port htail, CoversSocket.iff_of_tail htail]
    constructor
    · rintro ⟨-, hfront, port, hport, -⟩
      rcases portOf_eq_ok.mp hport with ⟨hstar, -⟩ | ⟨q, hq, -⟩
      · exact ⟨front, 0, hfront, rfl, .inl hstar⟩
      · exact ⟨front, q, hfront, rfl, .inr hq⟩
    · rintro ⟨_, q, hfront, rfl, hstar | hq⟩
      · exact ⟨_, hfront, none, portOf_eq_ok.mpr (.inl ⟨hstar, rfl⟩), rfl⟩
      · exact ⟨_, hfront, some q, portOf_eq_ok.mpr (.inr ⟨q, hq, rfl⟩), rfl⟩
  · simp only [parse_exact_alone hcolon, CoversSocket.iff_of_alone hcolon]
    simp

end ArgumentPattern

/-! ### Arguments -/

theorem Operation.kind_eq_exitCode {o : Operation} : o.kind = .exitCode ↔ o = .systemExit := by
  cases o <;> decide

namespace Argument

variable {o : Operation} {raw : String} {base : Path} {a a' : Argument}

theorem kind_of_parse (h : parse o raw base = .ok a) : a.kind = o.kind := by
  unfold parse at h
  split at h
  case h_1 hkind =>
    unfold parseSocket at h
    split at h
    · cases h
    · split at h
      · rw [hkind, ← Except.ok.inj h, kind]
      · cases h
  case h_3 hkind =>
    unfold parseExitCode at h
    split at h
    · rw [hkind, ← Except.ok.inj h, kind]
    · cases h
  all_goals rw [‹o.kind = _›, ← Except.ok.inj h, kind]

theorem exists_socket (h : a.kind = .socket) : ∃ host p, a = .socket host p := by
  cases a <;> first | exact ⟨_, _, rfl⟩ | cases h

theorem eq_of_display (hkind : a.kind = a'.kind) (hsocket : a.kind ≠ .socket)
    (hexit : a.kind ≠ .exitCode) (h : a.display = a'.display) : a = a' := by
  cases a <;> cases a' <;> cases hkind
  case socket.socket.refl => exact absurd rfl hsocket
  case exitCode.exitCode.refl => exact absurd rfl hexit
  case path.path.refl => exact congrArg path (congrArg Path.mk h)
  all_goals exact congrArg _ h

theorem display_socket (host : String) (p : UInt16) :
    (socket host p).display = host ++ ":" ++ toString p := rfl

end Argument

theorem Text.colon_not_mem_toString (p : UInt16) : ':' ∉ (toString p).toList := by
  intro h
  rw [Numeral.toList_toString] at h
  exact absurd (Numeral.isDigit_of_mem_toDigits h) (by decide)

theorem CoversSocket.display_iff {host host' : String} {p p' : UInt16} :
    CoversSocket (Argument.socket host p).display host' p' ↔
      Argument.socket host' p' = .socket host p := by
  have hport := Text.Numeral.port?_toString p
  have hstar : toString p ≠ "*" := by
    intro h
    rw [h] at hport
    cases hport
  rw [Argument.display_socket, iff_of_tail (Text.colon_not_mem_toString p), hport,
    or_iff_right hstar, Option.some.injEq, Argument.socket.injEq, eq_comm (a := p)]

namespace ArgumentPattern

theorem parse_text {kind : ArgumentKind} (hsocket : kind ≠ .socket) (hexit : kind ≠ .exitCode)
    (raw : List Char) : parse kind raw = .ok (.text (.parse raw)) := by
  cases kind with
  | socket => exact absurd rfl hsocket
  | exitCode => exact absurd rfl hexit
  | _ => rfl

theorem exists_exact_display {a : Argument} (hexit : a.kind ≠ .exitCode)
    (hosted : ∀ p, a ≠ .socket "" p) :
    ∃ x, parse a.kind ('=' :: a.display.toList) = .ok x ∧
      ∀ a' : Argument, a'.kind = a.kind → (x.accepts a' = true ↔ a' = a) := by
  by_cases hsocket : a.kind = .socket
  · obtain ⟨host, p, rfl⟩ := Argument.exists_socket hsocket
    have hhost : host ≠ "" := fun h => hosted p (h ▸ rfl)
    obtain ⟨x, hx⟩ := exists_exact_socket.mpr ⟨host, p, hhost, CoversSocket.display_iff.mpr rfl⟩
    refine ⟨x, hx, fun a' hkind => ?_⟩
    obtain ⟨host', p', rfl⟩ := Argument.exists_socket hkind
    rw [accepts_exact_socket hx, CoversSocket.display_iff]
  · refine ⟨.text (.exact a.display), ?_, fun a' hkind => ?_⟩
    · rw [parse_text hsocket hexit, TextPattern.parse, String.ofList_toList]
    · rw [accepts_iff]
      constructor
      · rintro (_ | _ | ⟨hsocket', hexit', hshown⟩)
        exact Argument.eq_of_display hkind hsocket' hexit' (beq_iff_eq.mp hshown).symm
      · rintro rfl
        exact .text hsocket hexit (beq_self_eq_true _)

end ArgumentPattern

namespace Rule

/-- Behind the text that an argument is shown with, an exact line is a rule for that argument and
for no other of its operation, whoever calls. -/
theorem exists_exactLine {o : Operation} (uncoded : o ≠ .systemExit) {base : Path} {raw : String}
    {a : Argument} (parsed : Argument.parse o raw base = .ok a)
    (ends : NoBlankEnd a.display.toList) (hosted : ∀ p, a ≠ .socket "" p) :
    ∃ rule, parse o (exactLine a.display) = .ok rule ∧ rule.ruling = .deny ∧
      ∀ site base' raw' a', Argument.parse o raw' base' = .ok a' →
        (rule.accepts (.concrete site) a' = true ↔ a' = a) := by
  have hkind := Argument.kind_of_parse parsed
  have hexit : a.kind ≠ .exitCode := fun h => uncoded (Operation.kind_eq_exitCode.mp (hkind ▸ h))
  obtain ⟨x, hx, haccepts⟩ := ArgumentPattern.exists_exact_display hexit hosted
  refine ⟨_, (parse_exactLine_eq_ok ends).mpr ⟨x, hkind ▸ hx, rfl⟩, rfl, ?_⟩
  intro site base' raw' a' hparse
  rw [accepts_exactLine, haccepts a' ((Argument.kind_of_parse hparse).trans hkind.symm)]

theorem exists_exactLine_colons :
    Argument.parse .connectionOpen "=a *:b:+0443" ⟨"/"⟩ = .ok (.socket "=a *:b" 443) ∧
      ∃ rule, parse .connectionOpen "DENY ALL ==a *:b:443" = .ok rule ∧
        ∀ site, rule.accepts (.concrete site) (.socket "=a *:b" 443) = true := by
  have hparse : Argument.parse .connectionOpen "=a *:b:+0443" ⟨"/"⟩ =
      .ok (.socket "=a *:b" 443) := by decide
  obtain ⟨rule, hrule, -, haccepts⟩ := exists_exactLine (by decide) hparse (by decide) (by simp)
  exact ⟨hparse, rule, hrule, fun site => (haccepts site _ _ _ hparse).mpr rfl⟩

/-- An exact network rule is about what its text covers, and is one if that is some host at all.
So a bare host is covered on every port if it holds no colon. If it holds one, the line is not
about it on any port: it is a rule for another host, or no rule. -/
theorem covers_of_exactLine {o : Operation} (networked : o.kind = .socket) {host : String}
    (unspaced : ∀ c ∈ host.toList, isBlank c = false) :
    (∀ rule, parse o (exactLine host) = .ok rule → ∀ site name p,
      rule.accepts (.concrete site) (.socket name p) = true ↔ CoversSocket host name p) ∧
    ((∃ rule, parse o (exactLine host) = .ok rule) ↔
      ∃ name p, name ≠ "" ∧ CoversSocket host name p) ∧
    (host ≠ "" → ':' ∉ host.toList → ∃ rule, parse o (exactLine host) = .ok rule ∧
      ∀ site p, rule.accepts (.concrete site) (.socket host p) = true) ∧
    (':' ∈ host.toList → ∀ rule, parse o (exactLine host) = .ok rule →
      ∀ site p, rule.accepts (.concrete site) (.socket host p) = false) := by
  have hline : ∀ rule, parse o (exactLine host) = .ok rule ↔
      ∃ x, ArgumentPattern.parse .socket ('=' :: host.toList) = .ok x ∧
        rule = ⟨.deny, .all, x, exactLine host⟩ := by
    intro rule
    rw [parse_exactLine_eq_ok (.of_forall unspaced), networked]
  have haccepts : ∀ rule, parse o (exactLine host) = .ok rule → ∀ site name p,
      rule.accepts (.concrete site) (.socket name p) = true ↔ CoversSocket host name p := by
    intro rule hrule site name p
    obtain ⟨x, hx, rfl⟩ := (hline rule).mp hrule
    rw [accepts_exactLine, ArgumentPattern.accepts_exact_socket hx]
  have hexists : (∃ rule, parse o (exactLine host) = .ok rule) ↔
      ∃ name p, name ≠ "" ∧ CoversSocket host name p := by
    rw [← ArgumentPattern.exists_exact_socket]
    constructor
    · rintro ⟨rule, hrule⟩
      obtain ⟨x, hx, -⟩ := (hline rule).mp hrule
      exact ⟨x, hx⟩
    · rintro ⟨x, hx⟩
      exact ⟨_, (hline _).mpr ⟨x, hx, rfl⟩⟩
  refine ⟨haccepts, hexists, fun hnamed halone => ?_, fun hcolon rule hrule site p => ?_⟩
  · obtain ⟨rule, hrule⟩ := hexists.mpr ⟨host, 0, hnamed, .alone 0 halone⟩
    exact ⟨rule, hrule, fun site p => (haccepts rule hrule site host p).mpr (.alone p halone)⟩
  · rw [Bool.eq_false_iff, ne_eq, haccepts rule hrule, CoversSocket.self_iff, not_not]
    exact hcolon

theorem covers_of_exactLine_address :
    Operation.kind .connectionAccept = .socket ∧
      (∀ c ∈ "10.0.0.1".toList, isBlank c = false) ∧
      ∃ rule, parse .connectionAccept "DENY ALL =10.0.0.1" = .ok rule ∧
        ∀ site p, rule.accepts (.concrete site) (.socket "10.0.0.1" p) = true := by
  have hunspaced : ∀ c ∈ "10.0.0.1".toList, isBlank c = false := by simp [isBlank]
  exact ⟨rfl, hunspaced,
    (covers_of_exactLine (o := .connectionAccept) rfl hunspaced).2.2.1 (by decide) (by decide)⟩

/-- The last number of an address is taken for a port, and the rule is about a host of one colon. -/
theorem address_read_as_port :
    parse .connectionOpen (exactLine "::1") =
        .ok ⟨.deny, .all, .socket (.exact ":") (some 1), "DENY ALL =::1"⟩ ∧
      ∀ rule, parse .connectionOpen (exactLine "::1") = .ok rule →
        ∀ site p, rule.accepts (.concrete site) (.socket "::1" p) = false := by
  have hrule : parse .connectionOpen (exactLine "::1") =
      .ok ⟨.deny, .all, .socket (.exact ":") (some 1), "DENY ALL =::1"⟩ := by decide
  refine ⟨hrule, fun rule h site p => ?_⟩
  obtain rfl := Except.ok.inj (hrule.symm.trans h)
  rfl

end Rule

end PluginGuard
