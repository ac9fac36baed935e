import PluginGuard.Access.Argument
import PluginGuard.Identity

/-!
# Access rules

One line gives a rule: whether it allows or denies, which callers it is about,
and a pattern for the argument. A pattern is a wildcard pattern unless it begins
with an equals sign, which asks for the very text.
-/
namespace PluginGuard

inductive Ruling
  | allow
  | deny
  deriving DecidableEq, Repr

def Ruling.name : Ruling → String
  | .allow => "ALLOW"
  | .deny => "DENY"

def Ruling.ofName? (text : String) : Option Ruling :=
  if Text.Ascii.sameIgnoringCase text "allow" then some .allow
  else if Text.Ascii.sameIgnoringCase text "deny" then some .deny
  else none

inductive Subject
  | all
  | plugin (name : String)
  | source (className : String) (method : Option String)
  deriving DecidableEq, Repr

def Subject.filter : Subject → CallerFilter
  | .all => .any
  | .plugin name => { CallerFilter.any with plugin := some name }
  | .source className method => { CallerFilter.any with className := some className, method }

inductive TextPattern
  | wildcard (pattern : String)
  | exact (text : String)
  deriving DecidableEq, Repr

def TextPattern.accepts : TextPattern → String → Bool
  | .wildcard pattern, input => Text.Wildcard.covers pattern input
  | .exact text, input => text == input

/-- An unset port or code stands for every one. -/
inductive ArgumentPattern
  | socket (host : TextPattern) (port : Option UInt16)
  | exit (code : Option Int32)
  | text (pattern : TextPattern)
  deriving DecidableEq

def ArgumentPattern.accepts : ArgumentPattern → Argument → Bool
  | .socket host port, .socket h p => host.accepts h && (port.isNone || port == some p)
  | .exit code, .exitCode c => code.isNone || code == some c
  | .text pattern, .path l => pattern.accepts (Argument.path l).display
  | .text pattern, .command t => pattern.accepts t
  | .text pattern, .property t => pattern.accepts t
  | .text pattern, .package t => pattern.accepts t
  | .text pattern, .text t => pattern.accepts t
  | _, _ => false

structure Rule where
  ruling : Ruling
  subject : Subject
  argument : ArgumentPattern
  /-- The configured line without the blanks around it. -/
  line : String
  deriving DecidableEq

/-- A rule holds filters only, so it says nothing about a caller that is itself
a filter. -/
def Rule.accepts (r : Rule) (caller : Identity) (argument : Argument) : Bool :=
  match caller with
  | .concrete site => r.subject.filter.accepts site && r.argument.accepts argument
  | .filter _ => false

/-! ### Reading a line -/

inductive RuleFlaw
  | empty
  | ruling (text : String)
  | noSubject
  | subject (text : String)
  | emptyTarget (key : String)
  | emptyClass
  | emptyMethod
  | unknownKey (key : String)
  | noArgument
  | badPort (text : String)
  | emptyHost
  | badExitCode (text : String)
  deriving DecidableEq, Repr

def RuleFlaw.reason : RuleFlaw → String
  | .empty => "empty rule"
  | .ruling text => s!"expected ALLOW or DENY, got '{text}'"
  | .noSubject => "missing identity filter"
  | .subject text => s!"expected ALL, PLUGIN=<name> or SOURCE=<class>, got '{text}'"
  | .emptyTarget key => s!"empty {key} target"
  | .emptyClass => "empty SOURCE class"
  | .emptyMethod => "empty SOURCE method"
  | .unknownKey key => s!"unknown identity filter '{key}'"
  | .noArgument => "missing argument pattern"
  | .badPort text => s!"bad port '{text}'"
  | .emptyHost => "empty host"
  | .badExitCode text => s!"bad exit code '{text}'"

structure RuleError where
  operation : Operation
  line : String
  flaw : RuleFlaw
  deriving DecidableEq, Repr

def RuleError.message (e : RuleError) : String :=
  s!"rule '{e.line}' for {e.operation.name}: {e.flaw.reason}"

def Subject.parseSource (value : List Char) : Except RuleFlaw Subject :=
  match Text.cutFirst? '#' value with
  | none => .ok (.source (String.ofList value) none)
  | some ([], _) => .error .emptyClass
  | some (_, []) => .error .emptyMethod
  | some (className, method) =>
    .ok (.source (String.ofList className) (some (String.ofList method)))

def Subject.parse (token : List Char) : Except RuleFlaw Subject :=
  if Text.Ascii.sameIgnoringCase (String.ofList token) "all" then .ok .all
  else match Text.cutFirst? '=' token with
    | none => .error (.subject (String.ofList token))
    | some (key, value) =>
      let key := String.ofList key
      if value.isEmpty then .error (.emptyTarget key)
      else if Text.Ascii.sameIgnoringCase key "plugin" then .ok (.plugin (String.ofList value))
      else if Text.Ascii.sameIgnoringCase key "source" then parseSource value
      else .error (.unknownKey key)

def TextPattern.parse : List Char → TextPattern
  | '=' :: text => .exact (String.ofList text)
  | pattern => .wildcard (String.ofList pattern)

def ArgumentPattern.portOf (port : List Char) : Except RuleFlaw (Option UInt16) :=
  if port = ['*'] then .ok none
  else match Text.Numeral.port? port with
    | some p => .ok (some p)
    | none => .error (.badPort (String.ofList port))

def ArgumentPattern.parseSocket (raw : List Char) : Except RuleFlaw ArgumentPattern := do
  let (exact, body) := match raw with
    | '=' :: body => (true, body)
    | _ => (false, raw)
  let (host, port) ← match Text.cutLast? ':' body with
    | some (host, port) => do pure (host, ← portOf port)
    | none => pure (body, none)
  if host.isEmpty then throw .emptyHost
  else
    let text := String.ofList host
    return .socket (if exact then .exact text else .wildcard text) port

def ArgumentPattern.parse (kind : ArgumentKind) (raw : List Char) :
    Except RuleFlaw ArgumentPattern :=
  match kind with
  | .socket => parseSocket raw
  | .exitCode =>
    if raw = ['*'] then .ok (.exit none)
    else match Text.Numeral.int32? raw with
      | some code => .ok (.exit (some code))
      | none => .error (.badExitCode (String.ofList raw))
  | _ => .ok (.text (TextPattern.parse raw))

def firstWord (cs : List Char) : List Char × Option (List Char) :=
  match Text.cutWhere? Text.isBlank cs with
  | some (word, rest) => (word, some rest)
  | none => (cs, none)

def Rule.parseChars (kind : ArgumentKind) (line : List Char) : Except RuleFlaw Rule := do
  let (word, rest) := firstWord line
  if word.isEmpty then throw .empty
  let ruling ← match Ruling.ofName? (String.ofList word) with
    | some r => pure r
    | none => throw (.ruling (String.ofList word))
  let some rest := rest | throw .noSubject
  let (token, rest) := firstWord rest
  let subject ← Subject.parse token
  let some rest := rest | throw .noArgument
  let raw := Text.trimChars rest
  if raw.isEmpty then throw .noArgument
  let argument ← ArgumentPattern.parse kind raw
  return ⟨ruling, subject, argument, String.ofList line⟩

def Rule.parse (operation : Operation) (line : String) : Except RuleError Rule :=
  (Rule.parseChars operation.kind (Text.trimChars line.toList)).mapError
    fun flaw => ⟨operation, line, flaw⟩

end PluginGuard
