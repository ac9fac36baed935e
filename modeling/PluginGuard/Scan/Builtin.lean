import PluginGuard.Scan.Calls
import PluginGuard.Scan.Scanner
import PluginGuard.Text.Cut
import PluginGuard.Text.Letter
import PluginGuard.Text.Pattern
import PluginGuard.Text.Quoted

/-!
# Scanners of names and of texts

The two that do not look at calls, and the list of those that come with the guard.

## Scanner of names

Names that a tool made rather than a person: mostly one or two letters long, or
no identifiers at all. Constructors and initialisers do not count.
-/
namespace PluginGuard.Scan.Names

def keywords : List String :=
  ["abstract", "assert", "boolean", "break", "byte", "case", "catch", "char", "class", "const",
    "continue", "default", "do", "double", "else", "enum", "extends", "final", "finally", "float",
    "for", "goto", "if", "implements", "import", "instanceof", "int", "interface", "long",
    "native", "new", "package", "private", "protected", "public", "return", "short", "static",
    "super", "switch", "synchronized", "this", "throw", "throws", "try", "void", "volatile", "while"]

def isJoiner (c : Char) : Bool := c == '_' || c == '$'

def isIdentifier (name : String) : Bool :=
  match name.toList with
  | [] => false
  | first :: rest =>
    (Text.Letter.isAlphabetic first || isJoiner first) &&
      rest.all (fun c => Text.Letter.isAlphabetic c || Text.Letter.isNumeric c || isJoiner c) &&
      !keywords.contains name

def membersKey : String := "members"
def shortKey : String := "short"
def illegalKey : String := "illegal"

def tally (name : String) (f : Findings) : Except Overflow Findings := do
  if name = "<init>" ∨ name = "<clinit>" then return f
  let f ← f.bump membersKey 1
  if !isIdentifier name then f.bump illegalKey 1
  else if name.toList.length ≤ 2 then f.bump shortKey 1
  else return f

def simpleName (name : String) : String :=
  String.ofList ((Text.pieces (fun c => c == '.' || c == '$') name.toList).getLast?.getD [])

def weighIllegal (f : Findings) : Except Overflow Findings :=
  let illegal := f.counter illegalKey
  if 3 ≤ illegal then
    f.suspect s!"{illegal} of {f.counter membersKey} names are not legal identifiers"
  else .ok f

def weighOdd (f : Findings) : Except Overflow Findings := do
  let members := f.counter membersKey
  if members < 8 then return f
  let odd ← Overflow.add64 (f.counter shortKey) (f.counter illegalKey)
  if (← Overflow.mul64 odd 100) ≥ (← Overflow.mul64 members 60) then
    f.suspect s!"{odd} of {members} names are one or two characters or illegal"
  else return f

/-- From three names that are no identifiers on, and where 60 percent of at least
eight names are short or no identifiers. -/
def weigh (f : Findings) : Except Overflow Findings := do weighOdd (← weighIllegal f)

def response : Response := ⟨.warn, .warn⟩

def scanner : Scanner where
  name := "obfuscation"
  response := response
  visit v f := match v with
    | .ofClass c => .of (tally (simpleName c.name) f)
    | .ofField _ fd => .of (tally fd.name f)
    | .ofMethod _ m => .of (tally m.name f)
  conclude f := ((weigh f).bind (·.result response)).mapError (·.message)

end PluginGuard.Scan.Names

/-!
## Scanner of texts

Texts in a class that point at places where data leaves or commands come in, and
large encoded blobs. A text counts once, under the first kind that fits.
-/
namespace PluginGuard.Scan.Strings

open Text (Pattern)

structure Kind where
  label : String
  verdict : Verdict
  fits : List Char → Bool

def digit : Pattern := .one Text.Letter.isDecimal

def upToThreeDigits : Pattern := .sequence [digit, .optional digit, .optional digit]

def isTunnelChar (c : Char) : Bool :=
  Text.Ascii.isLetter c || Text.Ascii.isDigit c || c == '-' || c == '\u017f' || c == '\u212a'

def webhook : Pattern :=
  .sequence [.word "discord", .optional (.word "app"), .word ".com/api/webhooks/"]

def miningPool : Pattern :=
  .sequence [.word "stratum+", .anyOf [.word "tcp", .word "ssl"], .exactly "://"]

def pasteHost : Pattern :=
  .sequence [.word "http", .optional (.word "s"), .exactly "://",
    .anyOf [.word "pastebin.com", .word "hastebin.com", .word "transfer.sh",
      .both (.run 1 isTunnelChar) (.word ".ngrok.io")]]

def addressUrl : Pattern :=
  let part := Pattern.both (.exactly ".") upToThreeDigits
  .sequence [.exactly "http", .optional (.exactly "s"), .exactly "://", upToThreeDigits,
    part, part, part]

def isBlobChar (c : Char) : Bool :=
  Text.Ascii.isLetter c || Text.Ascii.isDigit c || c == '+' || c == '/'

/-- At least 200 characters of an encoding, then up to two marks of padding. -/
def isBlob (cs : List Char) : Bool :=
  let padding := cs.dropWhile isBlobChar
  200 ≤ (cs.takeWhile isBlobChar).length && padding.length ≤ 2 && padding.all (· == '=')

def kinds : List Kind :=
  [⟨"Discord webhook", .malicious, webhook.occurs⟩,
    ⟨"reverse shell", .malicious, (Pattern.exactly "/dev/tcp/").occurs⟩,
    ⟨"mining pool", .malicious, miningPool.occurs⟩,
    ⟨"paste or tunnel host", .suspicious, pasteHost.occurs⟩,
    ⟨"raw IP URL", .suspicious, addressUrl.occurs⟩,
    ⟨"large base64 blob", .suspicious, isBlob⟩]

def longestShown : Nat := 60

def preview (text : String) : String :=
  if text.toList.length ≤ longestShown then text
  else String.ofList (text.toList.take longestShown) ++ "..."

def lookText (c : ClassView) (f : Findings) (text : String) : Except Overflow Findings :=
  match kinds.find? (·.fits text.toList) with
  | none => .ok f
  | some k =>
    let detail := s!"{c.name}: {k.label} {Text.Quoted.encode (preview text)}"
    if k.verdict = .malicious then f.condemn detail else f.suspect detail

def scanner : Scanner :=
  .ofClasses "suspicious-strings" .standard fun c f => c.strings.foldlM (lookText c) f

end PluginGuard.Scan.Strings

/-!
## The scanners that come with the guard

In the order in which they run.
-/
namespace PluginGuard.Scan.Scanner

def builtin : List Scanner :=
  [ProcessExec.scanner, NativeCode.scanner, ClassLoading.scanner, SecurityTamper.scanner,
    PrivilegeGrant.scanner, Strings.scanner, Names.scanner]

def builtin? (name : String) : Option Scanner := builtin.find? (·.name == name)

def isBuiltin (name : String) : Bool := (builtin? name).isSome

end PluginGuard.Scan.Scanner
