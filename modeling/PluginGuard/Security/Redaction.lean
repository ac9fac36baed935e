import PluginGuard.Text.Character
import PluginGuard.Text.Pattern

/-!
# Redaction

Credentials in free text are replaced by a mark: the value of an assignment to a
telling name, the token of a bearer header, and user and password in front of a
host. The three are looked for one after the other, each in what the one before
has left.
-/
namespace PluginGuard.Redaction

open Text (isBlank Pattern Spot)

def mark : List Char := "[REDACTED]".toList

/-- A credential: what announces it, the secret, and what has to follow. The
replacement may repeat the announcement. -/
structure Credential where
  lead : Pattern
  secret : Pattern
  tail : Pattern
  replacement : (lead : List Char) → List Char

structure Match where
  lead : Nat
  secret : Nat
  tail : Nat
  deriving DecidableEq, Repr

def Match.length (m : Match) : Nat := m.lead + m.secret + m.tail

namespace Credential

def matchAt? (k : Credential) (s : Spot) : Option Match :=
  (k.lead.ends s).findSome? fun a =>
    (k.secret.ends a).findSome? fun b =>
      (k.tail.ends b).head?.map fun c => ⟨s.upTo a, a.upTo b, b.upTo c⟩

/-- Copies characters and replaces matches; the number counts the characters
that the last match still covers. -/
def replaceInto (k : Credential) : Nat → List Char → Option Char → List Char → List Char
  | _, acc, _, [] => acc.reverse
  | covered + 1, acc, _, c :: cs => replaceInto k covered acc (some c) cs
  | 0, acc, prev, c :: cs =>
    match k.matchAt? ⟨prev, c :: cs⟩ with
    | some m =>
      if m.length = 0 then replaceInto k 0 (c :: acc) (some c) cs
      else replaceInto k (m.length - 1) ((k.replacement ((c :: cs).take m.lead)).reverse ++ acc)
        (some c) cs
    | none => replaceInto k 0 (c :: acc) (some c) cs

def replace (k : Credential) (cs : List Char) : List Char := k.replaceInto 0 [] none cs

end Credential

def isJoiner (c : Char) : Bool := c == '_' || c == '-'

def apiKey : Pattern :=
  .sequence [.word "api", .optional (.one isJoiner), .word "key"]

def tellingName : Pattern :=
  .anyOf [.word "password", .word "passwd", .word "pwd", .word "secret", .word "token", apiKey]

def assignment : Credential where
  lead := .sequence [.boundary, tellingName, .run 0 isBlank, .one fun c => c == '=' || c == ':',
    .run 0 isBlank]
  secret := .run 1 (!isBlank ·)
  tail := .nothing
  replacement lead := lead ++ mark

def isTokenChar (c : Char) : Bool :=
  let n := c.toNat
  n < 128 && (Text.Letter.asciiLetter n || Text.Letter.asciiDigit n || c == '-' || c == '.' ||
    c == '_' || c == '~' || c == '+' || c == '/')

def bearer : Credential where
  lead := .sequence [.exactly "Bearer", .run 1 isBlank]
  secret := .both (.run 1 isTokenChar) (.run 0 (· == '='))
  tail := .nothing
  replacement _ := "Bearer ".toList ++ mark

def isUserChar (c : Char) : Bool := !(c == '/' || c == ':' || c == '@' || isBlank c)

def isPasswordChar (c : Char) : Bool := !(c == '/' || c == '@' || isBlank c)

def urlPassword : Credential where
  lead := .sequence [.exactly "://", .run 1 isUserChar, .exactly ":"]
  secret := .run 1 isPasswordChar
  tail := .exactly "@"
  replacement _ := "://".toList ++ mark ++ ['@']

def redactChars (cs : List Char) : List Char :=
  urlPassword.replace (bearer.replace (assignment.replace cs))

def redact (s : String) : String := String.ofList (redactChars s.toList)

end PluginGuard.Redaction
