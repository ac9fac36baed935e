import PluginGuard.Path
import PluginGuard.Text.Character
import PluginGuard.Text.Numeral

/-!
# Operations and their arguments

The operations that a plugin may be kept from, and what each is attempted on.
A path argument is a location: absolute, and resolved component by component.
-/
namespace PluginGuard

inductive Operation
  | connectionOpen
  | connectionAccept
  | fileRead
  | fileWrite
  | fileDelete
  | fileExecute
  | nativeLink
  | processExec
  | systemExit
  | propertyRead
  | propertyWrite
  | packageAccess
  | misc
  deriving DecidableEq, Repr

inductive ArgumentKind
  | socket
  | path
  | exitCode
  | command
  | property
  | package
  | text
  deriving DecidableEq, Repr

namespace Operation

def all : List Operation :=
  [connectionOpen, connectionAccept, fileRead, fileWrite, fileDelete, fileExecute, nativeLink,
    processExec, systemExit, propertyRead, propertyWrite, packageAccess, misc]

def name : Operation → String
  | connectionOpen => "connection-open"
  | connectionAccept => "connection-accept"
  | fileRead => "file-read"
  | fileWrite => "file-write"
  | fileDelete => "file-delete"
  | fileExecute => "file-execute"
  | nativeLink => "native-link"
  | processExec => "process-exec"
  | systemExit => "system-exit"
  | propertyRead => "property-read"
  | propertyWrite => "property-write"
  | packageAccess => "package-access"
  | misc => "misc"

def kind : Operation → ArgumentKind
  | connectionOpen | connectionAccept => .socket
  | fileRead | fileWrite | fileDelete | fileExecute | nativeLink => .path
  | processExec => .command
  | systemExit => .exitCode
  | propertyRead | propertyWrite => .property
  | packageAccess => .package
  | misc => .text

def modifiesFiles : Operation → Bool
  | fileWrite | fileDelete => true
  | _ => false

/-- The name that a text stands for, without regard to case, to blanks around it
and to which of underscore and hyphen joins its words. -/
def canonicalName (text : String) : String :=
  Text.swapChar '_' '-' (Text.Ascii.lower (Text.trim text))

def ofName? (text : String) : Option Operation :=
  all.find? fun o => o.name == canonicalName text

def unknownMessage (text : String) : String := s!"unknown operation '{text}'"

end Operation

inductive Argument
  | socket (host : String) (port : UInt16)
  | path (location : Path)
  | exitCode (code : Int32)
  | command (text : String)
  | property (text : String)
  | package (text : String)
  | text (text : String)
  deriving DecidableEq

inductive ArgumentError
  | noPort (text : String)
  | badPort (text : String)
  | badExitCode (text : String)
  deriving DecidableEq, Repr

def ArgumentError.message : ArgumentError → String
  | .noPort text => s!"expected host:port, got '{text}'"
  | .badPort text => s!"bad port '{text}'"
  | .badExitCode text => s!"bad exit code '{text}'"

namespace Argument

def kind : Argument → ArgumentKind
  | socket .. => .socket
  | path _ => .path
  | exitCode _ => .exitCode
  | command _ => .command
  | property _ => .property
  | package _ => .package
  | text _ => .text

def display : Argument → String
  | socket host port => s!"{host}:{port}"
  | path location => location.text
  | exitCode code => toString code.toInt
  | command t | property t | package t | text t => t

def parseSocket (raw : String) : Except ArgumentError Argument :=
  match Text.cutLast? ':' raw.toList with
  | none => .error (.noPort raw)
  | some (host, port) =>
    match Text.Numeral.port? port with
    | some p => .ok (.socket (String.ofList host) p)
    | none => .error (.badPort (String.ofList port))

def parseExitCode (raw : String) : Except ArgumentError Argument :=
  match Text.Numeral.int32? (Text.trimChars raw.toList) with
  | some code => .ok (.exitCode code)
  | none => .error (.badExitCode raw)

def parse (o : Operation) (raw : String) (base : Path) : Except ArgumentError Argument :=
  match o.kind with
  | .socket => parseSocket raw
  | .path => .ok (.path (base.resolveAgainst ⟨raw⟩))
  | .exitCode => parseExitCode raw
  | .command => .ok (.command raw)
  | .property => .ok (.property raw)
  | .package => .ok (.package raw)
  | .text => .ok (.text raw)

end Argument

end PluginGuard
