import PluginGuard.Scan.Scanner
import PluginGuard.Text.Quoted

/-!
# Scanners of calls

What methods call, and which texts they load around it: processes, native code,
classes made at run time, the security policy and privileges.
-/
namespace PluginGuard.Scan

open ClassFile

namespace Scanner

def ofMethods (name : String) (response : Response)
    (look : ClassView → MethodView → Findings → Except Overflow Findings) : Scanner where
  name := name
  response := response
  visit v f := match v with
    | .ofMethod c m => .of (look c m f)
    | _ => .next f

end Scanner

abbrev Callee := String × String

def isOneOf (callees : List Callee) (m : MemberRef) : Bool :=
  callees.any fun (owner, name) => m.owner == owner && m.name == name

/-! ### Processes -/

namespace ProcessExec

def starters : List Callee :=
  [("java/lang/Runtime", "exec"), ("java/lang/ProcessBuilder", "start"),
    ("java/lang/ProcessBuilder", "command")]

def shellMarks : List String :=
  ["/bin/sh", "/bin/bash", "bash -c", "sh -c", "cmd.exe", "cmd /c", "powershell", "curl ", "wget "]

def namesShell (text : String) : Bool :=
  let lower := Text.Ascii.lowerChars text.toList
  shellMarks.any fun m => Text.contains m.toList lower

def look (c : ClassView) (m : MethodView) (f : Findings) : Except Overflow Findings :=
  match (c.calls m).find? fun (_, r) => isOneOf starters r with
  | none => .ok f
  | some (_, call) =>
    match (c.loadedStrings m).find? namesShell with
    | some command =>
      f.condemn (s!"{c.site m} runs a shell command via {call.display} " ++
        s!"({Text.Quoted.encode command})")
    | none => f.suspect s!"{c.site m} starts a process via {call.display}"

def scanner : Scanner := .ofMethods "process-exec" .standard look

end ProcessExec

/-! ### Native code -/

namespace NativeCode

def loaders : List Callee :=
  [("java/lang/System", "load"), ("java/lang/System", "loadLibrary"),
    ("java/lang/Runtime", "load"), ("java/lang/Runtime", "loadLibrary")]

def unsafeOwners : List String := ["sun/misc/Unsafe", "jdk/internal/misc/Unsafe"]

/-- Every library call counts, direct memory access once a method. -/
def lookCall (site : String) (st : Bool × Findings) (r : MemberRef) :
    Except Overflow (Bool × Findings) :=
  let (reported, f) := st
  if isOneOf loaders r then
    return (reported, ← f.suspect s!"{site} links a native library via {r.display}")
  else if !reported && unsafeOwners.contains r.owner then
    return (true, ← f.suspect s!"{site} uses {r.owner}")
  else return st

def look (c : ClassView) (m : MethodView) (f : Findings) : Except Overflow Findings := do
  let site := c.site m
  let f ← if m.isNative then f.suspect s!"{site} is declared native" else pure f
  return (← (c.calls m).foldlM (fun st (_, r) => lookCall site st r) (false, f)).2

def scanner : Scanner := .ofMethods "native-code" .standard look

end NativeCode

/-! ### Classes made at run time -/

namespace ClassLoading

def decoders : List Callee :=
  [("java/util/Base64$Decoder", "decode"), ("javax/crypto/Cipher", "doFinal"),
    ("java/util/zip/Inflater", "inflate")]

def loaderClasses : List String := ["java/lang/ClassLoader", "java/security/SecureClassLoader"]

def defines (r : MemberRef) : Bool :=
  r.name == "defineClass" || r.name == "defineHiddenClass" ||
    (r.owner == "java/net/URLClassLoader" && r.name == "<init>")

def lookClass (c : ClassView) (f : Findings) : Findings :=
  match c.definition.superName with
  | .ok (some name) =>
    if loaderClasses.contains name then f.note s!"{c.name} is a custom class loader" else f
  | _ => f

def lookMethod (c : ClassView) (m : MethodView) (f : Findings) : Except Overflow Findings :=
  let calls := (c.calls m).map (·.2)
  match calls.find? defines, calls.find? (isOneOf decoders) with
  | some define, some decode =>
    f.condemn (s!"{c.site m} defines classes from decoded data " ++
      s!"({decode.display} then {define.display})")
  | some define, none => f.suspect s!"{c.site m} loads classes at runtime via {define.display}"
  | none, _ => .ok f

def scanner : Scanner where
  name := "dynamic-class-loading"
  response := .standard
  visit v f := match v with
    | .ofClass c => .next (lookClass c f)
    | .ofField _ _ => .next f
    | .ofMethod c m => .of (lookMethod c m f)

end ClassLoading

/-! ### The security policy -/

namespace SecurityTamper

def replacers : List Callee :=
  [("java/lang/System", "setSecurityManager"), ("java/security/Policy", "setPolicy")]

def guardedFields : List String := ["security", "modifiers", "allowSecurityManager"]

def look (c : ClassView) (m : MethodView) (f : Findings) : Except Overflow Findings :=
  let calls := (c.calls m).map (·.2)
  match calls.find? (isOneOf replacers) with
  | some r => f.condemn s!"{c.site m} replaces the security policy via {r.display}"
  | none =>
    if calls.any (·.name == "setAccessible") then
      match (c.loadedStrings m).find? guardedFields.contains with
      | some name =>
        f.suspect s!"{c.site m} reflectively opens the {Text.Quoted.encode name} field"
      | none => .ok f
    else .ok f

def scanner : Scanner := .ofMethods "security-manager-tamper" ⟨.warn, .quarantine⟩ look

end SecurityTamper

/-! ### Privileges -/

namespace PrivilegeGrant

def isGrant (r : MemberRef) : Bool := r.name == "setOp" && r.descriptor == "(Z)V"

def isDispatch (r : MemberRef) : Bool := r.name == "dispatchCommand"

def grantCommands : List String := ["op ", "lp user ", "luckperms user ", "pex user ", "manuadd "]

def grantsByCommand (text : String) : Bool :=
  let lower := Text.Ascii.lowerChars (text.toList.dropWhile (· == '/'))
  grantCommands.any fun c => Text.startsWith c.toList lower

def afterTrue (m : MethodView) (place : Nat) : Bool :=
  match place with
  | 0 => false
  | n + 1 => (m.instructions[n]?.map (·.opcode)) == some Opcode.iconst1

def look (c : ClassView) (m : MethodView) (f : Findings) : Except Overflow Findings := do
  let calls := c.calls m
  let f ← calls.foldlM (fun f (place, r) =>
    if isGrant r && afterTrue m place then
      f.suspect s!"{c.site m} grants operator status via {r.display}"
    else .ok f) f
  if calls.any fun (_, r) => isDispatch r then
    match (c.loadedStrings m).find? grantsByCommand with
    | some command =>
      f.condemn s!"{c.site m} dispatches privilege command {Text.Quoted.encode command}"
    | none => return f
  else return f

def scanner : Scanner := .ofMethods "privilege-grant" .standard look

end PrivilegeGrant

end PluginGuard.Scan
