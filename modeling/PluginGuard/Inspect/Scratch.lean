import PluginGuard.Disk.Request
import PluginGuard.Json.Value
import PluginGuard.Text.Cut

/-!
# Answers about a scratch directory

Disks below a directory whose name does not matter. In answers the directory is
written as a mark, and what the system says about an error is left out.
-/
namespace PluginGuard.Inspect

def scratch : Path := ⟨"/tmp/.scratched"⟩

def scratchMark : String := "$TMP"

def scratchDisk (files : List (String × Option (List UInt8))) : Disk :=
  .ofFiles scratch ((⟨"/dev/null"⟩, some []) :: files.map fun (p, b) => (scratch.child p, b))

def replaceAll (old new : List Char) : Nat → List Char → List Char
  | 0, cs => cs
  | _, [] => []
  | fuel + 1, c :: cs =>
    match Text.after? old (c :: cs) with
    | some rest => new ++ replaceAll old new fuel rest
    | none => c :: replaceAll old new fuel cs

def replacing (old new text : String) : String :=
  String.ofList (replaceAll old.toList new.toList (text.toList.length + 1) text.toList)

def expand (text : String) : String := replacing scratchMark scratch.text text

def cutAt? (part : List Char) : (before cs : List Char) → Option (List Char × List Char)
  | before, cs =>
    match Text.after? part cs with
    | some rest => some (before.reverse, rest)
    | none =>
      match cs with
      | [] => none
      | c :: cs => cutAt? part (c :: before) cs

def upToLastColon (cs : List Char) : List Char :=
  match cutAt? [' ', ':'] [] cs.reverse with
  | some (_, before) => before.reverse ++ [':', ' ']
  | none => []

def archiveLead : List Char := "failed to read plugin archive ".toList

def plainLine (cs : List Char) : List Char :=
  match cutAt? " (os error ".toList [] cs with
  | some (before, _) => upToLastColon before ++ "<os error>".toList
  | none =>
    match cutAt? archiveLead [] cs with
    | some (before, rest) =>
      match cutAt? [':', ' '] [] rest with
      | some (path, _) => before ++ archiveLead ++ path ++ ": <zip error>".toList
      | none => cs
    | none => cs

def plainText (text : String) : String :=
  let lines := Text.pieces (· == '\n') (replacing scratch.text scratchMark text).toList
  String.ofList (List.intercalate ['\n'] (lines.map plainLine))

mutual

def mapTexts (f : String → String) : Json → Json
  | .text s => .text (f s)
  | .array items => .array (mapItems f items)
  | .object fields => .object (mapFields f fields)
  | j => j

def mapItems (f : String → String) : List Json → List Json
  | [] => []
  | j :: rest => mapTexts f j :: mapItems f rest

def mapFields (f : String → String) : List (String × Json) → List (String × Json)
  | [] => []
  | (k, j) :: rest => (f k, mapTexts f j) :: mapFields f rest

end

def expanded (j : Json) : Json := mapTexts expand j

def plain (j : Json) : Json := mapTexts plainText j

/-- The files of the scratch directory; those of log directories are left out. -/
def tree (d : Disk) : Json :=
  .array ((d.filesUnder scratch.text fun dir => !Text.endsWith "logs".toList dir.toList).map .text)

def stored (d : Disk) (name : String) : Option (List UInt8) := (d.read (scratch.child name)).toOption

end PluginGuard.Inspect
