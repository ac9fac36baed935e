import PluginGuard.Cli.Terminal
import PluginGuard.Workspace

/-!
# The words of the command line

What each command takes: switches with a value, operands, and commands below it.
The help for a command is made from the same description.
-/
namespace PluginGuard.Cli

/-- A value that is a path may not be empty. -/
inductive ValueKind
  | text
  | path
  deriving DecidableEq, Repr

structure Switch where
  name : String
  value : String
  kind : ValueKind
  required : Bool
  about : String
  deriving DecidableEq, Repr

structure Operand where
  name : String
  kind : ValueKind
  about : String
  deriving DecidableEq, Repr

inductive Topic
  | program
  | scan
  | check
  | instrument
  | cache
  | clear
  deriving DecidableEq, Repr

structure Grammar where
  /-- The words that lead to the command. -/
  words : List String
  about : String
  /-- In the order of the help. -/
  switches : List Switch
  operands : List Operand
  topics : List (String × Topic)
  deriving DecidableEq, Repr

def Switch.form (s : Switch) : String := s!"--{s.name} <{s.value}>"

def Operand.form (o : Operand) : String := s!"<{o.name}>"

/-! ### Commands -/

def configDir : Switch :=
  ⟨"config-dir", "CONFIG_DIR", .path, false,
    "Configuration directory (default: $WARDEN_CONFIG_DIR or ~/.warden)"⟩

def pluginsDir (about : String) : Switch := ⟨"plugins-dir", "PLUGINS_DIR", .path, false, about⟩

def checkSwitches : List Switch :=
  [configDir,
    ⟨"op", "OPERATION", .text, true, "Operation name, e.g. file-read or connection-open"⟩,
    ⟨"plugin", "PLUGIN", .text, false, ""⟩,
    ⟨"class", "CLASS", .text, false, ""⟩,
    ⟨"method", "METHOD", .text, false, ""⟩,
    pluginsDir "Plugins directory used to attribute the caller"]

def programName : String := "warden"

def Topic.grammar : Topic → Grammar
  | .program =>
    ⟨[programName], "Warden: plugin security for the host server", [configDir], [],
      [("scan", .scan), ("check", .check), ("rewrite", .instrument), ("cache", .cache)]⟩
  | .scan =>
    ⟨[programName, "scan"], "Scan every plugin and apply countermeasures",
      [configDir, pluginsDir "Plugins directory to scan instead of the configured one"], [], []⟩
  | .check =>
    ⟨[programName, "check"], "Evaluate one access-control decision", checkSwitches,
      [⟨"ARGUMENT", .text, "Path, host:port, exit code, command line, property or package"⟩], []⟩
  | .instrument =>
    ⟨[programName, "rewrite"], "Apply the built-in injections to a class file", [configDir],
      [⟨"INPUT", .path, ""⟩, ⟨"OUTPUT", .path, ""⟩], []⟩
  | .cache =>
    ⟨[programName, "cache"], "Inspection cache maintenance", [configDir], [],
      [("clear", .clear)]⟩
  | .clear =>
    ⟨[programName, "cache", "clear"], "Delete every persisted inspection result", [configDir], [],
      []⟩

/-! ### Help -/

def helpAbout : String := "Print this message or the help of the given subcommand(s)"

def versionText : String := s!"{programName} {version}\n"

def helpLine (lead : String) (longest : Nat) (row : String × String) : String :=
  lead ++ row.1 ++ Terminal.spaces (longest + 2 - row.1.length) ++ row.2 ++ "\n"

def longestForm (rows : List (String × String)) : Nat :=
  (rows.map (·.1.length)).foldl max 2

def section_ (title lead : String) (rows : List (String × String)) : List String :=
  if rows.isEmpty then []
  else [title ++ ":\n" ++ String.join (rows.map (helpLine lead (longestForm rows)))]

namespace Grammar

def usage (g : Grammar) : String :=
  " ".intercalate (g.words ++ ["[OPTIONS]"] ++ (g.switches.filter (·.required)).map Switch.form ++
    g.operands.map Operand.form ++ if g.topics.isEmpty then [] else ["<COMMAND>"])

def topicRows (g : Grammar) : List (String × String) :=
  if g.topics.isEmpty then []
  else g.topics.map (fun (name, t) => (name, t.grammar.about)) ++ [("help", helpAbout)]

def switchSection (g : Grammar) (versioned : Bool) : String :=
  let rows := g.switches.map fun s => (s.form, s.about)
  let longest := longestForm (("--help", "") :: rows)
  "Options:\n" ++ String.join (rows.map (helpLine "      " longest)) ++
    helpLine "  -h, " longest ("--help", "Print help") ++
    if versioned then helpLine "  -V, " longest ("--version", "Print version") else ""

def help (g : Grammar) (versioned : Bool) : String :=
  "\n".intercalate
    ([g.about ++ "\n", s!"Usage: {g.usage}\n"] ++ section_ "Commands" "  " g.topicRows ++
      section_ "Arguments" "  " (g.operands.map fun o => (o.form, o.about)) ++
      [g.switchSection versioned])

end Grammar

/-- Only the program itself has a version. -/
def Topic.help (t : Topic) : String := t.grammar.help (t == .program)

/-- The help for the command `help` below a command. It has no switches. -/
def Topic.helpOnHelp (t : Topic) : String :=
  let words := " ".intercalate (t.grammar.words ++ ["help"])
  "\n".intercalate
    ([helpAbout ++ "\n", s!"Usage: {words} [COMMAND]...\n"] ++
      section_ "Arguments" "  " [("[COMMAND]...", "Print help for the subcommand(s)")])

end PluginGuard.Cli
