import PluginGuard.Cli.Check
import PluginGuard.Cli.Grammar

/-!
# Reading the command line

One word after the other. A switch takes its value from the same word, after an
equals sign, or from the next one. After two dashes alone every word is an
operand. Help is given as soon as it is asked for. A value in a word of its own is
looked at only when the next switch or operand of the same command comes, so help
on a command below is given even where the value is wrong.
-/
namespace PluginGuard.Cli

inductive UsageError
  | unexpected (word : String)
  | unknownCommand (word : String)
  | noCommand
  | noValue (form : String)
  | emptyValue (form : String)
  | repeated (form : String)
  | unwantedValue (form : String)
  | missing (forms : List String)
  deriving DecidableEq, Repr

def UsageError.message : UsageError → String
  | .unexpected word => s!"unexpected argument '{word}' found"
  | .unknownCommand word => s!"unrecognized subcommand '{word}'"
  | .noCommand => "a subcommand is required but one was not provided"
  | .noValue form => s!"a value is required for '{form}' but none was supplied"
  | .emptyValue form => s!"a value is required for '{form}' but none was supplied"
  | .repeated form => s!"the argument '{form}' cannot be used multiple times"
  | .unwantedValue form => s!"unexpected value for '{form}' found; no more were expected"
  | .missing forms =>
    "the following required arguments were not provided:\n  " ++ "\n  ".intercalate forms

inductive Command
  | scan (pluginsDir : Option Path)
  | check (question : Check.Question) (pluginsDir : Option Path)
  | instrument (input output : Path)
  | clearCache

structure Invocation where
  configDir : Option Path
  command : Command

inductive Stop
  | help (topic : Topic)
  | helpOnHelp (topic : Topic)
  | version
  | misuse (topic : Topic) (error : UsageError)
  deriving DecidableEq, Repr

/-! ### Words -/

inductive Word
  | dashes
  | long (name : String) (value : Option String)
  | short (letter : Char)
  | plain
  deriving DecidableEq, Repr

/-- One dash alone is a plain word. -/
def Word.ofText (word : String) : Word :=
  match word.toList with
  | ['-', '-'] => .dashes
  | '-' :: '-' :: cs =>
    match Text.cutFirst? '=' cs with
    | some (name, value) => .long (String.ofList name) (some (String.ofList value))
    | none => .long (String.ofList cs) none
  | '-' :: c :: _ => .short c
  | _ => .plain

inductive Expectation
  | anything
  | value (of : Switch)
  | operand
  /-- A command to give help for. -/
  | topic
  /-- The help asked for is that for `help`. -/
  | nothing
  deriving DecidableEq, Repr

structure Reading where
  topic : Topic
  /-- The configuration directory, if a command above gives one. -/
  inherited : Option String
  switches : List (String × String)
  /-- A value that has not been looked at. -/
  pending : Option (Switch × String)
  operands : List String
  expecting : Expectation
  /-- What was wrong in the words before the command. -/
  overdue : Option Stop
  deriving DecidableEq, Repr

namespace Reading

def start : Reading := ⟨.program, none, [], none, [], .anything, none⟩

def grammar (r : Reading) : Grammar := r.topic.grammar

def misuse {α : Type} (r : Reading) (e : UsageError) : Except Stop α := .error (.misuse r.topic e)

def value? (r : Reading) (name : String) : Option String :=
  (r.switches.find? (·.1 == name)).map (·.2)

/-- The directory given closest to the command. -/
def configDir? (r : Reading) : Option String :=
  match r.value? configDir.name with
  | some d => some d
  | none => r.inherited

def fits (kind : ValueKind) (value : String) : Bool := kind == .text || !value.isEmpty

def give (r : Reading) (s : Switch) (value : String) : Except Stop Reading :=
  if (r.value? s.name).isSome then r.misuse (.repeated s.form)
  else if fits s.kind value then
    .ok { r with switches := r.switches ++ [(s.name, value)] }
  else r.misuse (.emptyValue s.form)

def settle (r : Reading) : Except Stop Reading :=
  match r.pending with
  | some (s, value) => { r with pending := none }.give s value
  | none => .ok r

def descend (r : Reading) (t : Topic) : Reading :=
  match r.settle with
  | .ok r => ⟨t, r.configDir?, [], none, [], .anything, r.overdue⟩
  | .error stop => ⟨t, none, [], none, [], .anything, some stop⟩

def operand (r : Reading) (word : String) : Except Stop Reading :=
  match r.grammar.operands[r.operands.length]? with
  | none => r.misuse (.unexpected word)
  | some o =>
    if fits o.kind word then .ok { r with operands := r.operands ++ [word] }
    else r.misuse (.emptyValue o.form)

def topic? (r : Reading) (name : String) : Option Topic :=
  (r.grammar.topics.find? (·.1 == name)).map (·.2)

def plainWord (r : Reading) (word : String) : Except Stop Reading :=
  if r.grammar.topics.isEmpty then do (← r.settle).operand word
  else
    match r.topic? word with
    | some t => .ok (r.descend t)
    | none =>
      if word == "help" then .ok { r with expecting := .topic }
      else r.misuse (.unknownCommand word)

def topicWord (r : Reading) (word : String) : Except Stop Reading :=
  match r.topic? word with
  | some t => .ok { r.descend t with expecting := .topic }
  | none =>
    if word == "help" && !r.grammar.topics.isEmpty then .ok { r with expecting := .nothing }
    else r.misuse (.unknownCommand word)

def flag (r : Reading) (word : String) : Option Stop :=
  match word, r.topic with
  | "help", t => some (.help t)
  | "version", .program => some .version
  | _, _ => none

def longWord (r : Reading) (name : String) (value : Option String) : Except Stop Reading :=
  match r.flag name, r.grammar.switches.find? (·.name == name), value with
  | some stop, _, none => .error stop
  | some _, _, some _ => r.misuse (.unwantedValue ("--" ++ name))
  | none, some s, some v => r.give s v
  | none, some s, none => .ok { r with expecting := .value s }
  | none, none, _ => r.misuse (.unexpected ("--" ++ name))

def shortWord (r : Reading) (letter : Char) : Except Stop Reading :=
  let name := if letter = 'h' then "help" else if letter = 'V' then "version" else ""
  match r.flag name with
  | some stop => .error stop
  | none => r.misuse (.unexpected (String.ofList ['-', letter]))

def step (r : Reading) (word : String) : Except Stop Reading :=
  match r.expecting, Word.ofText word with
  | .value s, .plain => .ok { r with pending := some (s, word), expecting := .anything }
  | .value s, _ => r.misuse (.noValue s.form)
  | .operand, _ => do (← r.settle).operand word
  | .topic, _ => r.topicWord word
  | .nothing, _ => r.misuse (.unknownCommand word)
  | .anything, .dashes => .ok { r with expecting := .operand }
  | .anything, .long name value => do (← r.settle).longWord name value
  | .anything, .short letter => do (← r.settle).shortWord letter
  | .anything, .plain => r.plainWord word

def missing (r : Reading) : List String :=
  (r.grammar.switches.filter fun s => s.required && (r.value? s.name).isNone).map Switch.form ++
    (r.grammar.operands.drop r.operands.length).map Operand.form

def command? (r : Reading) : Option Command :=
  let pluginsDir := (r.value? "plugins-dir").map Path.mk
  match r.topic, r.operands with
  | .scan, [] => some (.scan pluginsDir)
  | .check, [argument] => do
    let operation ← r.value? "op"
    let question : Check.Question :=
      ⟨operation, r.value? "plugin", r.value? "class", r.value? "method", argument⟩
    return .check question pluginsDir
  | .instrument, [input, output] => some (.instrument ⟨input⟩ ⟨output⟩)
  | .clear, [] => some .clearCache
  | _, _ => none

def invocation (r : Reading) : Except Stop Invocation :=
  if !r.grammar.topics.isEmpty then r.misuse .noCommand
  else
    match r.command?, r.overdue with
    | none, _ => r.misuse (.missing r.missing)
    | some _, some stop => .error stop
    | some command, none => .ok ⟨r.configDir?.map Path.mk, command⟩

def finish (r : Reading) : Except Stop Invocation :=
  match r.expecting with
  | .value s => r.misuse (.noValue s.form)
  | .topic => .error (.help r.topic)
  | .nothing => .error (.helpOnHelp r.topic)
  | _ => do (← r.settle).invocation

end Reading

def parse (words : List String) : Except Stop Invocation := do
  (← words.foldlM Reading.step .start).finish

def misuseText (t : Topic) (e : UsageError) : String :=
  s!"error: {e.message}\n\nUsage: {t.grammar.usage}\n\nFor more information, try '--help'.\n"

end PluginGuard.Cli
