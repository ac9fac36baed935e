import PluginGuard.Cli.Program
import PluginGuard.Inspect.Analysis

/-!
# The program for inspection

Runs in a scratch directory, without colour. What the system or the reading of the
command line puts into words of its own is left out.
-/
namespace PluginGuard.Inspect

open Cli

def surroundings (configured : Option String) (run : Nat) : Surroundings :=
  ⟨scratch, some scratch, configured.map Path.mk, false, fun n => occasion (1000 * run + n)⟩

def lead (text : String) : String → Bool := fun s => Text.startsWith text.toList s.toList

def comparableErrors (e : Ending) : Option String :=
  let shown := match e.status with
    | .usage => lead "ERROR: " e.errors
    | .failure => ["ERROR: read class name", "ERROR: rewrite "].any (lead · e.errors)
    | .crashed => false
    | _ => true
  if shown then some e.errors else none

def ending (e : Ending) : Json :=
  .object [("exit", .ofNat e.status.code.toNat), ("stdout", .text e.output),
    ("stderr", optional (comparableErrors e))]

def programRuns (configured : Option String) (runs : List (List String)) : OnDisk (List Json) :=
  runs.zipIdx.mapM fun (words, n) => do
    return ending (← Cli.run (m := OnDisk) (surroundings configured n) words)

def program (configured : Option String) (runs : List (List String)) (files : List String)
    (d : Disk) : Json :=
  let (answers, after) := (programRuns configured runs).run d
  .object [("runs", .array answers),
    ("read", .array (files.map fun f => .ofOption ((stored after f).map bytes))),
    ("tree", tree after)]

end PluginGuard.Inspect
