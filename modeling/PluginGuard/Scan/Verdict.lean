import PluginGuard.Text.Character

/-!
# Verdicts and countermeasures

What a scan says about a plugin and what is done about it.
-/
namespace PluginGuard

inductive Verdict
  | clean
  | suspicious
  | malicious
  deriving DecidableEq, Repr

namespace Verdict

def name : Verdict → String
  | .clean => "CLEAN"
  | .suspicious => "SUSPICIOUS"
  | .malicious => "MALICIOUS"

def ofName? : String → Option Verdict
  | "CLEAN" => some .clean
  | "SUSPICIOUS" => some .suspicious
  | "MALICIOUS" => some .malicious
  | _ => none

def rank : Verdict → Nat
  | .clean => 0
  | .suspicious => 1
  | .malicious => 2

end Verdict

inductive Countermeasure
  | warn
  | abort
  | quarantine
  deriving DecidableEq, Repr

namespace Countermeasure

def name : Countermeasure → String
  | .warn => "WARN"
  | .abort => "ABORT"
  | .quarantine => "QUARANTINE"

def ofName? : String → Option Countermeasure
  | "WARN" => some .warn
  | "ABORT" => some .abort
  | "QUARANTINE" => some .quarantine
  | _ => none

def rank : Countermeasure → Nat
  | .warn => 0
  | .abort => 1
  | .quarantine => 2

def ofSetting? (text : String) : Option Countermeasure :=
  match Text.Ascii.lower (Text.trim text) with
  | "warn" => some .warn
  | "abort" => some .abort
  | "quarantine" => some .quarantine
  | _ => none

def unknownMessage (text : String) : String := s!"unknown countermeasure '{text}'"

def blocksStartup : Countermeasure → Bool
  | .warn => false
  | .abort => true
  | .quarantine => true

def stronger (a b : Countermeasure) : Countermeasure := if a.rank ≤ b.rank then b else a

def strongest? : List Countermeasure → Option Countermeasure
  | [] => none
  | c :: cs => some (cs.foldl stronger c)

end Countermeasure

structure Response where
  suspicious : Countermeasure
  malicious : Countermeasure
  deriving DecidableEq, Repr

namespace Response

def standard : Response := ⟨.warn, .abort⟩

def to? (r : Response) : Verdict → Option Countermeasure
  | .clean => none
  | .suspicious => some r.suspicious
  | .malicious => some r.malicious

end Response

structure ScanResult where
  verdict : Verdict
  /-- In percent. -/
  confidence : UInt8
  details : List String
  recommended : Option Countermeasure
  deriving DecidableEq, Repr

def ScanResult.clean : ScanResult := ⟨.clean, 100, [], none⟩

end PluginGuard
