import Mathlib.Data.List.Induction
import PluginGuard.Access.Policy

/-!
# The last rule that applies

Of the rules that are kept when a policy is loaded the last one that applies
decides. Rules that repeat the default are not kept. Such a rule may stand behind
one that applies to the same call and rules otherwise, so of the rules that are
configured it is not always the last one that decides.
-/
namespace PluginGuard

namespace OperationSettings

def rulesFor (s : OperationSettings) (o : Operation) : List Rule :=
  s.rules.filterMap fun line => (Rule.parse o line).toOption

def applying (s : OperationSettings) (o : Operation) (caller : Identity) (argument : Argument) :
    List Rule :=
  (s.rulesFor o).filter (·.accepts caller argument)

end OperationSettings

/-- What the last of the rules says, and the default if there is none. -/
def Rule.lastRuling (default : Ruling) (rules : List Rule) : Ruling :=
  (rules.getLast?.map (·.ruling)).getD default

def settingsFor (s : AccessSettings) (o : Operation) : OperationSettings :=
  ((s.entries.reverse.find? fun e => Operation.ofName? e.1 == some o).map (·.2)).getD .unset

theorem Ruling.eq_of_ne : ∀ {a b d : Ruling}, a ≠ d → b ≠ d → a = b
  | .allow, .allow, _, _, _ | .deny, .deny, _, _, _ => rfl
  | .allow, .deny, .allow, ha, _ | .deny, .allow, .deny, ha, _ => absurd rfl ha
  | .allow, .deny, .deny, _, hb | .deny, .allow, .allow, _, hb => absurd rfl hb

namespace Rule

variable {d : Ruling} {rules : List Rule}

theorem lastRuling_mem (h : lastRuling d rules ≠ d) : ∃ r ∈ rules, r.ruling = lastRuling d rules := by
  rw [lastRuling] at h ⊢
  cases hlast : rules.getLast? with
  | none =>
    rw [hlast] at h
    exact absurd rfl h
  | some r => exact ⟨r, List.mem_of_getLast? hlast, rfl⟩

theorem lastRuling_filter_eq_default :
    lastRuling d (rules.filter (·.ruling ≠ d)) = d ↔ ∀ r ∈ rules, r.ruling = d := by
  rw [lastRuling]
  cases hlast : (rules.filter (·.ruling ≠ d)).getLast? with
  | none =>
    rw [List.getLast?_eq_none_iff, List.filter_eq_nil_iff] at hlast
    simpa using hlast
  | some r =>
    obtain ⟨hr, hne⟩ := List.mem_filter.mp (List.mem_of_getLast? hlast)
    have hne : r.ruling ≠ d := by simpa using hne
    exact iff_of_false hne fun h => hne (h r hr)

theorem lastRuling_filter_eq_iff :
    lastRuling d (rules.filter (·.ruling ≠ d)) = lastRuling d rules ↔
      (lastRuling d rules = d → ∀ r ∈ rules, r.ruling = d) := by
  by_cases hlast : lastRuling d rules = d
  · simp only [hlast, lastRuling_filter_eq_default, forall_const]
  · -- The last rule is kept, so neither side is the default, and there is one ruling besides it.
    obtain ⟨r, hr, hruling⟩ := lastRuling_mem hlast
    have hkept : lastRuling d (rules.filter (·.ruling ≠ d)) ≠ d := fun h =>
      hlast (hruling ▸ lastRuling_filter_eq_default.mp h r hr)
    exact iff_of_true (Ruling.eq_of_ne hkept hlast) fun h => absurd h hlast

end Rule

/-! ### Loaded policies -/

theorem OperationPolicy.decide_eq_lastRuling (p : OperationPolicy) (caller : Identity)
    (argument : Argument) :
    p.decide caller argument =
      Rule.lastRuling p.default (p.rules.filter (·.accepts caller argument)) := by
  rw [decide, Rule.lastRuling, ← List.head?_reverse, ← List.filter_reverse, List.head?_filter]
  cases p.rules.reverse.find? (·.accepts caller argument) with
  | none => rfl
  | some rule => rfl

namespace Policy

variable {s : AccessSettings} {o : Operation}

theorem find?_put (p : Policy) (o' : Operation) (op : OperationPolicy) :
    (p.put o' op).find? o = if o' = o then some op else p.find? o := by
  rw [find?, put, List.find?_cons]
  by_cases h : o' = o
  · rw [if_pos h, h, beq_self_eq_true]
    rfl
  · rw [if_neg h, beq_eq_false_iff_ne.mpr h]
    rfl

theorem find?_load (s : AccessSettings) (registry : Option PluginLookup) (o : Operation) :
    (load s registry).find? o =
      (s.entries.reverse.find? fun e => Operation.ofName? e.1 == some o).map
        fun e => ofOperation registry o e.2 := by
  rw [load]
  induction s.entries using List.reverseRecOn with
  | nil => rfl
  | append_singleton es e ih =>
    obtain ⟨name, settings⟩ := e
    rw [List.foldl_append, List.foldl_cons, List.foldl_nil, List.reverse_append,
      List.reverse_singleton, List.singleton_append, List.find?_cons]
    cases hname : Operation.ofName? name with
    | none => simpa [hname] using ih
    | some o' =>
      by_cases ho : o' = o
      · subst ho
        simp [hname, find?_put]
      · simpa [hname, find?_put, ho, beq_eq_false_iff_ne.mpr ho] using ih

theorem decide_load_eq (s : AccessSettings) (registry : Option PluginLookup) (o : Operation)
    (caller : Identity) (argument : Argument) :
    (load s registry).decide o caller argument =
      (ofOperation registry o (settingsFor s o)).decide caller argument := by
  rw [Policy.decide, find?_load, settingsFor]
  cases s.entries.reverse.find? fun e => Operation.ofName? e.1 == some o with
  | none => rfl
  | some e => rfl

/-- If the default can be read, the last of the applying rules that do not repeat it decides. The
last of all applying rules decides as well, unless it repeats the default and another of them does
not. -/
theorem decide_load_of_readable {d : Ruling} (readable : defaultOf (settingsFor s o).default = some d)
    (caller : Identity) (argument : Argument) :
    let applying := (settingsFor s o).applying o caller argument
    (load s none).decide o caller argument =
        Rule.lastRuling d (applying.filter (·.ruling ≠ d)) ∧
      ((load s none).decide o caller argument = Rule.lastRuling d applying ↔
        (Rule.lastRuling d applying = d → ∀ r ∈ applying, r.ruling = d)) := by
  intro applying
  have hrules : ((settingsFor s o).rulesFor o).filter (keeps none (some d)) =
      ((settingsFor s o).rulesFor o).filter (·.ruling ≠ d) := by
    refine List.filter_congr fun r _ => ?_
    rw [keeps, Bool.and_true]
    by_cases h : r.ruling = d
    · simp [h]
    · simp [h, Ne.symm h]
  have hdecide : (load s none).decide o caller argument =
      Rule.lastRuling d (applying.filter (·.ruling ≠ d)) := by
    rw [decide_load_eq, OperationPolicy.decide_eq_lastRuling, ofOperation, readable]
    change Rule.lastRuling d ((((settingsFor s o).rulesFor o).filter (keeps none (some d))).filter
      (·.accepts caller argument)) = _
    rw [hrules, List.filter_filter, List.filter_congr fun r _ => Bool.and_comm _ _,
      ← List.filter_filter]
    rfl
  exact ⟨hdecide, by rw [hdecide, Rule.lastRuling_filter_eq_iff]⟩

/-! ### A rule that repeats the default -/

def backupSettings : AccessSettings :=
  ⟨[("file-read", ⟨some "ALLOW", ["DENY ALL /data/*", "ALLOW PLUGIN=Backup /data/*"]⟩)]⟩

def backup : Identity := .concrete ⟨"/plugins/p.jar", "Backup", "p.Main", "run"⟩

def other : Identity := .concrete ⟨"/plugins/q.jar", "Other", "q.Main", "run"⟩

def data : Argument := .path ⟨"/data/x"⟩

theorem decide_load_of_readable_other :
    defaultOf (settingsFor backupSettings .fileRead).default = some .allow ∧
      (load backupSettings none).decide .fileRead other data = .deny := by
  have readable : defaultOf (settingsFor backupSettings .fileRead).default = some .allow := by
    decide +kernel
  refine ⟨readable, ?_⟩
  rw [(decide_load_of_readable readable other data).1]
  decide +kernel

/-- The last rule that applies allows, and the decision is to deny. -/
theorem denied_though_allowed_last :
    defaultOf (settingsFor backupSettings .fileRead).default = some .allow ∧
      Rule.lastRuling .allow ((settingsFor backupSettings .fileRead).applying .fileRead backup data)
        = .allow ∧
      (load backupSettings none).decide .fileRead backup data = .deny := by
  decide +kernel

end Policy

end PluginGuard
