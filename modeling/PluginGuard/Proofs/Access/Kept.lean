import PluginGuard.Proofs.Access.LastMatch

/-!
# Rules that loading keeps

Several names in the settings can stand for one operation. What is configured under
the last of them replaces what the others gave, so a rule is kept exactly if the last
name gives it.
-/
namespace PluginGuard

/-- A line gives the rule, and the default does not say the same. -/
def OperationSettings.Gives (s : OperationSettings) (o : Operation) (rule : Rule) : Prop :=
  (∃ line ∈ s.rules, Rule.parse o line = .ok rule) ∧
    Policy.defaultOf s.default ≠ some rule.ruling

def Policy.Holds (p : Policy) (o : Operation) (rule : Rule) : Prop :=
  ∃ op, p.find? o = some op ∧ rule ∈ op.rules

theorem OperationSettings.mem_rulesFor {s : OperationSettings} {o : Operation} {rule : Rule} :
    rule ∈ s.rulesFor o ↔ ∃ line ∈ s.rules, Rule.parse o line = .ok rule := by
  rw [rulesFor, List.mem_filterMap]
  refine exists_congr fun line => and_congr_right fun _ => ?_
  cases Rule.parse o line <;> simp [Except.toOption]

namespace Policy

variable {s : AccessSettings} {o : Operation} {rule : Rule}

theorem mem_rules_ofOperation {st : OperationSettings} :
    rule ∈ (ofOperation none o st).rules ↔ st.Gives o rule := by
  have hkeeps : keeps none (defaultOf st.default) rule = true ↔
      defaultOf st.default ≠ some rule.ruling := by
    rw [keeps, Bool.and_true, bne_iff_ne]
  rw [ofOperation, List.mem_filter, hkeeps]
  exact and_congr_left' OperationSettings.mem_rulesFor

theorem holds_load_of_last {before after : List (String × OperationSettings)} {name : String}
    {st : OperationSettings} (listed : s.entries = before ++ (name, st) :: after)
    (named : Operation.ofName? name = some o)
    (last : ∀ e ∈ after, Operation.ofName? e.1 ≠ some o) :
    (load s none).Holds o rule ↔ st.Gives o rule := by
  have hafter : after.reverse.find? (fun e => Operation.ofName? e.1 == some o) = none := by
    rw [List.find?_eq_none]
    intro e he
    simpa using last e (List.mem_reverse.mp he)
  have hfound : (load s none).find? o = some (ofOperation none o st) := by
    rw [find?_load, listed, List.reverse_append, List.reverse_cons, List.append_assoc,
      List.find?_append, hafter, List.singleton_append, List.find?_cons, named, beq_self_eq_true]
    rfl
  rw [Holds, hfound, ← mem_rules_ofOperation]
  simp

/-- A rule that a line under one of the names gives is held if no later name stands for the same
operation. Otherwise it is held exactly if the last of these names gives it too. -/
theorem holds_load_of_gives {before after : List (String × OperationSettings)} {name : String}
    {st : OperationSettings} (listed : s.entries = before ++ (name, st) :: after)
    (named : Operation.ofName? name = some o) {line : String} (configured : line ∈ st.rules)
    (parsed : Rule.parse o line = .ok rule) (differs : defaultOf st.default ≠ some rule.ruling) :
    ((∀ e ∈ after, Operation.ofName? e.1 ≠ some o) → (load s none).Holds o rule) ∧
    ∀ between later settings rest, after = between ++ (later, settings) :: rest →
      Operation.ofName? later = some o → (∀ e ∈ rest, Operation.ofName? e.1 ≠ some o) →
        ((load s none).Holds o rule ↔ settings.Gives o rule) := by
  constructor
  · intro hlast
    exact (holds_load_of_last listed named hlast).mpr ⟨⟨line, configured, parsed⟩, differs⟩
  · intro between later settings rest hafter hlater hlast
    have hlisted : s.entries = (before ++ (name, st) :: between) ++ (later, settings) :: rest := by
      rw [listed, hafter, List.append_assoc, List.cons_append]
    exact holds_load_of_last hlisted hlater hlast

/-! ### Two spellings of one operation -/

def secretsSettings : OperationSettings := ⟨none, ["DENY ALL /secret/*"]⟩

def keysSettings : OperationSettings := ⟨none, ["DENY ALL /keys/*"]⟩

def spelledTwice : AccessSettings :=
  ⟨[("FILE_READ", secretsSettings), ("file-read", keysSettings)]⟩

theorem entries_spelledTwice :
    spelledTwice.entries = [("FILE_READ", secretsSettings)] ++ ("file-read", keysSettings) :: [] :=
  rfl

def secretsRule : Rule := ⟨.deny, .all, .text (.wildcard "/secret/*"), "DENY ALL /secret/*"⟩

def keysRule : Rule := ⟨.deny, .all, .text (.wildcard "/keys/*"), "DENY ALL /keys/*"⟩

theorem parse_keys : Rule.parse .fileRead "DENY ALL /keys/*" = .ok keysRule := by decide

theorem holds_load_of_gives_keys :
    Operation.ofName? "file-read" = some .fileRead ∧
      Rule.parse .fileRead "DENY ALL /keys/*" = .ok keysRule ∧
      defaultOf keysSettings.default ≠ some keysRule.ruling ∧
      (load spelledTwice none).Holds .fileRead keysRule := by
  have hname : Operation.ofName? "file-read" = some .fileRead := by decide
  have hdiffers : defaultOf keysSettings.default ≠ some keysRule.ruling := by decide
  exact ⟨hname, parse_keys, hdiffers,
    (holds_load_of_gives entries_spelledTwice hname List.mem_cons_self parse_keys hdiffers).1
      (by simp)⟩

/-- What the first spelling denies to all is not held, and allowed. -/
theorem secrets_given_not_held :
    ("FILE_READ", secretsSettings) ∈ spelledTwice.entries ∧
      Operation.ofName? "FILE_READ" = some .fileRead ∧
      secretsSettings.Gives .fileRead secretsRule ∧
      ¬ (load spelledTwice none).Holds .fileRead secretsRule ∧
      (load spelledTwice none).decide .fileRead other (.path ⟨"/secret/x"⟩) = .allow := by
  have hgives : secretsSettings.Gives .fileRead secretsRule :=
    ⟨⟨_, List.mem_cons_self, by decide⟩, by decide⟩
  refine ⟨List.mem_cons_self, by decide, hgives, fun hheld => ?_, by decide +kernel⟩
  obtain ⟨⟨line, hline, hparse⟩, -⟩ :=
    (holds_load_of_last entries_spelledTwice (by decide) (by simp)).mp hheld
  obtain rfl := List.mem_singleton.mp hline
  exact absurd (Except.ok.inj (parse_keys.symm.trans hparse)) (by decide)

end Policy

end PluginGuard
