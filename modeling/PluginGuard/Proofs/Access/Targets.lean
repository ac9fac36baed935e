import PluginGuard.Proofs.Access.Attribution
import PluginGuard.Proofs.Access.LastMatch

/-!
# Rules without a target

A rule about plugins or classes that no registered plugin has is left out when a
policy is loaded with the registry. Callers are found through the same registry,
so none of them is one that such a rule is about, and every check answers as if
the rule were there.
-/
namespace PluginGuard

namespace CallerResolver

variable {r : CallerResolver} {site : CallSite}

theorem exists_plugin_of_caller? (indexed : r.registry.Indexed) {frames : List CallFrame}
    (h : r.caller? frames = some site) :
    ∃ p ∈ r.registry.plugins, site.plugin = p.displayName ∧ site.className ∈ p.classNames := by
  rw [caller?_eq_findSome?] at h
  obtain ⟨f, -, hf⟩ := List.exists_of_findSome?_eq_some h
  obtain ⟨p, howner, -, hsite⟩ := site?_eq_some_iff.mp hf
  obtain ⟨-, rfl⟩ := CallSite.of_eq_ok_iff.mp hsite
  rw [indexed] at howner
  have howns : p.owns f.className = true := by simpa using List.find?_some howner
  exact ⟨p, List.mem_of_find?_eq_some howner, rfl, List.contains_iff_mem.mp howns⟩

end CallerResolver

namespace Policy

theorem hasTarget_of_means {r : PluginLookup} {p : Plugin} (registered : p ∈ r.plugins)
    {site : CallSite} (hname : site.plugin = p.displayName)
    (hclass : site.className ∈ p.classNames) {s : Subject} (h : s.Means site) :
    hasTarget r s = true := by
  cases s with
  | all => rfl
  | plugin name =>
    have hany : (r.plugins.any fun p => Text.Wildcard.covers name p.displayName) = true :=
      List.any_eq_true.mpr ⟨p, registered, hname ▸ h⟩
    rw [hasTarget, hany, Bool.or_true]
  | source className method =>
    have hany : (r.plugins.any fun p =>
        p.classNames.any fun c => Text.Wildcard.covers className c) = true :=
      List.any_eq_true.mpr ⟨p, registered, List.any_eq_true.mpr ⟨site.className, hclass, h.1⟩⟩
    rw [hasTarget, hany, Bool.or_true]

theorem verdict_ofOperation {r : PluginLookup} {site : CallSite}
    (targets : ∀ s : Subject, s.Means site → hasTarget r s = true) (o : Operation)
    (s : OperationSettings) (a : Argument) :
    (ofOperation (some r) o s).verdict site a = (ofOperation none o s).verdict site a := by
  have hkeeps : keeps (some r) (defaultOf s.default) =
      fun rule => hasTarget r rule.subject && keeps none (defaultOf s.default) rule := by
    funext rule
    rw [keeps, keeps, Bool.and_true, Bool.and_comm]
  simp only [OperationPolicy.verdict, ofOperation, hkeeps, ← List.filter_filter]
  rw [List.foldl_filter]
  congr 1
  funext said rule
  by_cases happlies : rule.Applies site a
  · rw [if_pos (targets rule.subject happlies.1)]
  · rw [if_neg happlies, ite_self]

theorem decide_load_of_targets {r : PluginLookup} {site : CallSite}
    (targets : ∀ s : Subject, s.Means site → hasTarget r s = true) (s : AccessSettings)
    (o : Operation) (a : Argument) :
    (load s (some r)).decide o (.concrete site) a = (load s none).decide o (.concrete site) a := by
  rw [decide_load_eq, decide_load_eq, OperationPolicy.decide_eq_verdict,
    OperationPolicy.decide_eq_verdict, verdict_ofOperation targets]

end Policy

namespace Guard

def ofSettings (s : AccessSettings) (known : Option PluginLookup) (w : Workspace)
    (callers : CallerResolver) (selfDefense : Bool) : Guard :=
  ⟨.load s known, w, callers, selfDefense⟩

variable (s : AccessSettings) (w : Workspace) (selfDefense : Bool) (o : Operation) (a : Argument)
  (frames : List CallFrame)

theorem check_ofSettings {callers : CallerResolver} (indexed : callers.registry.Indexed) :
    (ofSettings s (some callers.registry) w callers selfDefense).check o a frames =
      (ofSettings s none w callers selfDefense).check o a frames := by
  refine check_of_policies (fun site hsite => ?_) w selfDefense
  obtain ⟨p, registered, hname, hclass⟩ := CallerResolver.exists_plugin_of_caller? indexed hsite
  exact Policy.decide_load_of_targets
    (fun _ => Policy.hasTarget_of_means registered hname hclass) s o a

/-- A policy that is loaded with the registry through which callers are found, of any plugins or
of any index of archives, gives the same checks as one that is loaded without. -/
theorem check_of_registry (host : Option String) :
    (∀ plugins, let callers : CallerResolver := ⟨Registry.ofList plugins, host⟩
      (ofSettings s (some callers.registry) w callers selfDefense).check o a frames =
        (ofSettings s none w callers selfDefense).check o a frames) ∧
    ∀ directory archives,
      let callers : CallerResolver := ⟨PluginIndex.ofArchives directory archives, host⟩
      (ofSettings s (some callers.registry) w callers selfDefense).check o a frames =
        (ofSettings s none w callers selfDefense).check o a frames := by
  constructor
  · intro plugins callers
    exact check_ofSettings s w selfDefense o a frames (Registry.indexed_ofList plugins)
  · intro directory archives callers
    exact check_ofSettings s w selfDefense o a frames (PluginIndex.indexed_ofArchives _ _)

end Guard

end PluginGuard
