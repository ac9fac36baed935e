import PluginGuard.Cli.Check
import PluginGuard.Proofs.Access.Attribution

/-!
# Whom a question is about

A question that names a plugin is asked through a class: the one that it names, which has to be
the plugin's, or else the first of the plugin's classes. Callers are found by the owner of the
class, and a plugin need not own what it ships. Where another plugin was registered with the class
before it, the question is about that one.
-/
namespace PluginGuard.Check

open CallerResolver (ofPlugins)

/-- The class through which a question about a plugin is asked, by the class that it names. -/
inductive AsksThrough (plugins : List Plugin) (plugin : String) : Option String → String → Prop
  | named {className : String} {owner : Plugin} (owns : plugins.find? (·.owns className) = some owner)
      (own : owner.displayName = plugin) : AsksThrough plugins plugin (some className) className
  | first {className : String} {others : List String} {p : Plugin}
      (known : plugins.find? (·.displayName == plugin) = some p)
      (ships : p.classNames = className :: others) : AsksThrough plugins plugin none className

variable {plugins : List Plugin} {plugin className : String} {given : Option String}
  {q : Question} {r : PluginLookup} {base : Path} {p : Prepared}

theorem prepare_eq_ok (h : prepare q r base = .ok p) :
    ∃ found, callerClass r q.plugin q.className = .ok found ∧
      p.frames = (found.map fun c => ⟨c, q.method.getD unknownMethod⟩).toList := by
  unfold prepare at h
  cases hoperation : Operation.ofName? q.operation with
  | none => simp [hoperation] at h
  | some o =>
    cases hargument : Argument.parse o q.argument base with
    | error e => simp [hoperation, hargument, Except.mapError, bind, Except.bind] at h
    | ok a =>
      cases hclass : callerClass r q.plugin q.className with
      | error e => simp [hoperation, hargument, hclass, Except.mapError, bind, Except.bind] at h
      | ok found =>
        refine ⟨found, rfl, ?_⟩
        simp only [hoperation, hargument, hclass, Except.mapError, bind, Except.bind, pure,
          Except.pure, Except.ok.injEq] at h
        rw [← h]

theorem callerClass_eq_ok {found : Option String}
    (h : callerClass (Registry.ofList plugins) (some plugin) given = .ok found) :
    ∃ className, found = some className ∧ AsksThrough plugins plugin given className := by
  cases given with
  | some className =>
    simp only [callerClass, Registry.indexed_ofList plugins className] at h
    split_ifs at h with hown
    obtain ⟨owner, howner, hname⟩ := Option.map_eq_some_iff.mp (beq_iff_eq.mp hown)
    exact ⟨className, (Except.ok.inj h).symm, .named howner hname⟩
  | none =>
    simp only [callerClass, Registry.byName_lookup] at h
    cases hknown : plugins.find? (·.displayName == plugin) with
    | none => simp [hknown] at h
    | some p =>
      cases hships : p.classNames with
      | nil => simp [hknown, hships] at h
      | cons className others =>
        simp only [hknown, hships, Except.ok.injEq] at h
        exact ⟨className, h.symm, .first hknown hships⟩

theorem AsksThrough.exists_owner (h : AsksThrough plugins plugin given className) :
    ∃ owner, plugins.find? (·.owns className) = some owner := by
  cases h with
  | named owns => exact ⟨_, owns⟩
  | @first _ others p known ships =>
    refine Option.isSome_iff_exists.mp (List.find?_isSome.mpr ⟨p, List.mem_of_find?_eq_some known, ?_⟩)
    rw [Plugin.owns, ships, List.contains_cons, beq_self_eq_true, Bool.true_or]

theorem caller?_singleton_eq_some_iff {host : Option String} {owner : Plugin} {method : String}
    {site : CallSite} (howner : plugins.find? (·.owns className) = some owner) :
    (ofPlugins plugins host).caller? [⟨className, method⟩] = some site ↔
      host ≠ some owner.displayName ∧
        (owner.jar.text ≠ "" ∧ owner.displayName ≠ "" ∧ className ≠ "" ∧ method ≠ "") ∧
          site = ⟨owner.jar.text, owner.displayName, className, method⟩ := by
  rw [CallerResolver.caller?_eq_findSome?, List.findSome?_singleton,
    CallerResolver.site?_eq_some_iff, ofPlugins, Registry.indexed_ofList plugins, Registry.plugins_lookup, howner]
  simp only [Option.some.injEq, exists_eq_left', CallSite.of_eq_ok_iff]

/-- A question about a plugin is asked through one class, and it is about the owner of that class,
or about nobody where the owner is the host. So it is about the plugin exactly if the owner has the
plugin's name, which is certain where the class was named, and neither of them lacks a text. -/
theorem caller_of_prepare (asked : q.plugin = some plugin)
    (prepared : prepare q (Registry.ofList plugins) base = .ok p) :
    ∃ className owner, AsksThrough plugins plugin q.className className ∧
      p.frames = [⟨className, q.method.getD unknownMethod⟩] ∧
      plugins.find? (·.owns className) = some owner ∧
      ∀ host, host ≠ some plugin → q.method ≠ some "" →
        ((∃ site, (ofPlugins plugins host).caller? p.frames = some site ∧ site.plugin = plugin) ↔
          owner.displayName = plugin ∧ plugin ≠ "" ∧ owner.jar.text ≠ "" ∧ className ≠ "") ∧
        (∀ site, (ofPlugins plugins host).caller? p.frames = some site →
          site.plugin = owner.displayName) ∧
        (host = some owner.displayName → (ofPlugins plugins host).caller? p.frames = none) := by
  obtain ⟨found, hfound, hframes⟩ := prepare_eq_ok prepared
  rw [asked] at hfound
  obtain ⟨className, rfl, hasks⟩ := callerClass_eq_ok hfound
  obtain ⟨owner, howner⟩ := hasks.exists_owner
  refine ⟨className, owner, hasks, hframes, howner, fun host hguest hmethod => ?_⟩
  have hnamed : q.method.getD unknownMethod ≠ "" := by
    cases hm : q.method with
    | none => decide
    | some m => exact fun h => hmethod (hm.trans (congrArg some h))
  rw [hframes, Option.map_some, Option.toList_some]
  simp only [caller?_singleton_eq_some_iff howner]
  refine ⟨?_, ?_, fun hhost => ?_⟩
  · constructor
    · rintro ⟨site, ⟨-, ⟨hjar, hname, hclass, -⟩, rfl⟩, rfl⟩
      exact ⟨rfl, hname, hjar, hclass⟩
    · rintro ⟨rfl, hname, hjar, hclass⟩
      exact ⟨_, ⟨hguest, ⟨hjar, hname, hclass, hnamed⟩, rfl⟩, rfl⟩
  · rintro site ⟨-, -, rfl⟩
    rfl
  · rw [Option.eq_none_iff_forall_ne_some]
    intro site hsite
    exact ((caller?_singleton_eq_some_iff howner).mp hsite).1 hhost

/-! ### Two plugins with one library -/

def librarians : List Plugin :=
  [⟨⟨"/plugins/e.jar"⟩, "Evil", ["a.Library"], ""⟩,
    ⟨⟨"/plugins/g.jar"⟩, "Good", ["a.Library", "good.Main"], ""⟩]

def aboutGood (className : Option String) : Question := ⟨"misc", some "Good", className, none, "x"⟩

theorem caller_of_prepare_named :
    let p : Prepared := ⟨.misc, .text "x", [⟨"good.Main", unknownMethod⟩]⟩
    prepare (aboutGood (some "good.Main")) (Registry.ofList librarians) ⟨"/"⟩ = .ok p ∧
      ∃ site, (ofPlugins librarians none).caller? p.frames = some site ∧ site.plugin = "Good" := by
  intro p
  have prepared : prepare (aboutGood (some "good.Main")) (Registry.ofList librarians) ⟨"/"⟩ = .ok p := rfl
  obtain ⟨className, owner, hasks, -, howner, hcaller⟩ := caller_of_prepare rfl prepared
  cases hasks with
  | named owns own =>
    obtain rfl := Option.some.inj (howner.symm.trans owns)
    have hjar : owner.jar.text ≠ "" := by
      cases owns
      decide
    exact ⟨prepared, (hcaller none nofun nofun).1.mpr ⟨own, by decide, hjar, by decide⟩⟩

/-- Where no class is named, a question about the second plugin is about the first. -/
theorem question_about_other :
    prepare (aboutGood none) (Registry.ofList librarians) ⟨"/"⟩ =
        .ok ⟨.misc, .text "x", [⟨"a.Library", unknownMethod⟩]⟩ ∧
      (ofPlugins librarians none).caller? [⟨"a.Library", unknownMethod⟩] =
        some ⟨"/plugins/e.jar", "Evil", "a.Library", unknownMethod⟩ :=
  ⟨rfl, by decide⟩

end PluginGuard.Check
