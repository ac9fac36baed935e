import PluginGuard.Proofs.Access.Decision
import PluginGuard.Proofs.Registry

/-!
# Whom a call is attributed to

A call comes from the innermost frame in a class that some plugin other than the host
owns, and the access check of such a call depends on the rules. What a frame has to bring
along is the names of its class and method: one without them is passed over, and the
call goes to the frames outside it, or to nobody.
-/
namespace PluginGuard

theorem CallSite.of_eq_ok_iff {file plugin className method : String} {site : CallSite} :
    of file plugin className method = .ok site ↔
      (file ≠ "" ∧ plugin ≠ "" ∧ className ≠ "" ∧ method ≠ "") ∧
        site = ⟨file, plugin, className, method⟩ := by
  unfold of
  split_ifs with hfile hplugin hclass hmethod
  case neg =>
    have htexts : file ≠ "" ∧ plugin ≠ "" ∧ className ≠ "" ∧ method ≠ "" := by simp_all
    rw [and_iff_right htexts, Except.ok.injEq]
    exact eq_comm
  -- Each of the others reports an empty text.
  all_goals simp_all

structure CallFrame.Named (f : CallFrame) : Prop where
  className : f.className ≠ ""
  method : f.method ≠ ""

structure CallFrame.Foreign (plugins : List Plugin) (host : Option String) (f : CallFrame)
    (p : Plugin) : Prop where
  owner : plugins.find? (·.owns f.className) = some p
  guest : host ≠ some p.displayName

structure Plugin.Named (p : Plugin) : Prop where
  displayName : p.displayName ≠ ""
  jar : p.jar.text ≠ ""

namespace CallerResolver

theorem site?_eq_some_iff {r : CallerResolver} {f : CallFrame} {site : CallSite} :
    r.site? f = some site ↔
      ∃ p, r.registry.byClass f.className = some p ∧ r.host ≠ some p.displayName ∧
        CallSite.of p.jar.text p.displayName f.className f.method = .ok site := by
  rw [site?]
  cases r.registry.byClass f.className with
  | none => simp [siteOf]
  | some p =>
    by_cases hhost : r.host = some p.displayName
    · simp [siteOf, hhost]
    · cases hsite : CallSite.of p.jar.text p.displayName f.className f.method <;>
        simp [siteOf, hhost, hsite, Except.toOption]

variable {plugins : List Plugin} {host : Option String} {f : CallFrame} {p : Plugin}
  {site : CallSite} {frames inner outer : List CallFrame}

def ofPlugins (plugins : List Plugin) (host : Option String) : CallerResolver :=
  ⟨Registry.ofList plugins, host⟩

theorem site?_ofPlugins (named : ∀ p ∈ plugins, p.Named) :
    (ofPlugins plugins host).site? f = some site ↔
      ∃ p, f.Foreign plugins host p ∧ f.Named ∧
        site = ⟨p.jar.text, p.displayName, f.className, f.method⟩ := by
  rw [site?_eq_some_iff, ofPlugins, Registry.indexed_ofList plugins]
  refine exists_congr fun p => ?_
  rw [CallSite.of_eq_ok_iff]
  constructor
  · rintro ⟨howner, hguest, ⟨-, -, hclass, hmethod⟩, hsite⟩
    exact ⟨⟨howner, hguest⟩, ⟨hclass, hmethod⟩, hsite⟩
  · rintro ⟨⟨howner, hguest⟩, ⟨hclass, hmethod⟩, hsite⟩
    obtain ⟨hname, hjar⟩ := named p (List.mem_of_find?_eq_some howner)
    exact ⟨howner, hguest, ⟨hjar, hname, hclass, hmethod⟩, hsite⟩

theorem site?_eq_none_iff (named : ∀ p ∈ plugins, p.Named) :
    (ofPlugins plugins host).site? f = none ↔ ∀ p, f.Foreign plugins host p → ¬ f.Named := by
  rw [Option.eq_none_iff_forall_ne_some]
  simp only [ne_eq, site?_ofPlugins named]
  constructor
  · intro h p hforeign hnamed
    exact h _ ⟨p, hforeign, hnamed, rfl⟩
  · rintro h _ ⟨p, hforeign, hnamed, -⟩
    exact h p hforeign hnamed

theorem caller?_eq_none_iff (named : ∀ p ∈ plugins, p.Named) :
    (ofPlugins plugins host).caller? frames = none ↔
      ∀ f ∈ frames, ∀ p, f.Foreign plugins host p → ¬ f.Named := by
  simp only [caller?_eq_findSome?, List.findSome?_eq_none_iff, site?_eq_none_iff named]

theorem caller?_append (named : ∀ p ∈ plugins, p.Named)
    (skipped : ∀ g ∈ inner, ∀ q, ¬ g.Foreign plugins host q) (f : CallFrame)
    (outer : List CallFrame) :
    (ofPlugins plugins host).caller? (inner ++ f :: outer) =
      ((ofPlugins plugins host).site? f).or ((ofPlugins plugins host).caller? outer) := by
  have hinner : inner.findSome? (ofPlugins plugins host).site? = none := by
    rw [List.findSome?_eq_none_iff]
    intro g hg
    exact (site?_eq_none_iff named).mpr fun q hq => absurd hq (skipped g hg q)
  simp only [caller?_eq_findSome?, List.findSome?_append, hinner, Option.none_or,
    List.findSome?_cons]
  cases (ofPlugins plugins host).site? f <;> rfl

/-- Nobody is blamed exactly if no frame in another plugin's class has both its names. The innermost
frame in such a class is blamed if it has them, and passed over if not. Once one frame on the stack
has them, what the check answers depends on the guard's storage and the rules. -/
theorem attributed_of_frames (named : ∀ p ∈ plugins, p.Named) (host : Option String) :
    (∀ frames, (ofPlugins plugins host).caller? frames = none ↔
      ∀ f ∈ frames, ∀ p, f.Foreign plugins host p → ¬ f.Named) ∧
    (∀ inner f p outer, (∀ g ∈ inner, ∀ q, ¬ g.Foreign plugins host q) →
      f.Foreign plugins host p →
        (f.Named → (ofPlugins plugins host).caller? (inner ++ f :: outer) =
          some ⟨p.jar.text, p.displayName, f.className, f.method⟩) ∧
        (¬ f.Named → (ofPlugins plugins host).caller? (inner ++ f :: outer) =
          (ofPlugins plugins host).caller? outer)) ∧
    ∀ g : Guard, g.resolver = ofPlugins plugins host → ∀ frames, ∀ f ∈ frames, ∀ p,
      f.Foreign plugins host p → f.Named →
        ∃ site, (ofPlugins plugins host).caller? frames = some site ∧
          ∀ o a t, t.inCheck = false →
            ((g.check o a frames).run t = (.ok (), t) ↔
              ¬ g.Defends o a ∧ g.policy.verdict o site a = .allow) := by
  refine ⟨fun frames => caller?_eq_none_iff named, fun inner f p outer hinner hforeign => ?_,
    fun g hresolver frames f hf p hforeign hnamed => ?_⟩
  · rw [caller?_append named hinner]
    constructor
    · intro hnamed
      rw [(site?_ofPlugins named).mpr ⟨p, hforeign, hnamed, rfl⟩, Option.some_or]
    · intro hnamed
      rw [(site?_eq_none_iff named).mpr fun _ _ => hnamed, Option.none_or]
  · cases hcaller : (ofPlugins plugins host).caller? frames with
    | none => exact absurd hnamed ((caller?_eq_none_iff named).mp hcaller f hf p hforeign)
    | some site =>
      refine ⟨site, rfl, fun o a t outside => ?_⟩
      rw [g.run_check_outside o a outside, hresolver, hcaller, Prod.mk.injEq, and_iff_left rfl,
        g.decide_eq_ok_iff]
      simp

/-! ### A frame without a method -/

def cleaner : Plugin := ⟨⟨"/plugins/c.jar"⟩, "Cleaner", ["c.Main"], ""⟩

def hostAndCleaner : List Plugin := [⟨⟨"/plugins/h.jar"⟩, "Host", ["h.Bridge"], ""⟩, cleaner]

theorem attributed_of_frames_cleaner :
    (∀ p ∈ hostAndCleaner, p.Named) ∧
      (ofPlugins hostAndCleaner (some "Host")).caller? Guard.cleanerFrames =
        some ⟨"/plugins/c.jar", "Cleaner", "c.Main", "run"⟩ := by
  have named : ∀ p ∈ hostAndCleaner, p.Named := by
    intro p hp
    rcases List.mem_cons.mp hp with rfl | hp
    · exact ⟨by decide, by decide⟩
    · obtain rfl := List.mem_singleton.mp hp
      exact ⟨by decide, by decide⟩
  refine ⟨named, ((attributed_of_frames named (some "Host")).2.1
    [⟨"java.io.File", "delete"⟩, ⟨"h.Bridge", "forward"⟩] ⟨"c.Main", "run"⟩ cleaner [] ?_
    ⟨by decide, by decide⟩).1 ⟨by decide, by decide⟩⟩
  rintro g hg q ⟨howner, hguest⟩
  rcases List.mem_cons.mp hg with rfl | hg
  · cases howner
  · obtain rfl := List.mem_singleton.mp hg
    obtain rfl := Option.some.inj howner
    exact hguest rfl

/-- Nobody is blamed for a call from a method without a name, not even for one that reaches into
the guard's own storage. -/
theorem unnamed_frame_not_attributed :
    CallFrame.Foreign hostAndCleaner (some "Host") ⟨"c.Main", ""⟩ cleaner ∧
      (ofPlugins hostAndCleaner (some "Host")).caller? [⟨"c.Main", ""⟩] = none ∧
      (Guard.cleaners.check .fileDelete (.path ⟨"/w/c"⟩) [⟨"c.Main", ""⟩]).run .fresh =
        (.ok (), .fresh) := by
  refine ⟨⟨by decide, by decide⟩, by decide, ?_⟩
  rw [Guard.run_check_outside _ _ _ rfl]
  exact congrArg (·, Thread.fresh) (by decide)

end CallerResolver

end PluginGuard
