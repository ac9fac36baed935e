import PluginGuard.Proofs.Access.Spelling
import PluginGuard.Proofs.Config.Reported

/-!
# The directory of the plugins and the guard's own

A report compares the two directories as they are written, and self-defense compares the locations
that they lead to. As long as neither is written with a way up these are the same, so settings
without an error there leave plugins their files, unless the guard's directory lies among them.
-/
namespace PluginGuard

namespace Path

/-! ### Below a directory -/

def LiesIn (p base : Path) : Prop := base.names <+: p.names

instance (p base : Path) : Decidable (p.LiesIn base) :=
  inferInstanceAs (Decidable (base.names <+: p.names))

def Straight (p : Path) : Prop := .parent ∉ p.components

instance (p : Path) : Decidable p.Straight := inferInstanceAs (Decidable (_ ∉ _))

variable {p base : Path}

theorem exists_names_of_straight {pieces : List (List Char)}
    (h : .parent ∉ pieces.flatMap ofPiece) :
    ∃ ms, pieces.flatMap ofPiece = ms.map .name ∧ ∀ ns, pieces.foldl enter ns = ns ++ ms := by
  induction pieces with
  | nil => exact ⟨[], rfl, fun ns => (List.append_nil ns).symm⟩
  | cons piece pieces ih =>
    rw [List.flatMap_cons, List.mem_append, not_or] at h
    obtain ⟨hpiece, hpieces⟩ := h
    obtain ⟨ms, hms, hfold⟩ := ih hpieces
    rw [List.flatMap_cons, hms]
    unfold ofPiece at hpiece ⊢
    split at hpiece
    · exact ⟨ms, rfl, fun ns => by rw [List.foldl_cons, enter_nil, hfold]⟩
    · exact ⟨ms, rfl, fun ns => by simp [enter, hfold]⟩
    · simp at hpiece
    · next hempty hdot hdots =>
      refine ⟨String.ofList piece :: ms, rfl, fun ns => ?_⟩
      rw [List.foldl_cons, enter, if_neg (by simp_all), if_neg hdots, hfold, List.append_assoc]
      rfl

theorem components_of_straight (absolute : p.isAbsolute = true) (straight : p.Straight) :
    p.components = .root :: p.names.map .name := by
  obtain ⟨cs, hcs⟩ := isAbsolute_iff.mp absolute
  have hcomponents : p.components = .root :: (p.text.toList.splitOn '/').flatMap ofPiece := by
    rw [components, Text.pieces_slash]
    rw [show start p.text.toList = [.root] by rw [hcs]; rfl]
    rfl
  rw [Straight, hcomponents, List.mem_cons, not_or] at straight
  obtain ⟨ms, hms, hfold⟩ := exists_names_of_straight straight.2
  rw [hcomponents, hms, names, follow, hfold, List.nil_append]

theorem name_injective : Function.Injective Component.name := fun _ _ => Component.name.inj

theorem startsWith_iff_of_straight (absolute : p.isAbsolute = true)
    (rooted : base.isAbsolute = true) (straight : p.Straight) (direct : base.Straight) :
    p.startsWith base = true ↔ p.LiesIn base := by
  rw [startsWith, List.isPrefixOf_iff_prefix, components_of_straight absolute straight,
    components_of_straight rooted direct, List.cons_prefix_cons, and_iff_right rfl,
    List.prefix_map_iff_of_injective name_injective, LiesIn]

end Path

/-! ### What self-defense leaves to the policy -/

theorem Guard.defends_iff_liesIn (g : Guard) {o : Operation} {p : Path}
    (rooted : g.workspace.directory.isAbsolute = true) (absolute : p.isAbsolute = true) :
    g.Defends o (.path p) ↔ g.selfDefense = true ∧ (o = .fileWrite ∨ o = .fileDelete) ∧
      p.LiesIn g.workspace.directory := by
  simp only [Defends, Argument.path.injEq, exists_eq_left', Path.components_normalize absolute,
    Path.components_normalize rooted, List.cons_prefix_cons, true_and,
    List.prefix_map_iff_of_injective Path.name_injective, Path.LiesIn]

namespace Workspace

/-- No change of the location is denied for the guard's sake, whoever makes it under whatever
rules. -/
def Spares (w : Workspace) (p : Path) : Prop :=
  ∀ (g : Guard) (o : Operation) (frames : List CallFrame), g.workspace = w →
    o = .fileWrite ∨ o = .fileDelete →
      g.check o (.path p) frames = Guard.check { g with selfDefense := false } o (.path p) frames

variable {w : Workspace} {p : Path}

def ruleless (w : Workspace) : Guard := { Guard.cleaners with policy := .empty, workspace := w }

theorem caller?_ruleless (w : Workspace) : w.ruleless.resolver.caller? Guard.cleanerFrames =
    some ⟨"/plugins/c.jar", "Cleaner", "c.Main", "run"⟩ := by
  change Guard.cleaners.resolver.caller? Guard.cleanerFrames = _
  decide

theorem denied_of_liesIn (rooted : w.directory.isAbsolute = true) (absolute : p.isAbsolute = true)
    (inside : p.LiesIn w.directory) :
    ∃ site, (w.ruleless.check .fileDelete (.path p) Guard.cleanerFrames).run .fresh =
      (.error ⟨.fileDelete, site, .path p⟩, .fresh) := by
  have hdefends : w.ruleless.Defends .fileDelete (.path p) :=
    (w.ruleless.defends_iff_liesIn rooted absolute).mpr ⟨rfl, .inr rfl, inside⟩
  obtain ⟨site, hsite⟩ : ∃ site, w.ruleless.resolver.caller? Guard.cleanerFrames = some site :=
    ⟨_, caller?_ruleless w⟩
  refine ⟨site, ?_⟩
  rw [Guard.run_check_outside _ _ _ rfl, Prod.mk.injEq, and_iff_left rfl,
    Guard.decide_eq_error_iff]
  exact ⟨site, hsite, .inl hdefends, rfl⟩

theorem allowed_without_defense :
    (Guard.check { w.ruleless with selfDefense := false } .fileDelete (.path p)
      Guard.cleanerFrames).run .fresh = (.ok (), .fresh) := by
  rw [Guard.run_check_outside _ _ _ rfl, Prod.mk.injEq, and_iff_left rfl, Guard.decide_eq_ok_iff]
  intro site _
  refine ⟨?_, rfl⟩
  rintro ⟨hdefending, -⟩
  cases hdefending

theorem spares_iff (rooted : w.directory.isAbsolute = true) (absolute : p.isAbsolute = true) :
    w.Spares p ↔ ¬p.LiesIn w.directory := by
  constructor
  · intro spares inside
    obtain ⟨site, hdenied⟩ := denied_of_liesIn rooted absolute inside
    have hallowed := allowed_without_defense (w := w) (p := p)
    rw [← spares w.ruleless .fileDelete _ rfl (.inr rfl), hdenied] at hallowed
    cases hallowed
  · rintro outside g o frames rfl -
    refine Guard.check_of_not_defends (fun h => outside ?_) frames
    exact ((g.defends_iff_liesIn rooted absolute).mp h).2.2

end Workspace

/-! ### Settings without an error -/

namespace Settings

variable {s : Settings} {dir working plugins : Path}

theorem isAbsolute_workingDir (absolute : dir.isAbsolute = true)
    (hworking : (s.withDefaults dir).global.workingDir = some working) :
    working.isAbsolute = true := by
  obtain rfl := Option.some.inj hworking
  split
  · next d hd =>
    split
    · assumption
    · next hrelative => exact Path.isAbsolute_join absolute (Bool.eq_false_iff.mpr hrelative)
  · exact Path.isAbsolute_join absolute rfl

/-- Settings without an error at the plugin directory leave all changes in it to the policy, but
for those in a guard's directory that lies below it, exactly if the plugin directory does not lead
into the guard's; and it does not if neither is written with a way up. -/
theorem spares_plugins_iff (absolute : dir.isAbsolute = true)
    (hworking : (s.withDefaults dir).global.workingDir = some working)
    (hplugins : (s.withDefaults dir).global.pluginsDir = some plugins)
    (rooted : plugins.isAbsolute = true)
    (sound : ¬(s.withDefaults dir).validate.Rejects "config.pluginsDir") :
    ((∀ p : Path, p.isAbsolute = true → p.LiesIn plugins →
        (working.LiesIn plugins ∧ working.names ≠ plugins.names ∧ p.LiesIn working) ∨
          (Workspace.mk working).Spares p) ↔
      ¬plugins.LiesIn working) ∧
    (working.Straight → plugins.Straight → ¬plugins.LiesIn working) := by
  have hrooted : working.isAbsolute = true := isAbsolute_workingDir absolute hworking
  refine ⟨⟨fun h nested => ?_, fun apart p hp inside => ?_⟩, fun straight direct nested => ?_⟩
  · obtain ⟨hbelow, hne, -⟩ | spares := h plugins rooted List.prefix_rfl
    · exact hne (nested.eq_of_length_le hbelow.length_le)
    · exact (Workspace.spares_iff hrooted rooted).mp spares nested
  · rw [Workspace.spares_iff hrooted hp, or_iff_not_imp_right, Classical.not_not]
    intro denied
    obtain hnested | hbelow := List.prefix_or_prefix_of_prefix denied inside
    · exact absurd hnested apart
    · exact ⟨hbelow, fun hsame => apart ⟨[], by rw [List.append_nil, hsame]⟩, denied⟩
  · refine sound (rejects_pluginsDir_iff.mpr ⟨working, plugins, hworking, hplugins, ?_⟩)
    exact (Path.startsWith_iff_of_straight rooted hrooted direct straight).mpr nested

/-- The guard's directory lies among the plugins, and what begins like it is spared. -/
theorem spares_plugins_iff_among :
    let s := { unset with global := { GlobalSettings.unset with
      workingDir := some ⟨"w/./data/"⟩, pluginsDir := some ⟨"/srv//./"⟩ } }
    let working : Path := ⟨"/srv/w/./data/"⟩
    (s.withDefaults ⟨"/srv/"⟩).global.workingDir = some working ∧
      (s.withDefaults ⟨"/srv/"⟩).global.pluginsDir = some ⟨"/srv//./"⟩ ∧
      ¬(s.withDefaults ⟨"/srv/"⟩).validate.Rejects "config.pluginsDir" ∧
      (Workspace.mk working).Spares ⟨"/srv/w/data2/x"⟩ := by
  intro s working
  have hworking : (s.withDefaults ⟨"/srv/"⟩).global.workingDir = some working := by decide
  have hplugins : (s.withDefaults ⟨"/srv/"⟩).global.pluginsDir = some ⟨"/srv//./"⟩ := rfl
  have sound : ¬(s.withDefaults ⟨"/srv/"⟩).validate.Rejects "config.pluginsDir" := by
    rw [rejects_pluginsDir_iff]
    rintro ⟨w, q, hw, hq, inside⟩
    obtain rfl := Option.some.inj (hworking.symm.trans hw)
    obtain rfl := Option.some.inj (hplugins.symm.trans hq)
    exact absurd inside (by decide)
  obtain ⟨hspares, hstraight⟩ := spares_plugins_iff (by decide) hworking hplugins (by decide) sound
  have hx := hspares.mpr (hstraight (by decide) (by decide)) ⟨"/srv/w/data2/x"⟩ (by decide) (by decide)
  exact ⟨hworking, hplugins, sound, hx.resolve_left fun h => absurd h.2.2 (by decide)⟩

/-- A way up in the guard's directory: it leads above the plugins, no error is reported, and
self-defense keeps the plugins from their files. -/
theorem denied_without_error :
    let s := { unset with global := { GlobalSettings.unset with
      workingDir := some ⟨"/srv/old/.."⟩, pluginsDir := some ⟨"/srv/plugins"⟩ } }
    let full := s.withDefaults ⟨"/etc/warden"⟩
    let w : Workspace := ⟨⟨"/srv/old/.."⟩⟩
    let file : Path := ⟨"/srv/plugins/c/data.yml"⟩
    full.global.workingDir = some w.directory ∧ full.global.pluginsDir = some ⟨"/srv/plugins"⟩ ∧
      full.validate.errors = [] ∧ file.LiesIn ⟨"/srv/plugins"⟩ ∧
      ¬w.directory.LiesIn ⟨"/srv/plugins"⟩ ∧
      (∃ site, (w.ruleless.check .fileDelete (.path file) Guard.cleanerFrames).run .fresh =
        (.error ⟨.fileDelete, site, .path file⟩, .fresh)) ∧
      (Guard.check { w.ruleless with selfDefense := false } .fileDelete (.path file)
        Guard.cleanerFrames).run .fresh = (.ok (), .fresh) := by
  intro s full w file
  exact ⟨by decide, by decide, by decide, by decide, by decide,
    Workspace.denied_of_liesIn (by decide) (by decide) (by decide),
    Workspace.allowed_without_defense⟩

end Settings

end PluginGuard
