import Mathlib.Data.List.Forall2
import PluginGuard.Disk.Request
import PluginGuard.Scan.Startup

/-!
# What a startup scan accounts for

One thing becomes of each archive, so the three lists of the report share the archives among
them, each in the order of the archives. The start is blocked for an archive that cannot be
read and for an outcome that asks for more than a warning, whatever became of a quarantine.
-/
namespace PluginGuard

/-! ### Countermeasures in force -/

namespace Countermeasure

theorem blocksStartup_stronger (a b : Countermeasure) :
    (stronger a b).blocksStartup = (a.blocksStartup || b.blocksStartup) := by
  cases a <;> cases b <;> rfl

theorem blocksStartup_foldl (cs : List Countermeasure) (c : Countermeasure) :
    (cs.foldl stronger c).blocksStartup = (c.blocksStartup || cs.any (·.blocksStartup)) := by
  induction cs generalizing c with
  | nil => simp
  | cons c' cs ih =>
    rw [List.foldl_cons, ih, blocksStartup_stronger, List.any_cons, Bool.or_assoc]

theorem any_strongest? (cs : List Countermeasure) :
    (strongest? cs).any (·.blocksStartup) = cs.any (·.blocksStartup) := by
  cases cs with
  | nil => rfl
  | cons c cs => exact blocksStartup_foldl cs c

theorem blocksStartup_iff {c : Countermeasure} :
    c.blocksStartup = true ↔ c = .abort ∨ c = .quarantine := by
  cases c <;> simp [blocksStartup]

end Countermeasure

theorem Enforcement.blocksStartup_eq (e : Enforcement) :
    e.blocksStartup = e.countermeasure.any (·.blocksStartup) := by
  rw [blocksStartup]
  cases e.countermeasure <;> rfl

def ScanOutcome.blocks (o : ScanOutcome) : Bool := o.countermeasure.any (·.blocksStartup)

theorem ScanOutcome.blocks_iff {o : ScanOutcome} :
    o.blocks = true ↔ o.countermeasure = some .abort ∨ o.countermeasure = some .quarantine := by
  rw [blocks]
  cases o.countermeasure <;> simp [Countermeasure.blocksStartup_iff]

section

variable {σ : Type} {d d' : σ}

variable [FileSystem (StateM σ)]

theorem Quarantine.countermeasure_enforce (dir : Path) (a : Archive) (outcomes : List ScanOutcome)
    (occasion : Occasion) (d : σ) :
    ((enforce dir a outcomes occasion : StateM σ _).run d).1.countermeasure =
      Countermeasure.strongest? (outcomes.filterMap (·.countermeasure)) := by
  unfold enforce
  dsimp only
  split
  · rw [run_bind]
    cases ((quarantine dir a _ occasion : StateM σ _).run d).1 <;> rfl
  · rfl

theorem Quarantine.blocksStartup_enforce (dir : Path) (a : Archive) (outcomes : List ScanOutcome)
    (occasion : Occasion) (d : σ) :
    ((enforce dir a outcomes occasion : StateM σ _).run d).1.blocksStartup =
      outcomes.any (·.blocks) := by
  rw [Enforcement.blocksStartup_eq, countermeasure_enforce, Countermeasure.any_strongest?,
    List.any_filterMap]
  rfl

end

/-! ### What becomes of each archive -/

namespace Examined

def path : Examined → Path
  | .excluded path => path
  | .unreadable path _ => path
  | .scanned report => report.jar

def excluded? : Examined → Option Path
  | .excluded path => some path
  | _ => none

def unreadable? : Examined → Option (Path × AnalysisError)
  | .unreadable path reason => some (path, reason)
  | _ => none

def scanned? : Examined → Option PluginReport
  | .scanned report => some report
  | _ => none

end Examined

namespace StartupReport

open Examined

theorem foldl_add (es : List Examined) (r : StartupReport) :
    es.foldl add r = ⟨r.plugins ++ es.filterMap scanned?, r.excluded ++ es.filterMap excluded?,
      r.unreadable ++ es.filterMap unreadable?⟩ := by
  induction es generalizing r with
  | nil => simp
  | cons e es ih =>
    rw [List.foldl_cons, ih]
    cases e <;> simp [add, List.filterMap_cons, excluded?, unreadable?, scanned?]

theorem ofExamined_eq (es : List Examined) : ofExamined es =
    ⟨es.filterMap scanned?, es.filterMap excluded?, es.filterMap unreadable?⟩ := by
  rw [ofExamined, foldl_add]
  rfl

theorem perm_ofExamined (es : List Examined) :
    ((ofExamined es).plugins.map (·.jar) ++ (ofExamined es).excluded ++
      (ofExamined es).unreadable.map (·.1)).Perm (es.map (·.path)) := by
  rw [ofExamined_eq]
  induction es with
  | nil => exact .refl _
  | cons e es ih =>
    rw [List.map_cons]
    cases e with
    | scanned report => exact ih.cons _
    | excluded p =>
      refine .trans ?_ (ih.cons p)
      simp only [List.append_assoc]
      exact List.perm_middle
    | unreadable p reason =>
      refine .trans ?_ (ih.cons p)
      exact List.perm_middle

end StartupReport

namespace StartupScan

variable {σ : Type} [FileSystem (StateM σ)] {s : StartupScan} {d d' : σ} {path : Path}
  {e : Examined} {es : List Examined}

/-- What can become of an archive. It is passed over just where it is excluded, and its
outcomes decide whether it blocks the start. -/
structure Settles (s : StartupScan) (path : Path) (e : Examined) : Prop where
  about : e.path = path
  excluded : e.excluded?.isSome = s.excludes path
  blocks : ∀ report, e.scanned? = some report →
    report.enforcement.blocksStartup = report.outcomes.any (·.blocks)

theorem settles_examineUnreadable (s : StartupScan) (path : Path) (reason : AnalysisError) :
    s.Settles path (s.examineUnreadable path reason) := by
  unfold examineUnreadable
  by_cases h : s.excludes path
  · rw [if_pos h]
    exact ⟨rfl, h.symm, nofun⟩
  · rw [if_neg h]
    exact ⟨rfl, by simpa [Examined.excluded?] using h, nofun⟩

theorem scan_eq_ok {jar : Path} {a : Archive} {occasion : Occasion} {report : PluginReport}
    (h : (s.scan jar a occasion : StateM σ _).run d = (.ok report, d')) :
    report.jar = jar ∧ report.enforcement.blocksStartup = report.outcomes.any (·.blocks) := by
  unfold scan at h
  rw [run_bind] at h
  split at h
  · cases h
  · rename_i outcomes _
    rw [run_bind] at h
    cases h
    exact ⟨rfl, Quarantine.blocksStartup_enforce ..⟩

theorem settles_of_examine {p : Plugin} {occasion : Occasion}
    (h : (s.examine p occasion : StateM σ _).run d = (.ok e, d')) : s.Settles p.jar e := by
  unfold examine at h
  by_cases hexcluded : s.excludes p.jar
  · rw [if_pos hexcluded] at h
    cases h
    exact ⟨rfl, hexcluded.symm, nofun⟩
  · rw [if_neg hexcluded, run_bind] at h
    split at h
    · cases h
      exact ⟨rfl, by simpa [Examined.excluded?] using hexcluded, nofun⟩
    · rename_i a _
      rw [run_bind] at h
      generalize hscan : (s.scan p.jar a occasion : StateM σ _).run _ = answered at h
      obtain ⟨answer | report, after⟩ := answered
      · cases h
      · cases h
        obtain ⟨hjar, hblocks⟩ := scan_eq_ok hscan
        refine ⟨hjar, by simpa [Examined.excluded?] using hexcluded, fun r hr => ?_⟩
        cases hr
        exact hblocks

theorem settles_of_examineAll {plugins : List (Plugin × Occasion)}
    (h : (s.examineAll plugins : StateM σ _).run d = (.ok es, d')) :
    List.Forall₂ s.Settles (plugins.map (·.1.jar)) es := by
  induction plugins generalizing d es with
  | nil =>
    cases h
    exact .nil
  | cons plugin rest ih =>
    obtain ⟨p, occasion⟩ := plugin
    rw [examineAll, run_bind] at h
    generalize hfirst : (s.examine p occasion : StateM σ _).run d = answered at h
    obtain ⟨answer | e, d₁⟩ := answered
    · cases h
    · rw [run_bind] at h
      generalize hrest : (s.examineAll rest : StateM σ _).run _ = answered at h
      obtain ⟨answer | es', d₂⟩ := answered
      · cases h
      · cases h
        exact .cons (settles_of_examine hfirst) (ih hrest)

theorem settles_of_run (henabled : s.analysis.isEnabled = true)
    {plugins : List (Plugin × Occasion)} {report : StartupReport}
    (h : (s.run plugins : StateM σ _).run d = (.ok report, d')) :
    ∃ es, report = .ofExamined es ∧
      List.Forall₂ s.Settles (s.unreadable.map (·.1) ++ plugins.map (·.1.jar)) es := by
  rw [run, if_pos henabled, run_bind] at h
  generalize hall : (s.examineAll plugins : StateM σ _).run d = answered at h
  obtain ⟨answer | es, d₁⟩ := answered
  · cases h
  · cases h
    refine ⟨_, rfl, List.rel_append ?_ (settles_of_examineAll hall)⟩
    rw [List.forall₂_map_left_iff, List.forall₂_map_right_iff]
    exact List.forall₂_same.mpr fun x _ => settles_examineUnreadable s x.1 x.2

theorem map_path_of_settles {inputs : List Path} (h : List.Forall₂ s.Settles inputs es) :
    es.map (·.path) = inputs := by
  induction h with
  | nil => rfl
  | cons hsettles _ ih => rw [List.map_cons, hsettles.about, ih]

theorem excluded_of_settles {inputs : List Path} (h : List.Forall₂ s.Settles inputs es) :
    es.filterMap (·.excluded?) = inputs.filter s.excludes := by
  induction h with
  | nil => rfl
  | @cons path e _ _ hsettles _ ih =>
    obtain ⟨habout, hexcluded, -⟩ := hsettles
    rw [List.filter_cons, ← hexcluded, List.filterMap_cons, ih]
    subst habout
    cases e <;> rfl

theorem blocks_of_settles {inputs : List Path} (h : List.Forall₂ s.Settles inputs es)
    {report : PluginReport} (hmem : report ∈ es.filterMap (·.scanned?)) :
    report.enforcement.blocksStartup = report.outcomes.any (·.blocks) := by
  obtain ⟨e, he, hscanned⟩ := List.mem_filterMap.mp hmem
  induction h with
  | nil => cases he
  | cons hsettles _ ih =>
    rcases List.mem_cons.mp he with rfl | he
    · exact hsettles.blocks report hscanned
    · exact ih (List.mem_filterMap.mpr ⟨e, he, hscanned⟩) he

theorem mustAbort_iff_of_settles {inputs : List Path} (h : List.Forall₂ s.Settles inputs es) :
    let report := StartupReport.ofExamined es
    report.mustAbort = true ↔ report.unreadable ≠ [] ∨
      ∃ p ∈ report.plugins, ∃ o ∈ p.outcomes, o.blocks = true := by
  intro report
  have hplugins : report.plugins = es.filterMap (·.scanned?) :=
    congrArg StartupReport.plugins (StartupReport.ofExamined_eq es)
  have hblocking : (!report.blocking.isEmpty) = true ↔
      ∃ p ∈ report.plugins, p.enforcement.blocksStartup = true := by
    simp [StartupReport.blocking]
  rw [StartupReport.mustAbort, Bool.or_eq_true, hblocking]
  refine or_congr (by simp) (exists_congr fun p => and_congr_right fun hp => ?_)
  rw [blocks_of_settles h (hplugins ▸ hp), List.any_eq_true]

/-- Each archive is accounted for once, and the start is blocked just for archives that cannot
be read and for outcomes that ask for it. -/
theorem accounts_of_run (s : StartupScan) (henabled : s.analysis.isEnabled = true)
    {plugins : List (Plugin × Occasion)} {report : StartupReport}
    (hrun : (s.run plugins : StateM σ _).run d = (.ok report, d')) :
    let inputs := s.unreadable.map (·.1) ++ plugins.map (·.1.jar)
    (∃ es : List Examined, es.map (·.path) = inputs ∧
      report.plugins = es.filterMap (·.scanned?) ∧
      report.excluded = es.filterMap (·.excluded?) ∧
      report.unreadable = es.filterMap (·.unreadable?)) ∧
    (report.plugins.map (·.jar) ++ report.excluded ++ report.unreadable.map (·.1)).Perm inputs ∧
    report.excluded = inputs.filter
      (fun path => s.analysis.settings.exclusions.any (·.components == path.components)) ∧
    (report.mustAbort = true ↔ report.unreadable ≠ [] ∨
      ∃ p ∈ report.plugins, ∃ o ∈ p.outcomes,
        o.countermeasure = some .abort ∨ o.countermeasure = some .quarantine) := by
  intro inputs
  obtain ⟨es, rfl, hes⟩ := settles_of_run henabled hrun
  have hpaths : es.map (·.path) = inputs := map_path_of_settles hes
  have hlists := StartupReport.ofExamined_eq es
  refine ⟨⟨es, hpaths, by rw [hlists], by rw [hlists], by rw [hlists]⟩,
    hpaths ▸ StartupReport.perm_ofExamined es, ?_, ?_⟩
  · rw [hlists]
    exact excluded_of_settles hes
  · simp only [← ScanOutcome.blocks_iff]
    exact mustAbort_iff_of_settles hes

/-- One archive is named as unreadable before the pass and one is excluded. A file stands where
the directory of the quarantine should be. -/
def hindered : StartupScan where
  analysis :=
    { scanners := [{ Scan.Scanner.ofClasses "a" ⟨.warn, .quarantine⟩ fun _ f => .ok f with
        conclude := fun _ => .ok ⟨.malicious, 70, [""], some .quarantine⟩ }]
      cache := ⟨⟨"/q"⟩, 0, ""⟩
      settings := { AnalysisSettings.unset with exclusions := [⟨"/b.jar"⟩] }
      failurePolicy := .carryOn }
  quarantine := ⟨"/q"⟩
  unreadable := [(⟨"/u.jar"⟩, .archive ⟨"/u.jar"⟩ ""), (⟨"/b.jar"⟩, .archive ⟨"/b.jar"⟩ "")]

def oneArchive : Disk where
  current := ⟨"/"⟩
  nodes := ⟨[("/a.jar", .file ([0x50, 0x4b, 5, 6] ++ List.replicate 18 0)), ("/q", .file [])]⟩
  failures := []

def threePlugins : List (Plugin × Occasion) :=
  ["/a.jar", "/b.jar", "/m.jar"].map fun jar =>
    (⟨⟨jar⟩, "", [], ""⟩, ⟨.ofNanosSince1970 0, .ofNanosSince1970 1, ⟨""⟩⟩)

theorem accounts_of_run_hindered :
    ∃ report d', (hindered.run threePlugins : OnDisk _).run oneArchive = (.ok report, d') ∧
      report.plugins.map (fun p => (p.jar, p.enforcement.failure.isSome)) = [(⟨"/a.jar"⟩, true)] ∧
      report.excluded = [⟨"/b.jar"⟩, ⟨"/b.jar"⟩] ∧
      (report.unreadable.map (·.1)).Perm [⟨"/u.jar"⟩, ⟨"/m.jar"⟩] ∧ report.mustAbort = true := by
  generalize hrun : (hindered.run threePlugins : OnDisk _).run oneArchive = answered
  have hsome : answered.1.toOption.map (fun r => r.plugins.map fun p =>
      (p.jar, p.enforcement.failure.isSome, p.outcomes.map (·.countermeasure))) =
      some [(⟨"/a.jar"⟩, true, [some .quarantine])] := by
    rw [← hrun]
    decide +kernel
  obtain ⟨e | report, d'⟩ := answered
  · cases hsome
  · obtain ⟨-, hperm, hexcluded, habort⟩ := accounts_of_run hindered rfl hrun
    obtain ⟨p, hplugins, hp⟩ := List.map_eq_singleton_iff.mp (Option.some.inj hsome)
    simp only [Prod.mk.injEq, List.map_eq_singleton_iff] at hp
    obtain ⟨hjar, hfailure, o, houtcomes, ho⟩ := hp
    have hexcluded : report.excluded = [⟨"/b.jar"⟩, ⟨"/b.jar"⟩] := hexcluded.trans (by decide)
    refine ⟨report, d', rfl, ?_, hexcluded, ?_, habort.mpr (.inr ⟨p, ?_, o, ?_, .inr ho⟩)⟩
    · rw [hplugins, List.map_singleton, hjar, hfailure]
    · simp only [hplugins, List.map_singleton, hjar, hexcluded] at hperm
      have hinputs : (hindered.unreadable.map (·.1) ++ threePlugins.map (·.1.jar)).Perm
          ([⟨"/a.jar"⟩] ++ [⟨"/b.jar"⟩, ⟨"/b.jar"⟩] ++ [⟨"/u.jar"⟩, ⟨"/m.jar"⟩]) := by decide
      exact (List.perm_append_left_iff _).mp (hperm.trans hinputs)
    · simp [hplugins]
    · simp [houtcomes]

end StartupScan

end PluginGuard
