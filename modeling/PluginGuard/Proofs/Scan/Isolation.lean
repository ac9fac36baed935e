import PluginGuard.Proofs.Scan.Rerun

/-!
# Scanners that fail

Where scanners that fail are passed over, an analysis goes as if they were not there:
the same outcomes and the same disk. Otherwise the first one that fails ends the analysis
where the scanners before it have come to.
-/
namespace PluginGuard

/-- The file of a hash has a record: its document, or bytes that are read as it. -/
def Cache.Stores (c : Cache) (d : Disk) (hash : String) (r : InspectionRecord) : Prop :=
  d.read (c.recordPath hash) = .ok r.toBytes ∨ c.stored? d hash = some r

namespace Analysis

open Scan OnDisk

variable {a : Analysis} {contents : Contents} {s : Scanner} {scanners before after : List Scanner}
  {p p₁ p₂ : Progress} {d d₁ d₂ : Disk}

theorem result?_eq_none_iff {known : Table ScanResult} : result? contents known s = none ↔
    known.find? s.name = none ∧ ∃ message, s.run contents = .error message := by
  rw [result?]
  cases known.find? s.name with
  | some r => simp
  | none => cases s.run contents <;> simp [Except.toOption]

/-! ### Failures that are passed over -/

theorem run_runScanner_of_fails (hpolicy : a.failurePolicy = .carryOn)
    (h : result? contents p.record.results s = none) (d : Disk) :
    (a.runScanner contents s p : OnDisk _).run d = (.ok p, d) := by
  obtain ⟨hknown, message, hrun⟩ := result?_eq_none_iff.mp h
  rw [runScanner, hknown, hrun, hpolicy]
  rfl

theorem run_runScanners_filter (hpolicy : a.failurePolicy = .carryOn) {keep : Scanner → Bool}
    (hnames : (scanners.map (·.name)).Nodup)
    (hdrop : ∀ s ∈ scanners, keep s = false → result? contents p.record.results s = none)
    (d : Disk) :
    (a.runScanners contents (scanners.filter keep) p : OnDisk _).run d =
      (a.runScanners contents scanners p : OnDisk _).run d := by
  induction scanners generalizing p d with
  | nil => rfl
  | cons s rest ih =>
    rw [List.map_cons, List.nodup_cons] at hnames
    rw [List.forall_mem_cons] at hdrop
    by_cases hkeep : keep s = true
    · obtain ⟨p₁, d₁, hfirst, hadvances⟩ := run_runScanner hpolicy contents s p d
      rw [List.filter_cons_of_pos hkeep, runScanners, runScanners, run_bind, run_bind, hfirst]
      refine ih hnames.2 (fun t ht hdropped => ?_) d₁
      rw [result?_congr (hadvances.find?_of_mem (List.forall_mem_singleton.mpr hnames.1) ht)]
      exact hdrop.2 t ht hdropped
    · rw [List.filter_cons_of_neg hkeep, runScanners, run_bind,
        run_runScanner_of_fails hpolicy (hdrop.1 (Bool.not_eq_true _ ▸ hkeep))]
      exact ih hnames.2 hdrop.2 d

/-! ### Failures that end the analysis -/

def carryingOn (a : Analysis) : Analysis := { a with failurePolicy := .carryOn }

theorem Advances.of_carryingOn (h : Advances a.carryingOn contents scanners p d p₁ d₁) :
    Advances a contents scanners p d p₁ d₁ :=
  ⟨h.outcomes, h.results, h.others, h.rest, h.stored⟩

theorem runScanner_carryingOn (h : (result? contents p.record.results s).isSome) :
    (a.carryingOn.runScanner contents s p : OnDisk _) = a.runScanner contents s p := by
  unfold runScanner
  cases hknown : p.record.results.find? s.name with
  | some r => rfl
  | none =>
    cases hrun : s.run contents with
    | ok r => rfl
    | error message => simp [result?, hknown, hrun, Except.toOption] at h

theorem run_runScanners_carryingOn (hnames : (scanners.map (·.name)).Nodup)
    (h : ∀ s ∈ scanners, (result? contents p.record.results s).isSome) (d : Disk) :
    (a.carryingOn.runScanners contents scanners p : OnDisk _).run d =
      (a.runScanners contents scanners p : OnDisk _).run d := by
  induction scanners generalizing p d with
  | nil => rfl
  | cons s rest ih =>
    rw [List.map_cons, List.nodup_cons] at hnames
    rw [List.forall_mem_cons] at h
    obtain ⟨p₁, d₁, hfirst, hadvances⟩ := run_runScanner (a := a.carryingOn) rfl contents s p d
    rw [runScanner_carryingOn h.1] at hfirst
    rw [runScanners, runScanners, run_bind, run_bind, runScanner_carryingOn h.1, hfirst]
    refine ih hnames.2 (fun t ht => ?_) d₁
    rw [result?_congr (hadvances.find?_of_mem (List.forall_mem_singleton.mpr hnames.1) ht)]
    exact h.2 t ht

theorem run_runScanners_of_answers (hnames : (scanners.map (·.name)).Nodup)
    (h : ∀ s ∈ scanners, (result? contents p.record.results s).isSome) (d : Disk) :
    ∃ p' d', (a.runScanners contents scanners p : OnDisk _).run d = (.ok p', d') ∧
      Advances a contents scanners p d p' d' := by
  obtain ⟨p', d', hrun, hadvances⟩ :=
    run_runScanners (a := a.carryingOn) rfl contents hnames p d
  exact ⟨p', d', run_runScanners_carryingOn hnames h d ▸ hrun, hadvances.of_carryingOn⟩

theorem run_runScanner_of_shutdown (hpolicy : a.failurePolicy = .shutdown)
    (hknown : p.record.results.find? s.name = none) {message : String}
    (hrun : s.run contents = .error message) (d : Disk) :
    (a.runScanner contents s p : OnDisk _).run d =
      (.error (.scanner s.name contents.plugin message), d) := by
  rw [runScanner, hknown, hrun, hpolicy]
  rfl

theorem run_runScanners_append
    (h : (a.runScanners contents before p : OnDisk _).run d = (.ok p₁, d₁)) :
    (a.runScanners contents (before ++ after) p : OnDisk _).run d =
      (a.runScanners contents after p₁ : OnDisk _).run d₁ := by
  induction before generalizing p d with
  | nil =>
    cases h
    rfl
  | cons s rest ih =>
    rw [runScanners, run_bind] at h
    rw [List.cons_append, runScanners, run_bind]
    cases hfirst : (a.runScanner contents s p : OnDisk _).run d with
    | mk answer d' =>
      rw [hfirst] at h
      cases answer with
      | ok p' => exact ih h
      | error e => cases h

theorem failing_eq (a : Analysis) (contents : Contents) (r : InspectionRecord) :
    a.failing contents r =
      a.enabledScanners.filter fun s => (result? contents r.results s).isNone := by
  rw [failing, pending, List.filter_filter]
  refine List.filter_congr fun s _ => ?_
  rw [result?]
  cases r.results.find? s.name <;> simp

theorem enabledScanners_of_enabled (h : ∀ s ∈ scanners, s ∈ a.enabledScanners) :
    ({ a with scanners := scanners } : Analysis).enabledScanners = scanners :=
  List.filter_eq_self.mpr fun s hs => (List.mem_filter.mp (h s hs)).2

theorem Advances.stores {hash : String} {now : Instant} {loaded : Cache.Loaded}
    (hload : a.cache.Loads hash now d loaded d₁)
    (h : Advances a contents scanners ⟨loaded.record, true, []⟩ d₁ p d₂)
    (hstoring : p.storing = true) (hs : s ∈ scanners)
    (hresult : (result? contents loaded.record.results s).isSome) :
    a.cache.Stores d₂ hash p.record := by
  obtain ⟨-, ⟨hsame, rfl⟩ | hholds⟩ := h.stored hstoring
  · -- Nothing was found out, so the result is one that was loaded.
    rw [← h.results s hs, hsame] at hresult
    cases hload with
    | found hfind => exact .inr (hsame ▸ (Cache.find_eq_ok_iff.mp hfind).1)
    | missed hmiss hread => cases hresult
  · have hrest : p.record = { loaded.record with results := p.record.results } := h.rest
    have hhash : p.record.contentHash = hash := by rw [hrest, hload.about.1]
    exact .inl (hhash ▸ hholds.read)

/-! ### Analyses with failures -/

theorem run_runScanners_of_scanners (a : Analysis) (others : List Scanner) (p : Progress)
    (d : Disk) :
    (({ a with scanners := others } : Analysis).runScanners contents scanners p : OnDisk _).run d =
      (a.runScanners contents scanners p : OnDisk _).run d := by
  induction scanners generalizing p d with
  | nil => rfl
  | cons s rest ih =>
    have hfirst : (({ a with scanners := others } : Analysis).runScanner contents s p : OnDisk _) =
        a.runScanner contents s p := rfl
    rw [runScanners, runScanners, run_bind, run_bind, hfirst]
    cases ((a.runScanner contents s p : OnDisk _).run d).1 with
    | ok p' => exact ih p' _
    | error e => rfl

theorem enabledScanners_filter (a : Analysis) (keep : Scanner → Bool) :
    ({ a with scanners := a.scanners.filter keep } : Analysis).enabledScanners =
      a.enabledScanners.filter keep := by
  rw [enabledScanners, enabledScanners, List.filter_filter, List.filter_filter]
  exact List.filter_congr fun s _ => Bool.and_comm _ _

theorem run_examine_filter (hpolicy : a.failurePolicy = .carryOn)
    (hnames : (a.scanners.map (·.name)).Nodup) {archive : Archive} {now : Instant}
    {keep : Scanner → Bool}
    (hdrop : ∀ s ∈ a.enabledScanners, keep s = false →
      result? (Contents.ofArchive archive)
        ((a.cache.load archive.contentHash now : OnDisk _).run d).1.record.results s = none) :
    (({ a with scanners := a.scanners.filter keep } : Analysis).examine archive now).run d =
      (a.examine archive now).run d := by
  rw [examine, examine, enabledScanners_filter, run_bind, run_bind, run_runScanners_of_scanners]
  exact run_runScanners_filter hpolicy (nodup_enabledScanners hnames) hdrop _

/-- An analysis ends with the failure of a scanner. Those before it have answered, as in an
analysis of their own, and their answers stand in a record that is stored where storing has
not failed. -/
structure EndsWith (a : Analysis) (archive : Archive) (now : Instant) (d : Disk)
    (known : Table ScanResult) (before : List Scanner) (s : Scanner) (message : String)
    (p : Progress) (d' : Disk) : Prop where
  fails : s.run (Contents.ofArchive archive) = .error message
  run : (a.analyze archive now : OnDisk _).run d =
    (.error (.scanner s.name archive.displayName message), d')
  answers : ∀ t ∈ before, ∃ r, result? (Contents.ofArchive archive) known t = some r ∧
    p.record.results.find? t.name = some r
  examined : (({ a with scanners := before } : Analysis).examine archive now).run d = (.ok p, d')
  stored : p.storing = true → before ≠ [] → a.cache.Stores d' archive.contentHash p.record

theorem exists_endsWith (hpolicy : a.failurePolicy = .shutdown)
    (hnames : (a.scanners.map (·.name)).Nodup) {archive : Archive} {now : Instant}
    {loaded : Cache.Loaded}
    (hload : (a.cache.load archive.contentHash now : OnDisk _).run d = (loaded, d₁))
    (henabled : a.enabledScanners = before ++ s :: after)
    (hbefore : ∀ t ∈ before,
      (result? (Contents.ofArchive archive) loaded.record.results t).isSome)
    (hfails : result? (Contents.ofArchive archive) loaded.record.results s = none) :
    ∃ message p d', a.EndsWith archive now d loaded.record.results before s message p d' := by
  obtain ⟨hunknown, message, hmessage⟩ := result?_eq_none_iff.mp hfails
  have hall := nodup_enabledScanners hnames
  rw [henabled, List.map_append, List.nodup_append] at hall
  obtain ⟨hnodup, -, hapart⟩ := hall
  obtain ⟨p, d', hfirst, hadvances⟩ := run_runScanners_of_answers (a := a)
    (p := ⟨loaded.record, true, []⟩) hnodup hbefore d₁
  refine ⟨message, p, d', hmessage, ?_, fun t ht => ?_, ?_, fun hstoring hne => ?_⟩
  · have hstill : p.record.results.find? s.name = none := by
      have hname : s.name ∉ before.map (·.name) := fun hmem => hapart _ hmem _ (by simp) rfl
      rw [hadvances.others s.name hname]
      exact hunknown
    rw [run_analyze, examine, run_bind, hload, henabled, run_runScanners_append hfirst,
      runScanners, run_bind, run_runScanner_of_shutdown hpolicy hstill hmessage]
    rfl
  · obtain ⟨r, hr⟩ := Option.isSome_iff_exists.mp (hbefore t ht)
    exact ⟨r, hr, (hadvances.results t ht).trans hr⟩
  · have honly : ({ a with scanners := before } : Analysis).enabledScanners = before :=
      enabledScanners_of_enabled fun t ht => henabled ▸ List.mem_append_left _ ht
    rw [examine, run_bind, honly, hload, run_runScanners_of_scanners]
    exact hfirst
  · obtain ⟨t, ht⟩ := List.exists_mem_of_ne_nil before hne
    have hloads : a.cache.Loads archive.contentHash now d loaded d₁ := by
      have hloads := Cache.loads a.cache archive.contentHash now d
      rwa [hload] at hloads
    exact hadvances.stores hloads hstoring ht (hbefore t ht)

theorem exists_examine_of_answers (hnames : (a.scanners.map (·.name)).Nodup)
    {archive : Archive} {now : Instant} {loaded : Cache.Loaded}
    (hload : (a.cache.load archive.contentHash now : OnDisk _).run d = (loaded, d₁))
    (h : ∀ s ∈ a.enabledScanners,
      (result? (Contents.ofArchive archive) loaded.record.results s).isSome) :
    ∃ p d', (a.examine archive now).run d = (.ok p, d') := by
  obtain ⟨p, d', hrun, -⟩ := run_runScanners_of_answers (a := a)
    (p := ⟨loaded.record, true, []⟩) (nodup_enabledScanners hnames) h d₁
  refine ⟨p, d', ?_⟩
  rw [examine, run_bind, hload]
  exact hrun

/-- Failures that are passed over leave the outcomes and the disk as they are without the
scanners that fail. Otherwise an analysis succeeds just if none fails, and ends with the first
one that does. -/
theorem analyze_of_failures (a : Analysis) (hnames : (a.scanners.map (·.name)).Nodup)
    (archive : Archive) (now : Instant) (d : Disk) :
    let contents := Contents.ofArchive archive
    let known := ((a.cache.load archive.contentHash now : OnDisk _).run d).1.record
    (a.failurePolicy = .carryOn →
      (∃ outcomes, ((a.analyze archive now : OnDisk _).run d).1 = .ok outcomes) ∧
      ∀ F : Scanner → Bool, (∀ s ∈ a.scanners, F s → ∃ message, s.run contents = .error message) →
        (({ a with scanners := a.scanners.filter fun s => !(F s &&
            a.settings.scannerEnabled s.name && (known.results.find? s.name).isNone) }
          : Analysis).analyze archive now : OnDisk _).run d =
          (a.analyze archive now : OnDisk _).run d) ∧
    (a.failurePolicy = .shutdown →
      ((∃ outcomes, ((a.analyze archive now : OnDisk _).run d).1 = .ok outcomes) ↔
        a.failing contents known = []) ∧
      ∀ s rest, a.failing contents known = s :: rest →
        ∃ message before after p d', a.enabledScanners = before ++ s :: after ∧
          a.EndsWith archive now d known.results before s message p d') := by
  intro contents known
  have hload : (a.cache.load archive.contentHash now : OnDisk _).run d =
    (((a.cache.load archive.contentHash now : OnDisk _).run d).1, _) := rfl
  refine ⟨fun hpolicy => ⟨?_, fun F hF => ?_⟩, fun hpolicy => ?_⟩
  · obtain ⟨p, d', hexamine, -⟩ := run_examine hnames hpolicy hload
    exact ⟨p.outcomes, congrArg (fun x => x.1.map (·.outcomes)) hexamine⟩
  · rw [run_analyze, run_analyze, run_examine_filter hpolicy hnames]
    intro s hs hdropped
    simp only [Bool.not_eq_false', Bool.and_eq_true, Option.isNone_iff_eq_none] at hdropped
    exact result?_eq_none_iff.mpr ⟨hdropped.2, hF s (List.mem_of_mem_filter hs) hdropped.1.1⟩
  · have hends : ∀ s rest, a.failing contents known = s :: rest →
        ∃ message before after p d', a.enabledScanners = before ++ s :: after ∧
          a.EndsWith archive now d known.results before s message p d' := by
      intro s rest hfailing
      rw [failing_eq, List.filter_eq_cons_iff] at hfailing
      obtain ⟨before, after, henabled, hbefore, hfails, -⟩ := hfailing
      obtain ⟨message, p, d', hends⟩ := exists_endsWith hpolicy hnames hload henabled
        (fun t ht => by simpa [Option.isSome_iff_ne_none] using hbefore t ht)
        (Option.isNone_iff_eq_none.mp hfails)
      exact ⟨message, before, after, p, d', henabled, hends⟩
    refine ⟨⟨fun ⟨outcomes, hok⟩ => ?_, fun hnone => ?_⟩, hends⟩
    · cases hfailing : a.failing contents known with
      | nil => rfl
      | cons s rest =>
        obtain ⟨_, _, _, _, _, _, hends⟩ := hends s rest hfailing
        rw [hends.run] at hok
        cases hok
    · rw [failing_eq, List.filter_eq_nil_iff] at hnone
      obtain ⟨p, d', hexamine⟩ := exists_examine_of_answers hnames hload fun s hs => by
        simpa [Option.isSome_iff_ne_none] using hnone s hs
      exact ⟨p.outcomes, congrArg (fun x => x.1.map (·.outcomes)) hexamine⟩

theorem analyze_of_failures_half :
    let now := Instant.ofNanosSince1970 0
    let d : Disk := ⟨⟨"/"⟩, .empty, []⟩
    let strict : Analysis := { half with failurePolicy := .shutdown }
    (({ half with scanners := half.scanners.take 1 } : Analysis).analyze oneClass now
        : OnDisk _).run d = (half.analyze oneClass now : OnDisk _).run d ∧
      ∃ d', (strict.analyze oneClass now : OnDisk _).run d = (.error (.scanner "b" "p" ""), d') ∧
        strict.cache.Stores d' "a" ⟨now, "", "a", ⟨[("a", .clean)]⟩⟩ := by
  intro now d strict
  have hnames : (half.scanners.map (·.name)).Nodup := by decide
  have hknown : ((half.cache.load oneClass.contentHash now : OnDisk _).run d).1.record =
      .fresh "a" "" now := by decide +kernel
  obtain ⟨hpassed, -⟩ := analyze_of_failures half hnames oneClass now d
  obtain ⟨-, hended⟩ := analyze_of_failures strict hnames oneClass now d
  constructor
  · have hfails : ∀ s ∈ half.scanners, s.name == "b" →
        ∃ message, s.run (Contents.ofArchive oneClass) = .error message := by
      intro s hs hname
      rcases List.mem_pair.mp hs with rfl | rfl
      · exact absurd hname (by decide)
      · exact ⟨"", rfl⟩
    have hwithout := (hpassed rfl).2 (fun s => s.name == "b") hfails
    rw [hknown] at hwithout
    exact hwithout
  · have hfailing : strict.failing (Contents.ofArchive oneClass) (.fresh "a" "" now) =
        half.scanners.drop 1 := rfl
    rw [← hknown] at hfailing
    obtain ⟨message, before, after, p, d', henabled, hends⟩ := (hended rfl).2 _ _ hfailing
    have hbefore : before = half.scanners.take 1 := by
      have henabled : half.scanners = before ++ _ := henabled
      rcases before with _ | ⟨t, _ | ⟨t', rest⟩⟩
      · exact absurd (congrArg Scanner.name (List.cons.inj henabled).1) (by decide)
      · rw [← (List.cons.inj henabled).1]
        rfl
      · have hlength := congrArg List.length henabled
        simp [half] at hlength
    subst hbefore
    have hp : p = ⟨⟨now, "", "a", ⟨[("a", .clean)]⟩⟩, true, [half.outcome "a" .clean false]⟩ := by
      have hfirst : ((({ strict with scanners := half.scanners.take 1 } : Analysis).examine
          oneClass now).run d).1 = .ok ⟨⟨now, "", "a", ⟨[("a", .clean)]⟩⟩, true,
            [half.outcome "a" .clean false]⟩ := by decide +kernel
      rw [hends.examined] at hfirst
      exact Except.ok.inj hfirst
    subst hp
    have hmessage : message = "" := (Except.error.inj hends.fails).symm
    exact ⟨d', hmessage ▸ hends.run, hends.stored rfl (List.cons_ne_nil _ _)⟩

end Analysis

end PluginGuard
