import Mathlib.Data.List.Basic
import PluginGuard.Proofs.Scan.Stored
import PluginGuard.Scan.Analysis

/-!
# Analyses that are run again

Where scanners that fail are passed over, an analysis answers for each of them what
the record held before or what the scanner says, and stores just that. So the next
analysis finds every answer in its record and has only those scanners to run that
have failed.
-/
namespace PluginGuard

namespace Analysis

open Scan OnDisk

variable {a : Analysis} {contents : Contents} {s : Scanner} {before rest : List Scanner}
  {p p₁ p₂ : Progress} {d d₁ d₂ : Disk}

/-- What is known of a plugin once a scanner had its turn: what was known before, or
what the scanner says. -/
def result? (contents : Contents) (known : Table ScanResult) (s : Scanner) : Option ScanResult :=
  match known.find? s.name with
  | some r => some r
  | none => (s.run contents).toOption

def outcome? (a : Analysis) (contents : Contents) (known : Table ScanResult) (s : Scanner) :
    Option ScanOutcome :=
  (result? contents known s).map fun r => a.outcome s.name r (known.find? s.name).isSome

theorem result?_congr {known known' : Table ScanResult}
    (h : known.find? s.name = known'.find? s.name) :
    result? contents known s = result? contents known' s := by
  rw [result?, result?, h]

theorem outcome?_congr {known known' : Table ScanResult}
    (h : known.find? s.name = known'.find? s.name) :
    a.outcome? contents known s = a.outcome? contents known' s := by
  rw [outcome?, outcome?, result?_congr h, h]

structure Advances (a : Analysis) (contents : Contents) (scanners : List Scanner)
    (p : Progress) (d : Disk) (p' : Progress) (d' : Disk) : Prop where
  outcomes : p'.outcomes =
    p.outcomes ++ scanners.filterMap (a.outcome? contents p.record.results)
  results : ∀ s ∈ scanners,
    p'.record.results.find? s.name = result? contents p.record.results s
  others : ∀ name ∉ scanners.map (·.name),
    p'.record.results.find? name = p.record.results.find? name
  rest : p'.record = { p.record with results := p'.record.results }
  stored : p'.storing = true →
    p.storing = true ∧ (p'.record = p.record ∧ d' = d ∨ a.cache.Holds d' p'.record)

theorem Advances.nil : Advances a contents [] p d p d where
  outcomes := by simp
  results := by simp
  others := by simp
  rest := rfl
  stored h := ⟨h, .inl ⟨rfl, rfl⟩⟩

/-- Names are distinct, so nobody behind looks up what the scanners in front have found. -/
theorem Advances.find?_of_mem (h : Advances a contents before p d p₁ d₁)
    (hnames : ∀ t ∈ before, t.name ∉ rest.map (·.name)) {t : Scanner} (ht : t ∈ rest) :
    p₁.record.results.find? t.name = p.record.results.find? t.name := by
  refine h.others t.name fun hmem => ?_
  obtain ⟨t', ht', hname⟩ := List.mem_map.mp hmem
  exact hnames t' ht' (hname ▸ List.mem_map_of_mem ht)

theorem Advances.append (h : Advances a contents before p d p₁ d₁)
    (hrest : Advances a contents rest p₁ d₁ p₂ d₂)
    (hnames : ∀ t ∈ before, t.name ∉ rest.map (·.name)) :
    Advances a contents (before ++ rest) p d p₂ d₂ := by
  have hfind : ∀ t ∈ rest, p₁.record.results.find? t.name = p.record.results.find? t.name :=
    fun t ht => h.find?_of_mem hnames ht
  refine ⟨?_, ?_, ?_, ?_, ?_⟩
  · have houtcome : rest.filterMap (a.outcome? contents p₁.record.results) =
        rest.filterMap (a.outcome? contents p.record.results) :=
      List.filterMap_congr fun t ht => outcome?_congr (hfind t ht)
    rw [hrest.outcomes, h.outcomes, houtcome, List.append_assoc, ← List.filterMap_append]
  · intro t ht
    rcases List.mem_append.mp ht with ht | ht
    · rw [hrest.others _ (hnames t ht), h.results t ht]
    · rw [hrest.results t ht, result?_congr (hfind t ht)]
  · intro name hmem
    rw [List.map_append, List.mem_append, not_or] at hmem
    rw [hrest.others name hmem.2, h.others name hmem.1]
  · rw [hrest.rest, h.rest]
  · intro hstoring
    obtain ⟨hstoring₁, hrest'⟩ := hrest.stored hstoring
    obtain ⟨hstoring₀, hfirst⟩ := h.stored hstoring₁
    refine ⟨hstoring₀, ?_⟩
    rcases hrest' with ⟨hrecord, hdisk⟩ | hholds
    · rw [hrecord, hdisk]
      exact hfirst
    · exact .inr hholds

theorem Advances.cons (h : Advances a contents [s] p d p₁ d₁)
    (hrest : Advances a contents rest p₁ d₁ p₂ d₂) (hname : s.name ∉ rest.map (·.name)) :
    Advances a contents (s :: rest) p d p₂ d₂ :=
  h.append hrest (List.forall_mem_singleton.mpr hname)

theorem run_store (a : Analysis) (p : Progress) (d : Disk) :
    ∃ storing d', (a.store p : OnDisk _).run d = ({ p with storing := storing }, d') ∧
      (storing = true → p.storing = true ∧ a.cache.Holds d' p.record) := by
  unfold store
  by_cases hstoring : p.storing
  · rw [if_pos hstoring, run_bind]
    cases hpersist : (a.cache.persist p.record : OnDisk _).run d with
    | mk answer d' =>
      cases answer with
      | ok _ => exact ⟨p.storing, d', rfl, fun h => ⟨h, Cache.holds_of_persist hpersist⟩⟩
      | error e => exact ⟨false, d', rfl, by simp⟩
  · rw [if_neg hstoring]
    exact ⟨p.storing, d, rfl, fun h => absurd h hstoring⟩

theorem run_runScanner (hpolicy : a.failurePolicy = .carryOn) (contents : Contents)
    (s : Scanner) (p : Progress) (d : Disk) :
    ∃ p' d', (a.runScanner contents s p : OnDisk _).run d = (.ok p', d') ∧
      Advances a contents [s] p d p' d' := by
  unfold runScanner
  cases hknown : p.record.results.find? s.name with
  | some r =>
    refine ⟨_, d, rfl, ⟨?_, ?_, fun _ _ => rfl, rfl, fun h => ⟨h, .inl ⟨rfl, rfl⟩⟩⟩⟩
    · simp [outcome?, result?, hknown, Progress.add]
    · simp [result?, hknown, Progress.add]
  | none =>
    cases hrun : s.run contents with
    | ok r =>
      obtain ⟨storing, d', hstore, hholds⟩ := run_store a (p.keep s.name r) d
      simp only [run_bind, hstore]
      refine ⟨_, d', rfl, ⟨?_, ?_, ?_, rfl, ?_⟩⟩
      · simp [outcome?, result?, hknown, hrun, Progress.add, Progress.keep, Except.toOption]
      · simp [result?, hknown, hrun, Progress.add, Progress.keep, Except.toOption,
          Table.find?_insert_self]
      · intro name hname
        have hne : s.name ≠ name := fun h => hname (by simp [h])
        exact Table.find?_insert_of_ne hne _ _
      · intro h
        obtain ⟨hstoring, hholds⟩ := hholds h
        exact ⟨hstoring, .inr hholds⟩
    | error message =>
      rw [hpolicy]
      refine ⟨p, d, rfl, ⟨?_, ?_, fun _ _ => rfl, rfl, fun h => ⟨h, .inl ⟨rfl, rfl⟩⟩⟩⟩
      · simp [outcome?, result?, hknown, hrun, Except.toOption]
      · simp [result?, hknown, hrun, Except.toOption]

theorem run_runScanners (hpolicy : a.failurePolicy = .carryOn) (contents : Contents)
    {scanners : List Scanner} (hnames : (scanners.map (·.name)).Nodup) (p : Progress) (d : Disk) :
    ∃ p' d', (a.runScanners contents scanners p : OnDisk _).run d = (.ok p', d') ∧
      Advances a contents scanners p d p' d' := by
  induction scanners generalizing p d with
  | nil => exact ⟨p, d, rfl, .nil⟩
  | cons s rest ih =>
    rw [List.map_cons, List.nodup_cons] at hnames
    obtain ⟨p₁, d₁, hfirst, hadvances⟩ := run_runScanner hpolicy contents s p d
    obtain ⟨p₂, d₂, hrest, hadvances'⟩ := ih hnames.2 p₁ d₁
    refine ⟨p₂, d₂, ?_, hadvances.cons hadvances' hnames.1⟩
    rw [runScanners, run_bind, hfirst]
    exact hrest

def examine (a : Analysis) (archive : Archive) (now : Instant) :
    OnDisk (Except AnalysisError Progress) := do
  let loaded ← a.cache.load archive.contentHash now
  a.runScanners (Contents.ofArchive archive) a.enabledScanners ⟨loaded.record, true, []⟩

theorem run_analyze (a : Analysis) (archive : Archive) (now : Instant) (d : Disk) :
    (a.analyze archive now : OnDisk _).run d =
      (((a.examine archive now).run d).1.map (·.outcomes), ((a.examine archive now).run d).2) :=
  rfl

theorem nodup_enabledScanners (hnames : (a.scanners.map (·.name)).Nodup) :
    (a.enabledScanners.map (·.name)).Nodup :=
  hnames.sublist (List.filter_sublist.map _)

theorem run_examine (hnames : (a.scanners.map (·.name)).Nodup)
    (hpolicy : a.failurePolicy = .carryOn) {archive : Archive} {now : Instant}
    {loaded : Cache.Loaded}
    (hload : (a.cache.load archive.contentHash now : OnDisk _).run d = (loaded, d₁)) :
    ∃ p d₂, (a.examine archive now).run d = (.ok p, d₂) ∧
      Advances a (Contents.ofArchive archive) a.enabledScanners
        ⟨loaded.record, true, []⟩ d₁ p d₂ := by
  obtain ⟨p, d₂, hrun, hadvances⟩ := run_runScanners hpolicy
    (Contents.ofArchive archive) (nodup_enabledScanners hnames) ⟨loaded.record, true, []⟩ d₁
  refine ⟨p, d₂, ?_, hadvances⟩
  rw [examine, run_bind, hload]
  exact hrun

/-! ### The next analysis -/

def pending (a : Analysis) (r : InspectionRecord) : List Scanner :=
  a.enabledScanners.filter fun s => (r.results.find? s.name).isNone

def failing (a : Analysis) (contents : Contents) (r : InspectionRecord) : List Scanner :=
  (a.pending r).filter fun s => (s.run contents).toOption.isNone

def cached (o : ScanOutcome) : ScanOutcome := { o with fromCache := true }

theorem pending_eq_failing {r r' : InspectionRecord}
    (h : ∀ s ∈ a.enabledScanners, r'.results.find? s.name = result? contents r.results s) :
    a.pending r' = a.failing contents r := by
  rw [pending, failing, pending, List.filter_filter]
  refine List.filter_congr fun s hs => ?_
  rw [h s hs, result?]
  cases r.results.find? s.name <;> simp

theorem enabledScanners_map {other : Scanner → Scanner} (hother : ∀ s, (other s).name = s.name) :
    ({ a with scanners := a.scanners.map other }).enabledScanners =
      a.enabledScanners.map other := by
  rw [enabledScanners, enabledScanners, List.filter_map]
  simp only [Function.comp_def, hother]

theorem outcomes_again {r r' : InspectionRecord} {other : Scanner → Scanner}
    (h : ∀ s ∈ a.enabledScanners, r'.results.find? s.name = result? contents r.results s)
    (hother : ∀ s, (other s).name = s.name)
    (hfailing : ∀ s ∈ a.failing contents r, other s = s) :
    (a.enabledScanners.map other).filterMap (a.outcome? contents r'.results) =
      (a.enabledScanners.filterMap (a.outcome? contents r.results)).map cached := by
  rw [List.filterMap_map, List.map_filterMap]
  refine List.filterMap_congr fun s hs => ?_
  have hknown := h s hs
  rw [Function.comp_apply, outcome?, outcome?, hother, result?, hother, hknown]
  cases hresult : result? contents r.results s with
  | some x => rfl
  | none =>
    have hmem : s ∈ a.failing contents r := by
      rw [← pending_eq_failing h, pending, List.mem_filter, hknown, hresult]
      exact ⟨hs, rfl⟩
    rw [hfailing s hmem]
    rw [result?] at hresult
    split at hresult
    · cases hresult
    · simp only [hresult, Option.map_none]

theorem Advances.outcomes_eq_nil {scanners : List Scanner} {r : InspectionRecord}
    (h : Advances a contents scanners ⟨r, true, []⟩ d p d₁) (hempty : r.results = .empty)
    (hrecord : p.record = r) : p.outcomes = [] := by
  rw [h.outcomes, List.nil_append, List.filterMap_eq_nil_iff]
  intro s hs
  have hresult := h.results s hs
  rw [hrecord, hempty] at hresult
  rw [outcome?, hempty, ← hresult]
  rfl

theorem results_of_load_again {hash : String} {now later : Instant}
    {loaded reloaded : Cache.Loaded} {d₃ : Disk} (hload : a.cache.Loads hash now d loaded d₁)
    (h : Advances a contents a.enabledScanners ⟨loaded.record, true, []⟩ d₁ p d₂)
    (hreload : a.cache.Loads hash later d₂ reloaded d₃)
    (hstoring : p.storing = true)
    (hbytes : InspectionRecord.ofBytes? p.record.toBytes = some p.record)
    (htime : a.cache.InTime later p.record)
    (hrefused : p.outcomes = [] → loaded.miss.any Cache.Miss.isDated → reloaded.miss ≠ none) :
    reloaded.record.results = p.record.results := by
  obtain ⟨-, ⟨hsame, rfl⟩ | hholds⟩ := h.stored hstoring
  · have hsame : p.record = loaded.record := hsame
    rw [hsame] at htime ⊢
    refine hload.results_again hreload htime fun hdated => hrefused ?_ hdated
    refine h.outcomes_eq_nil (hload.results ?_) hsame
    intro hmiss
    rw [hmiss] at hdated
    cases hdated
  · obtain ⟨hhash, hversion⟩ := hload.about
    have hrest : p.record = { loaded.record with results := p.record.results } := h.rest
    have hhash' : hash = p.record.contentHash := by rw [hrest, hhash]
    have hversion' : p.record.version = a.cache.version := by rw [hrest, hversion]
    rw [hholds.record hbytes hversion' htime (hhash' ▸ hreload)]

/-- Once everything that scanners found has been stored, only those that failed have to run
again; the others might be replaced by any, and their outcomes come from the cache.
Where nothing was found there is nothing stored, so a record that was out of its time has to
stay so or be gone. -/
theorem analyze_again (a : Analysis) (hnames : (a.scanners.map (·.name)).Nodup)
    (hpolicy : a.failurePolicy = .carryOn) (archive : Archive) (now : Instant) (d : Disk) :
    let contents := Contents.ofArchive archive
    let loaded := ((a.cache.load archive.contentHash now : OnDisk _).run d).1
    ∃ p d', (a.examine archive now).run d = (.ok p, d') ∧
      (a.analyze archive now : OnDisk _).run d = (.ok p.outcomes, d') ∧
      ∀ later : Instant,
        let reloaded := ((a.cache.load archive.contentHash later : OnDisk _).run d').1
        p.storing = true →
        InspectionRecord.ofBytes? p.record.toBytes = some p.record →
        a.cache.InTime later p.record →
        (p.outcomes = [] → loaded.miss.any Cache.Miss.isDated → reloaded.miss ≠ none) →
        a.pending reloaded.record = a.failing contents loaded.record ∧
        ∀ other : Scanner → Scanner, (∀ s, (other s).name = s.name) →
          (∀ s ∈ a.failing contents loaded.record, other s = s) →
          let again : Analysis := { a with scanners := a.scanners.map other }
          ((again.analyze archive later : OnDisk _).run d').1 = .ok (p.outcomes.map cached) := by
  intro contents loaded
  have hload : (a.cache.load archive.contentHash now : OnDisk _).run d = (loaded, _) := rfl
  obtain ⟨p, d', hexamine, hadvances⟩ := run_examine hnames hpolicy hload
  refine ⟨p, d', hexamine, ?_, ?_⟩
  · rw [run_analyze, hexamine]
    rfl
  · intro later reloaded hstoring hbytes htime hrefused
    have hagain := results_of_load_again (Cache.loads ..) hadvances (Cache.loads ..)
      hstoring hbytes htime hrefused
    have hknown : ∀ s ∈ a.enabledScanners,
        reloaded.record.results.find? s.name = result? contents loaded.record.results s := by
      intro s hs
      rw [hagain]
      exact hadvances.results s hs
    refine ⟨pending_eq_failing hknown, fun other hother hfailing => ?_⟩
    intro again
    have hnames' : ((a.scanners.map other).map (·.name)).Nodup := by
      simpa [Function.comp_def, hother] using hnames
    have hreload : (a.cache.load archive.contentHash later : OnDisk _).run d' = (reloaded, _) := rfl
    obtain ⟨q, d'', hexamine', hadvances'⟩ := run_examine (a := again) hnames' hpolicy hreload
    rw [run_analyze, hexamine']
    have houtcomes := hadvances'.outcomes
    rw [List.nil_append, enabledScanners_map hother] at houtcomes
    have hcached := outcomes_again hknown hother hfailing
    rw [hadvances.outcomes, List.nil_append, ← hcached]
    exact congrArg Except.ok houtcomes

def half : Analysis where
  scanners := [.ofClasses "a" .standard fun _ f => .ok f,
    { Scanner.ofClasses "b" .standard fun _ f => .ok f with visit := fun _ _ => .failed "" }]
  cache := ⟨⟨"/c"⟩, 0, ""⟩
  settings := .unset
  failurePolicy := .carryOn

def oneClass : Archive where
  path := ⟨"/p.jar"⟩
  name := none
  descriptor := none
  classes := [⟨"A.class", [0xca, 0xfe, 0xba, 0xbe, 0, 0, 0, 52, 0, 3, 7, 0, 2, 1, 0, 1, 65,
    0, 0, 0, 1, 0, 0, 0, 0, 0, 0, 0, 0, 0, 0]⟩]
  unreadable := []
  contentHash := "a"

theorem analyze_again_half :
    let again := (half.analyze oneClass (.ofNanosSince1970 0) : OnDisk _)
    (again.run ⟨⟨"/"⟩, .empty, []⟩).1 = .ok [half.outcome "a" .clean false] ∧
      (again.run (again.run ⟨⟨"/"⟩, .empty, []⟩).2).1 = .ok [half.outcome "a" .clean true] := by
  intro again
  obtain ⟨p, d', hexamine, hanalyze, hagain⟩ := analyze_again half (by decide) rfl oneClass
    (.ofNanosSince1970 0) ⟨⟨"/"⟩, .empty, []⟩
  have hp : p = ⟨⟨.ofNanosSince1970 0, "", "a", ⟨[("a", .clean)]⟩⟩, true,
      [half.outcome "a" .clean false]⟩ := by
    have hfirst : ((half.examine oneClass (.ofNanosSince1970 0)).run ⟨⟨"/"⟩, .empty, []⟩).1 =
        .ok ⟨⟨.ofNanosSince1970 0, "", "a", ⟨[("a", .clean)]⟩⟩, true,
          [half.outcome "a" .clean false]⟩ := by decide +kernel
    rw [hexamine] at hfirst
    exact Except.ok.inj hfirst
  subst hp
  obtain ⟨-, hother⟩ := hagain (.ofNanosSince1970 0) rfl (by decide +kernel)
    ⟨by decide, by decide⟩ (fun h => absurd h (List.cons_ne_nil _ _))
  refine ⟨by rw [hanalyze], ?_⟩
  rw [hanalyze]
  exact hother id (fun _ => rfl) (fun _ _ => rfl)

def failingOnly : Analysis :=
  { half with scanners := half.scanners.drop 1, cache := ⟨⟨"/c"⟩, 30, ""⟩ }

def earlier : InspectionRecord := ⟨.ofNanosSince1970 5, "", "a", ⟨[("b", .clean)]⟩⟩

/-- The disk after the record has been stored. The next request fails or does not. -/
def diskWithEarlier (refused : Bool) : Disk :=
  ((failingOnly.cache.persist earlier : OnDisk _).run
    ⟨⟨"/"⟩, .empty, [false, false, false, refused]⟩).2

theorem holds_earlier (refused : Bool) :
    failingOnly.cache.Holds (diskWithEarlier refused) earlier := by
  refine Cache.holds_of_persist (d := ⟨⟨"/"⟩, .empty, [false, false, false, refused]⟩)
    (Prod.ext ?_ rfl)
  cases refused with
  | true => decide +kernel
  | false => decide +kernel

theorem ofBytes?_earlier : InspectionRecord.ofBytes? earlier.toBytes = some earlier := by
  decide +kernel

theorem examine_of_refused {now : Instant} (miss : Cache.Miss)
    (hload : (failingOnly.cache.load "a" now : OnDisk _).run d =
      (⟨.fresh "a" "" now, some miss⟩, d₁)) :
    (failingOnly.examine oneClass now).run d = (.ok ⟨.fresh "a" "" now, true, []⟩, d₁) := by
  rw [examine, run_bind, show oneClass.contentHash = "a" from rfl, hload]
  rfl

theorem analyze_of_holds {now : Instant} (h : failingOnly.cache.Holds d earlier)
    (htime : failingOnly.cache.InTime now earlier) :
    ((failingOnly.analyze oneClass now : OnDisk _).run d).1 =
      .ok [failingOnly.outcome "b" .clean true] := by
  have hloaded := h.record ofBytes?_earlier rfl htime (failingOnly.cache.loads "a" now d)
  rw [run_analyze, examine, run_bind, show oneClass.contentHash = "a" from rfl, hloaded]
  rfl

/-- The scanner fails, nothing is stored, and yet the next analysis has an answer: the record that
was refused for its date is still there, since it could not be removed when it was from the future,
and is not removed when it has expired, and by then it is in its time. -/
theorem answered_after_failure :
    let begun := Instant.ofNanosSince1970 1
    let later := Instant.ofNanosSince1970 5
    let expired := Instant.ofNanosSince1970 (Instant.nanosOfDays 31).toNat
    let kept := (failingOnly.examine oneClass begun).run (diskWithEarlier true)
    let left := (failingOnly.examine oneClass expired).run (diskWithEarlier false)
    kept.1 = .ok ⟨.fresh "a" "" begun, true, []⟩ ∧
      InspectionRecord.ofBytes? (InspectionRecord.fresh "a" "" begun).toBytes =
        some (.fresh "a" "" begun) ∧
      failingOnly.cache.InTime later (.fresh "a" "" begun) ∧
      failingOnly.cache.InTime later earlier ∧
      ((failingOnly.analyze oneClass later : OnDisk _).run kept.2).1 =
        .ok [failingOnly.outcome "b" .clean true] ∧
      left.1 = .ok ⟨.fresh "a" "" expired, true, []⟩ ∧
      ((failingOnly.analyze oneClass later : OnDisk _).run left.2).1 =
        .ok [failingOnly.outcome "b" .clean true] := by
  intro begun later expired kept left
  have htime : failingOnly.cache.InTime later earlier := ⟨by decide, by decide⟩
  have hrefused : (diskWithEarlier true).failures = [true] := by decide +kernel
  have hremove : ((FileSystem.remove (failingOnly.cache.recordPath "a") : OnDisk _).run
      (diskWithEarlier true)).2 = { diskWithEarlier true with failures := [] } := by
    change ((request _).run (diskWithEarlier true)).2 = _
    simp only [request, StateT.run, hrefused]
    rfl
  have hkept : kept = (.ok ⟨.fresh "a" "" begun, true, []⟩,
      { diskWithEarlier true with failures := [] }) := by
    refine examine_of_refused (.future earlier.created) ?_
    rw [← hremove]
    exact (holds_earlier true).run_load ofBytes?_earlier (by decide)
  have hleft : left = (.ok ⟨.fresh "a" "" expired, true, []⟩, diskWithEarlier false) :=
    examine_of_refused .expired
      ((holds_earlier false).run_load ofBytes?_earlier (by decide))
  rw [hkept, hleft]
  exact ⟨rfl, by decide +kernel, ⟨by decide, by decide⟩, htime,
    analyze_of_holds ((holds_earlier true).with_failures []) htime, rfl,
    analyze_of_holds (holds_earlier false) htime⟩

end Analysis

end PluginGuard
