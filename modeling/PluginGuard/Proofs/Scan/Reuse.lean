import PluginGuard.Proofs.Disk.Contents
import PluginGuard.Proofs.Scan.Isolation

/-!
# Records that are used again

A result comes from the cache only out of a record that is about the archive, was made by this
version and is in its time. Where there is no such record an analysis goes as if there were none,
whatever the directory holds, and a record that cannot be what it claims does not outlast it.
-/
namespace PluginGuard

namespace Disk

open Function (update)

variable {d d' d₁ d₂ : Disk} {place other : String} {bytes : List UInt8}
  {new new' : List UInt8 → Prop} {files : String → Option (List UInt8)}

/-- Files may be gone, and those that are new hold nothing else. -/
structure Adds (d : Disk) (new : List UInt8 → Prop) (d' : Disk) : Prop where
  keeps : d.Keeps d'
  files : ∀ {place bytes}, d'.fileAt? place = some bytes → d.fileAt? place = some bytes ∨ new bytes

theorem Becomes.adds (h : d.Becomes files d')
    (hfiles : ∀ {place bytes}, files place = some bytes →
      d.fileAt? place = some bytes ∨ new bytes) :
    d.Adds new d' :=
  ⟨h.keeps, fun hfile => hfiles (h.files ▸ hfile)⟩

theorem Opens.adds (h : d.Opens d') : d.Adds new d' :=
  ⟨h.keeps, fun hfile => .inl (h.files ▸ hfile)⟩

theorem Adds.trans (h : d.Adds new d₁) (h' : d₁.Adds new d₂) : d.Adds new d₂ :=
  ⟨h.keeps.trans h'.keeps, fun hfile => (h'.files hfile).elim h.files .inr⟩

theorem Adds.mono (h : d.Adds new d') (hnew : ∀ bytes, new bytes → new' bytes) : d.Adds new' d' :=
  ⟨h.keeps, fun hfile => (h.files hfile).imp_right (hnew _)⟩

theorem eq_some_of_update {content : Option (List UInt8)}
    (h : update files place content other = some bytes) :
    files other = some bytes ∨ content = some bytes := by
  by_cases hplace : other = place
  · rw [hplace, Function.update_self] at h
    exact .inr h
  · rw [Function.update_of_ne hplace] at h
    exact .inl h

end Disk

namespace Cache

open OnDisk

variable {c : Cache} {r : InspectionRecord} {hash name : String} {now : Instant} {d d' : Disk}
  {x : ScanResult} {bytes : List UInt8}

structure Valid (c : Cache) (hash : String) (now : Instant) (r : InspectionRecord) : Prop where
  about : r.contentHash = hash
  version : r.version = c.version
  time : c.InTime now r

def Knows (c : Cache) (d : Disk) (hash : String) (now : Instant) (name : String)
    (x : ScanResult) : Prop :=
  ∃ r, c.stored? d hash = some r ∧ c.Valid hash now r ∧ r.results.find? name = some x

/-- What stands in the file of a hash cannot be what it claims to be. -/
inductive Untrue (c : Cache) (hash : String) (now : Instant) (bytes : List UInt8) : Prop
  | unreadable : InspectionRecord.ofBytes? bytes = none → Untrue c hash now bytes
  | otherHash {r : InspectionRecord} : InspectionRecord.ofBytes? bytes = some r →
      r.contentHash ≠ hash → Untrue c hash now bytes
  | future {r : InspectionRecord} : InspectionRecord.ofBytes? bytes = some r →
      r.version = c.version → now.before r.created = true → Untrue c hash now bytes

theorem find_eq_ok_iff_valid : ((c.find hash now : OnDisk _).run d).1 = .ok r ↔
    c.stored? d hash = some r ∧ c.Valid hash now r := by
  rw [find_eq_ok_iff]
  exact and_congr_right fun _ => ⟨fun ⟨h, h', h''⟩ => ⟨h, h', h''⟩, fun h => ⟨h.1, h.2, h.3⟩⟩

/-! ### Loads -/

theorem Loads.find?_eq_some_iff {loaded : Loaded} (h : c.Loads hash now d loaded d') :
    loaded.record.results.find? name = some x ↔ c.Knows d hash now name x := by
  cases h with
  | @found r hfind =>
    obtain ⟨hstored, hvalid⟩ := find_eq_ok_iff_valid.mp hfind
    constructor
    · intro hx
      exact ⟨r, hstored, hvalid, hx⟩
    · rintro ⟨r', hstored', -, hx⟩
      rw [hstored] at hstored'
      cases hstored'
      exact hx
  | missed hfind hread =>
    constructor
    · intro hx
      cases hx
    · rintro ⟨r, hstored, hvalid, -⟩
      rw [find_eq_ok_iff_valid.mpr ⟨hstored, hvalid⟩] at hfind
      cases hfind

theorem Loads.record_of_invalid {loaded : Loaded} (h : c.Loads hash now d loaded d')
    (hnone : ¬∃ r, c.stored? d hash = some r ∧ c.Valid hash now r) :
    loaded.record = .fresh hash c.version now := by
  cases h with
  | found hfind => exact absurd ⟨_, find_eq_ok_iff_valid.mp hfind⟩ hnone
  | missed hfind hread => rfl

theorem isCorrupt_of_untrue (h : c.Untrue hash now bytes) :
    ∃ miss, c.accept hash now bytes = .error miss ∧ miss.isCorrupt = true := by
  cases h with
  | unreadable hbytes => exact ⟨.unreadable, by simp [accept, hbytes], rfl⟩
  | @otherHash r hbytes hhash =>
    exact ⟨.otherHash r.contentHash, by simp [accept, hbytes, refusal?, hhash], rfl⟩
  | @future r hbytes hversion hfuture =>
    by_cases hhash : r.contentHash = hash
    · exact ⟨.future r.created, by simp [accept, hbytes, refusal?, hhash, hversion, hfuture], rfl⟩
    · exact ⟨.otherHash r.contentHash, by simp [accept, hbytes, refusal?, hhash], rfl⟩

theorem run_load_of_untrue (hhash : isHash hash = true)
    (hread : d.read (c.recordPath hash) = .ok bytes) (h : c.Untrue hash now bytes) :
    ((c.load hash now : OnDisk _).run d).1.record = .fresh hash c.version now ∧
      ((c.load hash now : OnDisk _).run d).2 =
        ((FileSystem.remove (c.recordPath hash) : OnDisk _).run d).2 := by
  obtain ⟨miss, haccept, hcorrupt⟩ := isCorrupt_of_untrue h
  have hfind : (c.find hash now : OnDisk _).run d = (.error miss, d) := by
    rw [find, if_pos hhash, run_bind, run_read, hread]
    exact congrArg (·, d) haccept
  rw [load, run_bind, hfind]
  simp only [hcorrupt, if_true]
  exact ⟨rfl, rfl⟩

theorem load_of_not_isHash {m : Type → Type} [Monad m] [LawfulMonad m] [FileSystem m]
    (h : isHash hash = false) (now : Instant) :
    (c.load hash now : m Loaded) = pure ⟨.fresh hash c.version now, some .absent⟩ := by
  have hfind : (c.find hash now : m _) = pure (.error .absent) := by
    rw [find, h, if_neg Bool.false_ne_true]
  rw [load, hfind, pure_bind]
  simp [Miss.isCorrupt]

/-! ### What is stored -/

theorem adds_of_run_write {p : Path}
    (h : (FileSystem.write p bytes : OnDisk _).run d = (.ok (), d')) : d.Adds (· = bytes) d' := by
  obtain ⟨place, -, hbecomes⟩ := becomes_of_run_write h
  refine hbecomes.adds fun hfile => ?_
  exact (Disk.eq_some_of_update hfile).imp_right fun hsome => (Option.some.inj hsome).symm

theorem adds_of_run_rename {p q : Path} (hread : d.read p = .ok bytes)
    (h : (FileSystem.rename p q : OnDisk _).run d = (.ok (), d')) : d.Adds (· = bytes) d' := by
  obtain ⟨source, content, target, hfind, -, hbecomes⟩ :=
    becomes_of_run_rename h (by simp [Disk.kind_of_read hread])
  rw [Disk.read, hfind] at hread
  obtain rfl : content = bytes := Except.ok.inj hread
  refine hbecomes.adds fun hfile => ?_
  obtain hfile | hsome := Disk.eq_some_of_update hfile
  · obtain hfile | hnone := Disk.eq_some_of_update hfile
    · exact .inl hfile
    · cases hnone
  · exact .inr (Option.some.inj hsome).symm

theorem adds_persist (c : Cache) (r : InspectionRecord) (d : Disk) :
    d.Adds (· = r.toBytes) ((c.persist r : OnDisk _).run d).2 := by
  unfold persist
  split
  · rw [run_bind]
    have hmake := opens_of_run_makeDirectory c.directory d
    rw [← run_about_snd c.directory] at hmake
    generalize (AnalysisError.about c.directory (FileSystem.makeDirectory c.directory)
      : OnDisk _).run d = made at hmake
    obtain ⟨e | _, d₁⟩ := made
    · exact hmake.adds
    · rw [run_bind]
      refine hmake.adds.trans ?_
      generalize hwrite : (AnalysisError.about (c.draftPath r.contentHash)
        (FileSystem.write (c.draftPath r.contentHash) r.toBytes) : OnDisk _).run d₁ = written
      obtain ⟨e | _, d₂⟩ := written
      · obtain ⟨e, -, hwrite⟩ := run_about_eq_error hwrite
        exact (becomes_of_request_error hwrite).opens.adds
      · have hwrite := run_about_eq_ok hwrite
        refine (adds_of_run_write hwrite).trans ?_
        rw [run_about_snd]
        generalize hrename : (FileSystem.rename (c.draftPath r.contentHash)
          (c.recordPath r.contentHash) : OnDisk _).run d₂ = renamed
        obtain ⟨e | _, d₃⟩ := renamed
        · exact (becomes_of_request_error hrename).opens.adds
        · exact adds_of_run_rename (read_of_run_write hwrite) hrename
  · exact (Disk.opens_self d).adds

end Cache

namespace Analysis

open Scan OnDisk

variable {a : Analysis} {contents : Contents} {s : Scanner} {scanners : List Scanner}
  {p p' q : Progress} {d d' : Disk} {archive : Archive} {now : Instant}

/-! ### Answers from the cache -/

theorem advances_of_runScanner
    (h : (a.runScanner contents s p : OnDisk _).run d = (.ok p', d')) :
    Advances a contents [s] p d p' d' := by
  cases hpolicy : a.failurePolicy with
  | carryOn =>
    obtain ⟨p₁, d₁, hrun, hadvances⟩ := run_runScanner hpolicy contents s p d
    rw [hrun] at h
    cases h
    exact hadvances
  | shutdown =>
    cases hresult : result? contents p.record.results s with
    | none =>
      obtain ⟨hknown, message, hfails⟩ := result?_eq_none_iff.mp hresult
      rw [run_runScanner_of_shutdown hpolicy hknown hfails] at h
      cases h
    | some r =>
      obtain ⟨p₁, d₁, hrun, hadvances⟩ := run_runScanner (a := a.carryingOn) rfl contents s p d
      rw [runScanner_carryingOn (by simp [hresult]), h] at hrun
      cases hrun
      exact hadvances.of_carryingOn

theorem advances_of_runScanners (hnames : (scanners.map (·.name)).Nodup)
    (h : (a.runScanners contents scanners p : OnDisk _).run d = (.ok p', d')) :
    Advances a contents scanners p d p' d' := by
  induction scanners generalizing p d with
  | nil =>
    cases h
    exact .nil
  | cons s rest ih =>
    rw [List.map_cons, List.nodup_cons] at hnames
    rw [runScanners, run_bind] at h
    generalize hfirst : (a.runScanner contents s p : OnDisk _).run d = first at h
    obtain ⟨e | p₁, d₁⟩ := first
    · cases h
    · exact (advances_of_runScanner hfirst).cons (ih hnames.2 h) hnames.1

theorem find?_of_fromCache {known : Table ScanResult} {o : ScanOutcome}
    (h : a.outcome? contents known s = some o) (hcache : o.fromCache = true) :
    known.find? o.scanner = some o.result := by
  rw [outcome?, Option.map_eq_some_iff] at h
  obtain ⟨r, hresult, rfl⟩ := h
  obtain ⟨x, hx⟩ := Option.isSome_iff_exists.mp hcache
  rw [result?, hx] at hresult
  cases hresult
  exact hx

/-! ### Analyses on other disks -/

def Progress.found (p : Progress) : InspectionRecord × List ScanOutcome := (p.record, p.outcomes)

theorem found_runScanner (a : Analysis) (contents : Contents) (h : p.found = q.found)
    (s : Scanner) (d d' : Disk) :
    ((a.runScanner contents s p : OnDisk _).run d).1.map Progress.found =
      ((a.runScanner contents s q : OnDisk _).run d').1.map Progress.found := by
  obtain ⟨record, storing, outcomes⟩ := p
  obtain ⟨record', storing', outcomes'⟩ := q
  obtain ⟨rfl, rfl⟩ : record = record' ∧ outcomes = outcomes' := Prod.mk.inj h
  unfold runScanner
  cases hknown : record.results.find? s.name with
  | some r => rfl
  | none =>
    cases hrun : s.run contents with
    | ok r =>
      obtain ⟨kept, d₁, hstore, -⟩ :=
        run_store a ((Progress.mk record storing outcomes).keep s.name r) d
      obtain ⟨kept', d₁', hstore', -⟩ :=
        run_store a ((Progress.mk record storing' outcomes).keep s.name r) d'
      simp only [run_bind, hstore, hstore']
      rfl
    | error message => cases a.failurePolicy <;> rfl

theorem found_runScanners (h : p.found = q.found) (d d' : Disk) :
    ((a.runScanners contents scanners p : OnDisk _).run d).1.map Progress.found =
      ((a.runScanners contents scanners q : OnDisk _).run d').1.map Progress.found := by
  induction scanners generalizing p q d d' with
  | nil => exact congrArg Except.ok h
  | cons s rest ih =>
    have hfirst := found_runScanner a contents h s d d'
    rw [runScanners, runScanners, run_bind, run_bind]
    generalize (a.runScanner contents s p : OnDisk _).run d = first at hfirst
    generalize (a.runScanner contents s q : OnDisk _).run d' = first' at hfirst
    obtain ⟨e | p₁, d₁⟩ := first
    · obtain ⟨e' | q₁, d₁'⟩ := first'
      · exact congrArg Except.error (Except.error.inj hfirst)
      · cases hfirst
    · obtain ⟨e' | q₁, d₁'⟩ := first'
      · cases hfirst
      · exact ih (Except.ok.inj hfirst) d₁ d₁'

/-! ### Files that an analysis leaves -/

structure Grown (contents : Contents) (scanners : List Scanner) (r r' : InspectionRecord) :
    Prop where
  rest : r' = { r with results := r'.results }
  results : ∀ {name x}, r'.results.find? name = some x → r.results.find? name = some x ∨
    ∃ s ∈ scanners, s.name = name ∧ s.run contents = .ok x

theorem grown_self (contents : Contents) (scanners : List Scanner) (r : InspectionRecord) :
    Grown contents scanners r r := ⟨rfl, .inl⟩

theorem grown_keep {x : ScanResult} (h : s.run contents = .ok x) (p : Progress) :
    Grown contents [s] p.record (p.keep s.name x).record := by
  refine ⟨rfl, fun {name y} hfind => ?_⟩
  rw [Progress.keep, Table.find?_insert] at hfind
  split at hfind
  · rename_i hname
    cases hfind
    exact .inr ⟨s, List.mem_singleton_self s, hname.symm, h⟩
  · exact .inl hfind

theorem Grown.cons {r r₁ r₂ : InspectionRecord} (h : Grown contents [s] r r₁)
    (hrest : Grown contents scanners r₁ r₂) : Grown contents (s :: scanners) r r₂ := by
  refine ⟨hrest.rest.trans (by rw [h.rest]), fun hfind => ?_⟩
  obtain hfind | ⟨t, ht, hfound⟩ := hrest.results hfind
  · obtain hfind | ⟨t, ht, hfound⟩ := h.results hfind
    · exact .inl hfind
    · exact .inr ⟨t, List.mem_cons.mpr (.inl (List.mem_singleton.mp ht)), hfound⟩
  · exact .inr ⟨t, List.mem_cons_of_mem s ht, hfound⟩

/-- Bytes that some scanners may have had stored. -/
def Kept (contents : Contents) (scanners : List Scanner) (r : InspectionRecord)
    (bytes : List UInt8) : Prop :=
  ∃ r', bytes = r'.toBytes ∧ Grown contents scanners r r'

theorem Kept.cons_self {r : InspectionRecord} {bytes : List UInt8} (h : Kept contents [s] r bytes)
    (scanners : List Scanner) : Kept contents (s :: scanners) r bytes := by
  obtain ⟨r', hbytes, hr'⟩ := h
  exact ⟨r', hbytes, hr'.cons (grown_self contents scanners r')⟩

theorem Kept.cons {r r₁ : InspectionRecord} {bytes : List UInt8}
    (h : Kept contents scanners r₁ bytes) (hfirst : Grown contents [s] r r₁) :
    Kept contents (s :: scanners) r bytes := by
  obtain ⟨r', hbytes, hr'⟩ := h
  exact ⟨r', hbytes, hfirst.cons hr'⟩

theorem adds_store (a : Analysis) (p : Progress) (d : Disk) :
    d.Adds (· = p.record.toBytes) ((a.store p : OnDisk _).run d).2 := by
  unfold store
  split
  · rw [run_bind]
    have hpersist := Cache.adds_persist a.cache p.record d
    generalize (a.cache.persist p.record : OnDisk _).run d = answered at hpersist
    obtain ⟨e | _, d'⟩ := answered <;> exact hpersist
  · exact (Disk.opens_self d).adds

theorem adds_runScanner (a : Analysis) (contents : Contents) (s : Scanner) (p : Progress)
    (d : Disk) :
    d.Adds (Kept contents [s] p.record) ((a.runScanner contents s p : OnDisk _).run d).2 ∧
      ∀ p', ((a.runScanner contents s p : OnDisk _).run d).1 = .ok p' →
        Grown contents [s] p.record p'.record := by
  unfold runScanner
  cases hknown : p.record.results.find? s.name with
  | some r =>
    refine ⟨(Disk.opens_self d).adds, fun p' h => ?_⟩
    cases h
    exact grown_self contents [s] p.record
  | none =>
    cases hrun : s.run contents with
    | ok x =>
      have hgrown := grown_keep hrun p
      have hstore := adds_store a (p.keep s.name x) d
      obtain ⟨storing, d', hstored, -⟩ := run_store a (p.keep s.name x) d
      simp only [run_bind, hstored] at hstore ⊢
      refine ⟨hstore.mono fun bytes hbytes => ⟨_, hbytes, hgrown⟩, fun p' h => ?_⟩
      cases h
      exact hgrown
    | error message =>
      cases a.failurePolicy with
      | carryOn =>
        refine ⟨(Disk.opens_self d).adds, fun p' h => ?_⟩
        cases h
        exact grown_self contents [s] p.record
      | shutdown =>
        refine ⟨(Disk.opens_self d).adds, fun p' h => ?_⟩
        cases h

theorem adds_runScanners (a : Analysis) (contents : Contents) (scanners : List Scanner)
    (p : Progress) (d : Disk) :
    d.Adds (Kept contents scanners p.record)
      ((a.runScanners contents scanners p : OnDisk _).run d).2 := by
  induction scanners generalizing p d with
  | nil => exact (Disk.opens_self d).adds
  | cons s rest ih =>
    obtain ⟨hadds, hgrown⟩ := adds_runScanner a contents s p d
    have hfirst := hadds.mono fun bytes hkept => hkept.cons_self rest
    rw [runScanners, run_bind]
    generalize (a.runScanner contents s p : OnDisk _).run d = first at hfirst hgrown
    obtain ⟨e | p₁, d₁⟩ := first
    · exact hfirst
    · exact hfirst.trans ((ih p₁ d₁).mono fun bytes hkept => hkept.cons (hgrown p₁ rfl))

theorem knows_of_fromCache (hnames : (a.scanners.map (·.name)).Nodup)
    {outcomes : List ScanOutcome} {o : ScanOutcome}
    (h : ((a.analyze archive now : OnDisk _).run d).1 = .ok outcomes) (ho : o ∈ outcomes)
    (hcache : o.fromCache = true) :
    a.cache.Knows d archive.contentHash now o.scanner o.result := by
  have hload := Cache.loads a.cache archive.contentHash now d
  rw [run_analyze, examine, run_bind] at h
  generalize (a.cache.load archive.contentHash now : OnDisk _).run d = loaded at hload h
  generalize hrun : (a.runScanners (Contents.ofArchive archive) a.enabledScanners
    ⟨loaded.1.record, true, []⟩ : OnDisk _).run loaded.2 = ran at h
  obtain ⟨e | p, d'⟩ := ran
  · cases h
  · cases h
    have hadvances := advances_of_runScanners (nodup_enabledScanners hnames) hrun
    have ho : o ∈ p.outcomes := ho
    rw [hadvances.outcomes, List.nil_append] at ho
    obtain ⟨s, -, hs⟩ := List.mem_filterMap.mp ho
    exact hload.find?_eq_some_iff.mp (find?_of_fromCache hs hcache)

theorem found_examine {d₀ : Disk}
    (h : ¬∃ r, a.cache.stored? d archive.contentHash = some r ∧
      a.cache.Valid archive.contentHash now r)
    (h₀ : a.cache.stored? d₀ archive.contentHash = none) :
    ((a.examine archive now).run d).1.map Progress.found =
      ((a.examine archive now).run d₀).1.map Progress.found := by
  have hnone : ¬∃ r, a.cache.stored? d₀ archive.contentHash = some r ∧
      a.cache.Valid archive.contentHash now r := by
    rintro ⟨r, hr, -⟩
    rw [h₀] at hr
    cases hr
  have hrecord := (Cache.loads a.cache archive.contentHash now d).record_of_invalid h
  have hrecord₀ := (Cache.loads a.cache archive.contentHash now d₀).record_of_invalid hnone
  rw [examine, run_bind, run_bind, hrecord, hrecord₀]
  exact found_runScanners rfl _ _

theorem analyze_eq_found (a : Analysis) (archive : Archive) (now : Instant) (d : Disk) :
    ((a.analyze archive now : OnDisk _).run d).1 =
      (((a.examine archive now).run d).1.map Progress.found).map (·.2) := by
  rw [run_analyze]
  cases ((a.examine archive now).run d).1 <;> rfl

theorem kept_of_untrue {bytes : List UInt8} (hhash : Cache.isHash archive.contentHash = true)
    (hread : d.read (a.cache.recordPath archive.contentHash) = .ok bytes)
    (huntrue : a.cache.Untrue archive.contentHash now bytes)
    (hremove : ((FileSystem.remove (a.cache.recordPath archive.contentHash) : OnDisk _).run d).1 =
      .ok ()) {after : List UInt8}
    (hafter : ((a.analyze archive now : OnDisk _).run d).2.read
      (a.cache.recordPath archive.contentHash) = .ok after) :
    Kept (Contents.ofArchive archive) a.enabledScanners
      (.fresh archive.contentHash a.cache.version now) after := by
  obtain ⟨hrecord, hdisk⟩ := Cache.run_load_of_untrue hhash hread huntrue
  obtain ⟨d₁, hremoved⟩ : ∃ d₁, (FileSystem.remove (a.cache.recordPath archive.contentHash)
      : OnDisk _).run d = (.ok (), d₁) := ⟨_, Prod.ext hremove rfl⟩
  obtain ⟨place, _, hfind, hgone⟩ := becomes_of_run_remove hremoved
  obtain ⟨htarget, -⟩ := Disk.find_eq_file.mp hfind
  rw [run_analyze, examine, run_bind, hrecord, hdisk, hremoved] at hafter
  have hadds := adds_runScanners a (Contents.ofArchive archive) a.enabledScanners
    ⟨.fresh archive.contentHash a.cache.version now, true, []⟩ d₁
  obtain ⟨place', htarget', hfile⟩ := Disk.read_eq_ok.mp hafter
  obtain rfl : place' = place := by
    rw [hadds.keeps.target (hgone.keeps.target htarget)] at htarget'
    cases htarget'
    rfl
  obtain hfile | hkept := hadds.files hfile
  · rw [hgone.files, Function.update_self] at hfile
    cases hfile
  · exact hkept

/-- A result comes out of a valid record only; without one, the analysis goes as on a disk that
has no record; a record that cannot be what it claims, once it could be removed, does not outlast
the analysis; and what is no hash is not looked for. -/
theorem reused_of_analyze (a : Analysis) (hnames : (a.scanners.map (·.name)).Nodup)
    (archive : Archive) (now : Instant) (d : Disk) :
    let hash := archive.contentHash
    let path := a.cache.recordPath hash
    let ran := (a.analyze archive now : OnDisk _).run d
    (∀ outcomes, ran.1 = .ok outcomes → ∀ o ∈ outcomes, o.fromCache = true →
      a.cache.Knows d hash now o.scanner o.result) ∧
    ((¬∃ r, a.cache.stored? d hash = some r ∧ a.cache.Valid hash now r) →
      ∀ d₀, a.cache.stored? d₀ hash = none →
        ((a.examine archive now).run d).1.map Progress.found =
            ((a.examine archive now).run d₀).1.map Progress.found ∧
          ran.1 = ((a.analyze archive now : OnDisk _).run d₀).1) ∧
    (∀ bytes, Cache.isHash hash = true → d.read path = .ok bytes →
      a.cache.Untrue hash now bytes →
      ((FileSystem.remove path : OnDisk _).run d).1 = .ok () →
        (∀ after, ran.2.read path ≠ .ok after) ∨
        ∃ r : InspectionRecord, ran.2.read path = .ok r.toBytes ∧ r.contentHash = hash ∧
          r.version = a.cache.version ∧ r.created = now ∧
          ∀ name x, r.results.find? name = some x →
            ∃ s ∈ a.enabledScanners, s.name = name ∧ s.run (Contents.ofArchive archive) = .ok x) ∧
    (Cache.isHash hash = false →
      ∀ (m : Type → Type) [Monad m] [LawfulMonad m] [FileSystem m],
        (a.cache.load hash now : m Cache.Loaded) =
          pure ⟨.fresh hash a.cache.version now, some .absent⟩) := by
  intro hash path ran
  refine ⟨fun outcomes hok o ho hcache => knows_of_fromCache hnames hok ho hcache,
    fun hnone d₀ hd₀ => ?_, fun bytes hhash hread huntrue hremove => ?_,
    fun hhash m _ _ _ => Cache.load_of_not_isHash hhash now⟩
  · have hfound := found_examine hnone hd₀
    refine ⟨hfound, ?_⟩
    rw [analyze_eq_found a archive now d, hfound, ← analyze_eq_found]
  · by_cases hgone : ∃ after, ran.2.read path = .ok after
    · obtain ⟨after, hafter⟩ := hgone
      obtain ⟨r, hbytes, hgrown⟩ := kept_of_untrue hhash hread huntrue hremove hafter
      refine .inr ⟨r, hbytes ▸ hafter, ?_, ?_, ?_, fun name x hx => ?_⟩
      · rw [hgrown.rest]
        rfl
      · rw [hgrown.rest]
        rfl
      · rw [hgrown.rest]
        rfl
      · obtain hold | hnew := hgrown.results hx
        · cases hold
        · exact hnew
    · exact .inl fun after hafter => hgone ⟨after, hafter⟩

def holding (bytes : List UInt8) : Disk where
  current := ⟨"/"⟩
  nodes := ⟨[("/c", .directory), ("/c/a.json", .file bytes)]⟩
  failures := []

/-- A record about the archive is used; an empty file counts for nothing and is replaced. -/
theorem reused_of_analyze_half :
    half.cache.Knows (holding (InspectionRecord.mk (.ofNanosSince1970 0) "" "a"
      ⟨[("a", .clean)]⟩).toBytes) "a" (.ofNanosSince1970 0) "a" .clean ∧
    let ran := (half.analyze oneClass (.ofNanosSince1970 0) : OnDisk _).run (holding [])
    ran.1 = ((half.analyze oneClass (.ofNanosSince1970 0) : OnDisk _).run ⟨⟨"/"⟩, .empty, []⟩).1 ∧
      ((∀ after, ran.2.read ⟨"/c/a.json"⟩ ≠ .ok after) ∨
        ∃ r : InspectionRecord, ran.2.read ⟨"/c/a.json"⟩ = .ok r.toBytes ∧
          r.contentHash = "a") := by
  constructor
  · obtain ⟨hknows, -⟩ := reused_of_analyze half (by decide) oneClass (.ofNanosSince1970 0)
      (holding (InspectionRecord.mk (.ofNanosSince1970 0) "" "a" ⟨[("a", .clean)]⟩).toBytes)
    exact hknows [half.outcome "a" .clean true] (by decide +kernel) _ (List.mem_singleton_self _)
      rfl
  · intro ran
    obtain ⟨-, hnone, huntrue, -⟩ := reused_of_analyze half (by decide) oneClass
      (.ofNanosSince1970 0) (holding [])
    constructor
    · refine (hnone ?_ _ (by decide +kernel)).2
      rintro ⟨r, hr, -⟩
      have hstored : half.cache.stored? (holding []) "a" = none := by decide +kernel
      cases hstored.symm.trans hr
    · obtain hgone | ⟨r, hr, hhash, -⟩ := huntrue [] (by decide +kernel) (by decide +kernel)
        (.unreadable (by decide +kernel)) (by decide +kernel)
      · exact .inl hgone
      · exact .inr ⟨r, hr, hhash⟩

end Analysis

end PluginGuard
