import PluginGuard.Proofs.Scan.Reuse

/-!
# Moments of an analysis

Between two turns of scanners an analysis may be cut off. What has been found out by then
stands in the file of the hash, together with what was known before, so nothing of it is lost.
-/
namespace PluginGuard

namespace Analysis

open Scan OnDisk

variable {a : Analysis} {contents : Contents} {s : Scanner}
  {scanners finished waiting : List Scanner} {p p' : Progress} {d d₁ d' : Disk}
  {archive : Archive} {now : Instant} {name : String} {x : ScanResult}

/-- An analysis comes to a moment when some scanners have had their turns and others wait:
first none of them has, and then one after the other does. -/
inductive Reaches (a : Analysis) (archive : Archive) (now : Instant) (d : Disk) :
    List Scanner → List Scanner → Progress → Disk → Prop
  | start {loaded : Cache.Loaded} {d₁ : Disk} :
      (a.cache.load archive.contentHash now : OnDisk _).run d = (loaded, d₁) →
      Reaches a archive now d [] a.enabledScanners ⟨loaded.record, true, []⟩ d₁
  | turn {finished waiting : List Scanner} {s : Scanner} {p p' : Progress} {d₁ d₂ : Disk} :
      Reaches a archive now d finished (s :: waiting) p d₁ →
      (a.runScanner (Contents.ofArchive archive) s p : OnDisk _).run d₁ = (.ok p', d₂) →
      Reaches a archive now d (finished ++ [s]) waiting p' d₂

structure Finds (a : Analysis) (archive : Archive) (now : Instant) (d : Disk) (s : Scanner)
    (x : ScanResult) : Prop where
  unknown : ∀ y, ¬a.cache.Knows d archive.contentHash now s.name y
  run : s.run (Contents.ofArchive archive) = .ok x

theorem Reaches.run_examine (h : a.Reaches archive now d finished waiting p d') :
    (a.examine archive now).run d =
      (a.runScanners (Contents.ofArchive archive) waiting p : OnDisk _).run d' := by
  induction h with
  | start hload => rw [examine, run_bind, hload]
  | turn hbefore hrun ih => rw [ih, runScanners, run_bind, hrun]

theorem Advances.find?_eq_some_iff (h : Advances a contents scanners p d p' d') :
    p'.record.results.find? name = some x ↔ p.record.results.find? name = some x ∨
      ∃ t ∈ scanners, t.name = name ∧ p.record.results.find? name = none ∧
        t.run contents = .ok x := by
  by_cases hmem : name ∈ scanners.map (·.name)
  · have hresult : ∀ t ∈ scanners, t.name = name → (p'.record.results.find? name = some x ↔
        p.record.results.find? name = some x ∨
          p.record.results.find? name = none ∧ t.run contents = .ok x) := by
      rintro t ht rfl
      rw [h.results t ht, result?]
      cases p.record.results.find? t.name with
      | some y => simp
      | none => cases t.run contents <;> simp [Except.toOption]
    constructor
    · intro hx
      obtain ⟨t, ht, hname⟩ := List.mem_map.mp hmem
      exact ((hresult t ht hname).mp hx).imp_right fun hfound => ⟨t, ht, hname, hfound⟩
    · rintro (hx | ⟨t, ht, hname, hfound⟩)
      · obtain ⟨t, ht, hname⟩ := List.mem_map.mp hmem
        exact (hresult t ht hname).mpr (.inl hx)
      · exact (hresult t ht hname).mpr (.inr hfound)
  · rw [h.others name hmem]
    refine ⟨.inl, fun hx => hx.resolve_right ?_⟩
    rintro ⟨t, ht, rfl, -⟩
    exact hmem (List.mem_map_of_mem ht)

theorem persist_fails_of_storing
    (h : (a.runScanner contents s p : OnDisk _).run d = (.ok p', d')) (hbefore : p.storing = true)
    (hafter : p'.storing = false) :
    ∃ e, (a.cache.persist p'.record : OnDisk _).run d = (.error e, d') := by
  unfold runScanner at h
  cases hknown : p.record.results.find? s.name with
  | some r =>
    rw [hknown] at h
    cases h
    cases hbefore.symm.trans hafter
  | none =>
    cases hrun : s.run contents with
    | ok r =>
      have hstoring : (p.keep s.name r).storing = true := hbefore
      simp only [hknown, hrun, store, hstoring, if_true, run_bind] at h
      generalize hpersist : (a.cache.persist (p.keep s.name r).record : OnDisk _).run d =
        stored at h
      obtain ⟨e | _, d₁⟩ := stored
      · cases h
        exact ⟨e, hpersist⟩
      · cases h
        cases hbefore.symm.trans hafter
    | error message =>
      simp only [hknown, hrun] at h
      cases hpolicy : a.failurePolicy with
      | carryOn =>
        rw [hpolicy] at h
        cases h
        cases hbefore.symm.trans hafter
      | shutdown =>
        rw [hpolicy] at h
        cases h

end Analysis

end PluginGuard
