import PluginGuard.Proofs.Disk.Files
import PluginGuard.Scan.Cache

/-!
# Stored records

What a request that succeeded has done to a disk, where a record is found once it
has been stored, and which records a load goes on with.
-/
namespace PluginGuard

namespace OnDisk

variable {α β : Type} {d d' : Disk}

theorem run_read (p : Path) (d : Disk) :
    (FileSystem.read p : OnDisk (Answered (List UInt8))).run d = (d.read p, d) := rfl

theorem request_eq_ok {change : Disk → Answered Unit × Disk}
    (h : (request change).run d = (.ok (), d')) :
    change { d with failures := d.failures.tail } = (.ok (), d') := by
  unfold request at h
  simp only [StateT.run] at h
  split at h
  · cases h
  · exact h

theorem settle_eq_ok {change : Answered Disk} (h : d.settle change = (.ok (), d')) :
    change = .ok d' := by
  cases change with
  | ok after =>
    cases h
    rfl
  | error e => cases h

theorem run_about_eq_ok {p : Path} {request : OnDisk (Answered α)} {a : α}
    (h : (AnalysisError.about p request).run d = (.ok a, d')) :
    request.run d = (.ok a, d') := by
  rw [AnalysisError.about, run_bind] at h
  cases hrequest : request.run d with
  | mk answer after =>
    rw [hrequest] at h
    cases answer with
    | ok b =>
      cases h
      rfl
    | error e => cases h

theorem read_failures (d : Disk) (plan : List Bool) (p : Path) :
    { d with failures := plan }.read p = d.read p := rfl

theorem read_of_run_write {p : Path} {bytes : List UInt8}
    (h : (FileSystem.write p bytes : OnDisk _).run d = (.ok (), d')) : d'.read p = .ok bytes :=
  Disk.read_of_write (settle_eq_ok (request_eq_ok h))

theorem read_of_run_rename {p q : Path} {bytes : List UInt8} (hread : d.read p = .ok bytes)
    (h : (FileSystem.rename p q : OnDisk _).run d = (.ok (), d')) : d'.read q = .ok bytes :=
  Disk.read_of_rename ((read_failures d _ p).trans hread) (settle_eq_ok (request_eq_ok h))

theorem read_of_run_remove {p : Path} {bytes : List UInt8}
    (h : ((FileSystem.remove p : OnDisk _).run d).2.read p = .ok bytes) :
    d.read p = .ok bytes := by
  change ((request fun d => d.settle (d.remove p)).run d).2.read p = .ok bytes at h
  simp only [request, StateT.run] at h
  split at h
  · exact h
  · cases hremove : { d with failures := d.failures.tail }.remove p with
    | ok after =>
      rw [hremove, Disk.settle, Disk.read_of_remove hremove] at h
      cases h
    | error e =>
      rw [hremove] at h
      exact h

end OnDisk

namespace Cache

open OnDisk

variable {c : Cache} {r : InspectionRecord} {hash : String} {now : Instant} {d d' : Disk}

structure Holds (c : Cache) (d : Disk) (r : InspectionRecord) : Prop where
  isHash : isHash r.contentHash = true
  read : d.read (c.recordPath r.contentHash) = .ok r.toBytes

theorem Holds.with_failures (h : c.Holds d r) (failures : List Bool) :
    c.Holds { d with failures } r := ⟨h.isHash, h.read⟩

theorem holds_of_persist (h : (c.persist r : OnDisk _).run d = (.ok (), d')) :
    c.Holds d' r := by
  unfold persist at h
  split at h
  · rename_i hhash
    rw [run_bind] at h
    split at h
    · cases h
    · rw [run_bind] at h
      split at h
      · cases h
      · rename_i hwrite
        have hdraft := read_of_run_write (run_about_eq_ok (Prod.ext hwrite rfl))
        exact ⟨hhash, read_of_run_rename hdraft (run_about_eq_ok h)⟩
  · cases h

structure InTime (c : Cache) (now : Instant) (r : InspectionRecord) : Prop where
  begun : now.before r.created = false
  lasting : now.since r.created ≤ Instant.nanosOfDays c.expiryDays.toNat

theorem refusal?_eq_none_iff : c.refusal? hash now r = none ↔
    r.contentHash = hash ∧ r.version = c.version ∧ c.InTime now r := by
  unfold refusal?
  constructor
  · intro h
    split at h
    · cases h
    · rename_i hhash
      split at h
      · cases h
      · rename_i hversion
        split at h
        · cases h
        · rename_i hbegun
          split at h
          · cases h
          · rename_i hlasting
            exact ⟨not_not.mp hhash, not_not.mp hversion, Bool.not_eq_true _ ▸ hbegun,
              Int.not_lt.mp hlasting⟩
  · rintro ⟨hhash, hversion, hbegun, hlasting⟩
    simp [hhash, hversion, hbegun, hlasting]

theorem accept_eq_ok_iff {bytes : List UInt8} : c.accept hash now bytes = .ok r ↔
    InspectionRecord.ofBytes? bytes = some r ∧ r.contentHash = hash ∧ r.version = c.version ∧
      c.InTime now r := by
  unfold accept
  cases InspectionRecord.ofBytes? bytes with
  | none => simp
  | some s =>
    simp only [Option.some.injEq]
    split
    · rename_i miss hmiss
      constructor
      · intro h
        cases h
      · rintro ⟨rfl, h⟩
        rw [refusal?_eq_none_iff.mpr h] at hmiss
        cases hmiss
    · rename_i hnone
      constructor
      · intro h
        cases h
        exact ⟨rfl, refusal?_eq_none_iff.mp hnone⟩
      · rintro ⟨rfl, -⟩
        rfl

def stored? (c : Cache) (d : Disk) (hash : String) : Option InspectionRecord :=
  if isHash hash then (d.read (c.recordPath hash)).toOption.bind InspectionRecord.ofBytes?
  else none

theorem Holds.stored? (h : c.Holds d r) (hbytes : InspectionRecord.ofBytes? r.toBytes = some r) :
    c.stored? d r.contentHash = some r := by
  rw [Cache.stored?, if_pos h.isHash, h.read, Except.toOption, Option.bind_some, hbytes]

theorem stored?_mono (hread : ∀ bytes,
    d'.read (c.recordPath hash) = .ok bytes → d.read (c.recordPath hash) = .ok bytes)
    (h : c.stored? d' hash = some r) : c.stored? d hash = some r := by
  unfold Cache.stored? at h ⊢
  cases hafter : d'.read (c.recordPath hash) with
  | ok bytes =>
    rw [hread bytes hafter]
    rwa [hafter] at h
  | error e => simp [hafter, Except.toOption] at h

theorem find_eq_ok_iff : ((c.find hash now : OnDisk _).run d).1 = .ok r ↔
    c.stored? d hash = some r ∧ r.contentHash = hash ∧ r.version = c.version ∧ c.InTime now r := by
  unfold find Cache.stored?
  split
  · rw [run_bind, run_read]
    cases d.read (c.recordPath hash) with
    | ok bytes => exact accept_eq_ok_iff
    | error e => cases e <;> simp [Except.toOption]
  · simp

theorem run_find_snd (c : Cache) (hash : String) (now : Instant) (d : Disk) :
    ((c.find hash now : OnDisk _).run d).2 = d := by
  unfold find
  split
  · rw [run_bind, run_read]
    cases d.read (c.recordPath hash) with
    | ok bytes => rfl
    | error e => cases e <;> rfl
  · rfl

inductive Loads (c : Cache) (hash : String) (now : Instant) (d : Disk) : Loaded → Disk → Prop
  | found {r : InspectionRecord} :
      ((c.find hash now : OnDisk _).run d).1 = .ok r → Loads c hash now d ⟨r, none⟩ d
  | missed {miss : Miss} {d' : Disk} :
      ((c.find hash now : OnDisk _).run d).1 = .error miss →
      (∀ bytes, d'.read (c.recordPath hash) = .ok bytes →
        d.read (c.recordPath hash) = .ok bytes) →
      Loads c hash now d ⟨.fresh hash c.version now, some miss⟩ d'

theorem loads (c : Cache) (hash : String) (now : Instant) (d : Disk) :
    c.Loads hash now d ((c.load hash now : OnDisk _).run d).1
      ((c.load hash now : OnDisk _).run d).2 := by
  have hsnd := run_find_snd c hash now d
  unfold load
  rw [run_bind, hsnd]
  cases hfind : ((c.find hash now : OnDisk _).run d).1 with
  | ok r => exact .found hfind
  | error miss =>
    by_cases hcorrupt : miss.isCorrupt
    · simp only [hcorrupt, if_true]
      exact .missed hfind fun _ => read_of_run_remove
    · simp only [hcorrupt]
      exact .missed hfind fun _ hread => hread

theorem Loads.about {loaded : Loaded} (h : c.Loads hash now d loaded d') :
    loaded.record.contentHash = hash ∧ loaded.record.version = c.version := by
  cases h with
  | found hfind =>
    obtain ⟨-, hhash, hversion, -⟩ := find_eq_ok_iff.mp hfind
    exact ⟨hhash, hversion⟩
  | missed hfind hread => exact ⟨rfl, rfl⟩

theorem Loads.results {loaded : Loaded} (h : c.Loads hash now d loaded d')
    (hmiss : loaded.miss ≠ none) : loaded.record.results = .empty := by
  cases h with
  | found hfind => exact absurd rfl hmiss
  | missed hfind hread => rfl

theorem Loads.record {loaded : Loaded} (h : c.Loads hash now d loaded d')
    (hfind : ((c.find hash now : OnDisk _).run d).1 = .ok r) : loaded.record = r := by
  cases h with
  | found hfind' => exact Except.ok.inj (hfind'.symm.trans hfind)
  | missed hfind' hread =>
    rw [hfind] at hfind'
    cases hfind'

theorem Holds.run_load (h : c.Holds d r) (hbytes : InspectionRecord.ofBytes? r.toBytes = some r)
    {miss : Miss} (hrefusal : c.refusal? r.contentHash now r = some miss) :
    (c.load r.contentHash now : OnDisk _).run d =
      (⟨.fresh r.contentHash c.version now, some miss⟩,
        if miss.isCorrupt then
          ((FileSystem.remove (c.recordPath r.contentHash) : OnDisk _).run d).2
        else d) := by
  have haccept : c.accept r.contentHash now r.toBytes = .error miss := by
    simp only [accept, hbytes, hrefusal]
  have hfind : (c.find r.contentHash now : OnDisk _).run d = (.error miss, d) := by
    rw [find, if_pos h.isHash, run_bind, run_read, h.read, ← haccept]
    rfl
  rw [load, run_bind, hfind]
  by_cases hcorrupt : miss.isCorrupt
  · simp only [hcorrupt, if_true]
    rfl
  · simp only [hcorrupt]
    rfl

/-! ### Later loads -/

def Miss.isDated : Miss → Bool
  | .expired => true
  | .future _ => true
  | _ => false

theorem isDated_of_refusal? {miss : Miss} (h : c.refusal? hash now r = some miss)
    (hhash : r.contentHash = hash) (hversion : r.version = c.version) : miss.isDated = true := by
  simp only [refusal?, hhash, hversion, ne_eq, not_true_eq_false, if_false] at h
  split at h
  · cases h
    rfl
  · split at h
    · cases h
      rfl
    · cases h

theorem isDated_of_stored? {miss : Miss}
    (h : ((c.find hash now : OnDisk _).run d).1 = .error miss)
    (hstored : c.stored? d hash = some r) (hhash : r.contentHash = hash)
    (hversion : r.version = c.version) : miss.isDated = true := by
  unfold Cache.stored? at hstored
  unfold find at h
  split at hstored
  · rw [if_pos ‹_›, run_bind, run_read] at h
    cases hread : d.read (c.recordPath hash) with
    | error e =>
      rw [hread] at hstored
      cases hstored
    | ok bytes =>
      rw [hread] at h hstored
      rw [Except.toOption, Option.bind_some] at hstored
      have haccept : c.accept hash now bytes = .error miss := h
      rw [accept, hstored] at haccept
      cases hrefusal : c.refusal? hash now r with
      | none => simp [hrefusal] at haccept
      | some miss' =>
        simp only [hrefusal, Except.error.injEq] at haccept
        exact isDated_of_refusal? (haccept ▸ hrefusal) hhash hversion
  · cases hstored

/-- The record that an earlier load took is taken again while it is in time. One that was
refused for more than its date is refused at any time. -/
theorem Loads.results_again {loaded again : Loaded} {later : Instant} {d'' : Disk}
    (h : c.Loads hash now d loaded d') (hagain : c.Loads hash later d' again d'')
    (htime : c.InTime later loaded.record)
    (hrefused : loaded.miss.any Miss.isDated → again.miss ≠ none) :
    again.record.results = loaded.record.results := by
  cases h with
  | found hfind =>
    obtain ⟨hstored, hhash, hversion, -⟩ := find_eq_ok_iff.mp hfind
    rw [hagain.record (find_eq_ok_iff.mpr ⟨hstored, hhash, hversion, htime⟩)]
  | @missed miss d' hmiss hread =>
    cases hagain with
    | missed hmiss' hread' => rfl
    | found hfind' =>
      obtain ⟨hstored, hhash, hversion, -⟩ := find_eq_ok_iff.mp hfind'
      have hdated := isDated_of_stored? hmiss (stored?_mono hread hstored) hhash hversion
      exact absurd rfl (hrefused hdated)

theorem Holds.record (h : c.Holds d r)
    (hbytes : InspectionRecord.ofBytes? r.toBytes = some r) (hversion : r.version = c.version)
    (htime : c.InTime now r) {loaded : Loaded} (hload : c.Loads r.contentHash now d loaded d') :
    loaded.record = r :=
  hload.record (find_eq_ok_iff.mpr ⟨h.stored? hbytes, rfl, hversion, htime⟩)

end Cache

end PluginGuard
