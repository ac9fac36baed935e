import Mathlib.Data.List.Basic
import PluginGuard.Disk.Request

/-!
# What requests leave behind

Writing, moving and removing files changes what is at the places of files only, so a
way over directories that was open stays open, and what a path led to is found
there again.
-/
namespace PluginGuard

namespace Table

variable {α : Type}

theorem find?_erase (t : Table α) (key other : String) :
    (t.erase key).find? other = if other = key then none else t.find? other := by
  simp only [find?, erase, List.find?_filter]
  by_cases h : other = key
  · subst h
    have hnone : t.entries.find? (fun e => decide ((e.1 != other) = true ∧ (e.1 == other) = true)) =
        none := by
      simp
    rw [hnone, if_pos rfl]
    rfl
  · rw [if_neg h]
    congr 2
    funext e
    by_cases he : e.1 = other <;> simp [he, h]

theorem find?_insert (t : Table α) (key other : String) (value : α) :
    (t.insert key value).find? other = if other = key then some value else t.find? other := by
  by_cases h : other = key
  · rw [if_pos h, h, find?_insert_self]
  · rw [if_neg h, find?_insert_of_ne (Ne.symm h)]

end Table

theorem Answered.bind_eq_ok {α β : Type} {x : Answered α} {f : α → Answered β} {b : β} :
    x >>= f = .ok b ↔ ∃ a, x = .ok a ∧ f a = .ok b := by
  cases x <;> simp [bind, Except.bind]

namespace Disk

open Answered

variable {d d' : Disk} {place : String} {p q : Path} {bytes : List UInt8}

theorem node?_put (d : Disk) (place other : String) (n : DiskNode) :
    (d.put place n).node? other =
      if other = "/" then some .directory else if other = place then some n else d.node? other := by
  by_cases h : other = "/"
  · rw [node?, if_pos h, if_pos h]
  · rw [node?, if_neg h, if_neg h, node?, if_neg h, put, Table.find?_insert]

theorem node?_drop (d : Disk) (place other : String) :
    (d.drop place).node? other =
      if other = "/" then some .directory else if other = place then none else d.node? other := by
  by_cases h : other = "/"
  · rw [node?, if_pos h, if_pos h]
  · rw [node?, if_neg h, if_neg h, node?, if_neg h, drop, Table.find?_erase]

theorem ne_root_of_node? (h : d.node? place ≠ some .directory) : place ≠ "/" := by
  rintro rfl
  exact h rfl

/-! ### Ways that stay open -/

structure Keeps (d d' : Disk) : Prop where
  current : d'.current = d.current
  directories : ∀ place, d.node? place = some .directory → d'.node? place = some .directory

theorem keeps_put (h : d.node? place ≠ some .directory) (n : DiskNode) :
    d.Keeps (d.put place n) := by
  refine ⟨rfl, fun other hother => ?_⟩
  have hne : other ≠ place := fun he => h (he ▸ hother)
  rw [node?_put, if_neg hne, hother, ite_self]

theorem keeps_drop (h : d.node? place ≠ some .directory) : d.Keeps (d.drop place) := by
  refine ⟨rfl, fun other hother => ?_⟩
  have hne : other ≠ place := fun he => h (he ▸ hother)
  rw [node?_drop, if_neg hne, hother, ite_self]

theorem Keeps.step (h : d.Keeps d') {dir next : String} {piece : List Char}
    (hstep : d.step dir piece = .ok next) : d'.step dir piece = .ok next := by
  unfold Disk.step at hstep ⊢
  split at hstep
  · exact hstep
  · exact hstep
  · exact hstep
  · split at hstep
    · cases hstep
    · rename_i hshort
      rw [if_neg hshort]
      split at hstep
      · rename_i hnode
        rw [h.directories _ hnode]
        exact hstep
      · cases hstep
      · cases hstep

theorem Keeps.foldlM (h : d.Keeps d') {names : List (List Char)} {dir next : String}
    (hfold : names.foldlM d.step dir = .ok next) : names.foldlM d'.step dir = .ok next := by
  induction names generalizing dir with
  | nil => exact hfold
  | cons piece names ih =>
    rw [List.foldlM_cons] at hfold ⊢
    obtain ⟨dir', hstep, hrest⟩ := bind_eq_ok.mp hfold
    exact bind_eq_ok.mpr ⟨dir', h.step hstep, ih hrest⟩

theorem Keeps.target (h : d.Keeps d') {t : Target} (htarget : d.target p = .ok t) :
    d'.target p = .ok t := by
  have hstart : d'.start p = d.start p := by rw [start, start, h.current]
  unfold Disk.target at htarget ⊢
  obtain ⟨names, hpieces, htarget⟩ := bind_eq_ok.mp htarget
  obtain ⟨dir, hdir, htarget⟩ := bind_eq_ok.mp htarget
  refine bind_eq_ok.mpr ⟨names, hpieces, bind_eq_ok.mpr ⟨dir, hstart ▸ h.foldlM hdir, ?_⟩⟩
  split at htarget
  · exact htarget
  · split at htarget
    · rename_i hdots
      obtain ⟨next, hstep, hentered⟩ := bind_eq_ok.mp htarget
      rw [if_pos hdots]
      exact bind_eq_ok.mpr ⟨next, h.step hstep, hentered⟩
    · rename_i hdots
      rw [if_neg hdots]
      exact htarget

/-! ### Files at their paths -/

theorem find_eq_file_iff :
    d.find p = .ok (place, .file bytes) ↔
      d.target p = .ok (.named place false) ∧ d.node? place = some (.file bytes) := by
  constructor
  · intro h
    unfold find at h
    split at h
    · cases h
    · cases h
    · rename_i other slashed htarget
      split at h
      · cases h
      · cases h
      · rename_i hnode
        split at h
        · cases h
        · rename_i hslashed
          cases h
          rw [Bool.not_eq_true] at hslashed
          exact ⟨hslashed ▸ htarget, hnode⟩
  · rintro ⟨htarget, hnode⟩
    unfold find
    rw [htarget]
    simp only [hnode, Bool.false_eq_true, if_false]

theorem read_eq_ok_iff : d.read p = .ok bytes ↔
    ∃ place, d.target p = .ok (.named place false) ∧ d.node? place = some (.file bytes) := by
  simp only [← find_eq_file_iff]
  unfold read
  split
  · rename_i hfind
    simp [hfind, eq_comm]
  · rename_i hfind
    simp [hfind]
  · rename_i hfind
    simp [hfind]

theorem read_put (htarget : d.target p = .ok (.named place false))
    (hplace : d.node? place ≠ some .directory) :
    (d.put place (.file bytes)).read p = .ok bytes := by
  have hroot := ne_root_of_node? hplace
  refine read_eq_ok_iff.mpr ⟨place, (keeps_put hplace _).target htarget, ?_⟩
  rw [node?_put, if_neg hroot, if_pos rfl]

theorem read_of_write (h : d.write p bytes = .ok d') : d'.read p = .ok bytes := by
  unfold write at h
  split at h
  · cases h
  · cases h
  · rename_i place slashed htarget
    split at h
    · cases h
    · rename_i hfree
      simp only [Bool.or_eq_true, beq_iff_eq, not_or, Bool.not_eq_true] at hfree
      obtain ⟨rfl, hplace⟩ := hfree
      cases h
      exact read_put htarget hplace

theorem read_of_rename (hread : d.read p = .ok bytes) (h : d.rename p q = .ok d') :
    d'.read q = .ok bytes := by
  obtain ⟨source, hsource, hnode⟩ := read_eq_ok_iff.mp hread
  have hfind := find_eq_file_iff.mpr ⟨hsource, hnode⟩
  unfold rename at h
  rw [hsource, hfind] at h
  cases hq : d.target q with
  | error e =>
    rw [hq] at h
    cases h
  | ok t =>
    rw [hq] at h
    cases t with
    | entered place => cases h
    | named target slashed =>
      simp only at h
      split at h
      · cases h
      · rename_i hslashed
        rw [Bool.not_eq_true] at hslashed
        subst hslashed
        unfold moveFile at h
        split at h
        · rename_i hsame
          subst hsame
          cases h
          exact read_eq_ok_iff.mpr ⟨source, hq, hnode⟩
        · split at h
          · cases h
          · rename_i hne hdir
            cases h
            have hkeeps : d.Keeps (d.drop source) := keeps_drop (by simp [hnode])
            refine read_put (hkeeps.target hq) ?_
            have hroot := ne_root_of_node? hdir
            rw [node?_drop, if_neg hroot, if_neg (Ne.symm hne)]
            exact hdir

theorem read_of_remove (h : d.remove p = .ok d') : d'.read p = .error .notFound := by
  unfold remove at h
  split at h
  · rename_i place bytes hfind
    cases h
    obtain ⟨htarget, hnode⟩ := find_eq_file_iff.mp hfind
    have hplace : d.node? place ≠ some .directory := by simp [hnode]
    have hroot := ne_root_of_node? hplace
    rw [read, find, (keeps_drop hplace).target htarget]
    simp only [node?_drop, if_neg hroot, if_true]
  · cases h
  · cases h

end Disk

end PluginGuard
