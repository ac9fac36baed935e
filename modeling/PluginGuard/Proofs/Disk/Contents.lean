import Mathlib.Logic.Function.Basic
import PluginGuard.Proofs.Path.Location
import PluginGuard.Proofs.Scan.Stored

/-!
# What a disk holds

The files of a disk are a map from places to bytes. A request on files changes that map at one
or two places and no directory, one that makes directories leaves the map as it is, and one that
fails leaves everything. A place in a directory ends in the file name of every path that leads
there, so paths with different file names lead to different places.
-/
namespace PluginGuard

namespace Disk

open Function (update)

variable {d d' d₁ d₂ : Disk} {p q : Path} {place source target : String}
  {bytes : List UInt8} {files files' : String → Option (List UInt8)}

def fileAt? (d : Disk) (place : String) : Option (List UInt8) :=
  match d.node? place with
  | some (.file bytes) => some bytes
  | _ => none

theorem fileAt?_eq_some_iff :
    d.fileAt? place = some bytes ↔ d.node? place = some (.file bytes) := by
  rw [fileAt?]
  split <;> simp_all

theorem fileAt?_eq_none (h : d.node? place = none) : d.fileAt? place = none := by
  rw [fileAt?, h]

theorem node?_eq_none (hfile : d.fileAt? place = none) (hdir : d.node? place ≠ some .directory) :
    d.node? place = none := by
  rw [fileAt?] at hfile
  rcases hnode : d.node? place with _ | bytes | _
  · rfl
  · simp [hnode] at hfile
  · exact absurd hnode hdir

theorem find_eq_file : d.find p = .ok (place, .file bytes) ↔
    d.target p = .ok (.named place false) ∧ d.fileAt? place = some bytes := by
  rw [find_eq_file_iff, fileAt?_eq_some_iff]

theorem read_eq_ok : d.read p = .ok bytes ↔
    ∃ place, d.target p = .ok (.named place false) ∧ d.fileAt? place = some bytes := by
  simp only [read_eq_ok_iff, fileAt?_eq_some_iff]

theorem kind_eq_none (htarget : d.target p = .ok (.named place false))
    (hnode : d.node? place = none) : d.kind p = none := by
  rw [kind, find, htarget]
  simp only [hnode]

theorem node?_of_kind_eq_none (hkind : d.kind p = none)
    (htarget : d.target p = .ok (.named place false)) : d.node? place = none := by
  rw [kind, find, htarget] at hkind
  rcases hnode : d.node? place with _ | bytes | _
  · rfl
  · simp [hnode] at hkind
  · simp [hnode] at hkind

theorem kind_of_read (h : d.read p = .ok bytes) : d.kind p = some .file := by
  obtain ⟨place, hplace⟩ := read_eq_ok.mp h
  rw [kind, find_eq_file.mpr hplace]
  rfl

theorem ne_of_kind_eq_none {other : String} (hkind : d.kind p = none)
    (htarget : d.target p = .ok (.named place false)) (hfile : d.fileAt? other = some bytes) :
    other ≠ place := by
  rintro rfl
  rw [fileAt?_eq_none (node?_of_kind_eq_none hkind htarget)] at hfile
  cases hfile

/-! ### Names at the end of places -/

section Names

open PluginGuard.Path

variable {dir dir' n m : String} {slashed slashed' : Bool}

theorem below_toList (dir n : String) : below dir n.toList = ((Path.mk dir).child n).text := by
  rw [below, String.ofList_toList]

theorem below_inj (hn : IsName n) (hm : IsName m) (h : below dir n.toList = below dir' m.toList) :
    n = m := by
  rw [below_toList, below_toList] at h
  have hlast := getLast?_splitOn_child hn ⟨dir⟩
  rw [h, getLast?_splitOn_child hm] at hlast
  exact String.toList_injective (Option.some.inj hlast).symm

theorem exists_below_of_target (h : d.target p = .ok (.named place slashed)) :
    ∃ n, p.fileName? = some n ∧ IsName n ∧ ∃ dir, place = below dir n.toList := by
  unfold target at h
  obtain ⟨names, hnames, h⟩ := Answered.bind_eq_ok.mp h
  obtain ⟨dir, -, h⟩ := Answered.bind_eq_ok.mp h
  have hpieces : names = Text.pieces (· == '/') p.text.toList := by
    unfold Disk.pieces at hnames
    split_ifs at hnames
    exact (Except.ok.inj hnames).symm
  subst hpieces
  split at h
  · cases h
  · rename_i last hlast
    split at h
    · obtain ⟨next, -, h⟩ := Answered.bind_eq_ok.mp h
      cases h
    · rename_i hdots
      split at h
      · cases h
      · cases h
        obtain ⟨hmem, hnonempty⟩ := List.mem_filter.mp (List.mem_of_getLast? hlast)
        rw [Text.pieces_slash] at hmem
        rw [← String.toList_ofList (l := last)] at hmem hnonempty hdots hlast ⊢
        have hname : IsName (String.ofList last) :=
          ⟨by simpa using hnonempty, fun hdot => hdots (by simp [isDots, hdot]),
            fun hdot => hdots (by simp [isDots, hdot]), slash_not_mem_of_splitOn hmem⟩
        exact ⟨_, fileName?_of_getLast? hlast hname, hname, dir, rfl⟩

theorem fileName?_of_target (h : d.target p = .ok (.named place slashed))
    (h' : d.target q = .ok (.named place slashed')) : p.fileName? = q.fileName? := by
  obtain ⟨n, hn, hname, dir, rfl⟩ := exists_below_of_target h
  obtain ⟨m, hm, hname', dir', hplace⟩ := exists_below_of_target h'
  rw [hn, hm, below_inj hname hname' hplace]

end Names

/-! ### Changes to files -/

structure Becomes (d : Disk) (files : String → Option (List UInt8)) (d' : Disk) : Prop where
  current : d'.current = d.current
  directories : ∀ place, d'.node? place = some .directory ↔ d.node? place = some .directory
  files : d'.fileAt? = files

theorem becomes_self (d : Disk) : d.Becomes d.fileAt? d := ⟨rfl, fun _ => .rfl, rfl⟩

theorem Becomes.trans (h : d.Becomes files d₁) (h' : d₁.Becomes files' d₂) :
    d.Becomes files' d₂ :=
  ⟨h'.current.trans h.current, fun place => (h'.directories place).trans (h.directories place),
    h'.files⟩

theorem Becomes.keeps (h : d.Becomes files d') : d.Keeps d' :=
  ⟨h.current, fun place => (h.directories place).mpr⟩

theorem Becomes.target_iff (h : d.Becomes files d') {t : Target} :
    d'.target p = .ok t ↔ d.target p = .ok t := by
  have hback : d'.Keeps d := ⟨h.current.symm, fun place => (h.directories place).mp⟩
  exact ⟨hback.target, h.keeps.target⟩

theorem Becomes.read (h : d.Becomes files d') (htarget : d.target p = .ok (.named place false))
    (hfile : files place = some bytes) : d'.read p = .ok bytes :=
  read_eq_ok.mpr ⟨place, h.target_iff.mpr htarget, h.files ▸ hfile⟩

theorem Becomes.read_again (h : d.Becomes files d') (hread : d.read p = .ok bytes)
    (hfiles : ∀ place, d.target p = .ok (.named place false) → d.fileAt? place = some bytes →
      files place = some bytes) : d'.read p = .ok bytes := by
  obtain ⟨place, htarget, hfile⟩ := read_eq_ok.mp hread
  exact h.read htarget (hfiles place htarget hfile)

theorem Becomes.kind_eq_none (h : d.Becomes files d') (hfind : d.find p = .ok (place, .file bytes))
    (hgone : files place = none) : d'.kind p = none := by
  obtain ⟨htarget, hfile⟩ := find_eq_file.mp hfind
  have hnode := fileAt?_eq_some_iff.mp hfile
  have hdir : d'.node? place ≠ some .directory := fun hmem => by
    have hmem := (h.directories place).mp hmem
    simp [hnode] at hmem
  exact Disk.kind_eq_none (h.target_iff.mpr htarget) (node?_eq_none (h.files ▸ hgone) hdir)

theorem becomes_of_node? {content : Option (List UInt8)} (h : d.node? place ≠ some .directory)
    (hcurrent : d'.current = d.current)
    (hnode : ∀ other, d'.node? other = if other = "/" then some .directory
      else if other = place then content.map .file else d.node? other) :
    d.Becomes (update d.fileAt? place content) d' := by
  have hroot := ne_root_of_node? h
  have hplace : d'.node? place = content.map .file := by rw [hnode, if_neg hroot, if_pos rfl]
  have hother : ∀ other, other ≠ place → d'.node? other = d.node? other := by
    intro other hne
    rw [hnode, if_neg hne]
    by_cases hother : other = "/"
    · rw [if_pos hother, hother, node?, if_pos rfl]
    · rw [if_neg hother]
  refine ⟨hcurrent, fun other => ?_, funext fun other => ?_⟩
  · by_cases hne : other = place
    · subst hne
      cases content <;> simp [hplace, h]
    · rw [hother other hne]
  · by_cases hne : other = place
    · subst hne
      rw [Function.update_self, fileAt?, hplace]
      cases content <;> rfl
    · rw [Function.update_of_ne hne, fileAt?, fileAt?, hother other hne]

theorem becomes_put (h : d.node? place ≠ some .directory) (bytes : List UInt8) :
    d.Becomes (update d.fileAt? place (some bytes)) (d.put place (.file bytes)) :=
  becomes_of_node? h rfl fun other => node?_put d place other (.file bytes)

theorem becomes_drop (h : d.node? place ≠ some .directory) :
    d.Becomes (update d.fileAt? place none) (d.drop place) :=
  becomes_of_node? h rfl fun other => node?_drop d place other

theorem becomes_of_write (h : d.write p bytes = .ok d') :
    ∃ place, d.target p = .ok (.named place false) ∧
      d.Becomes (update d.fileAt? place (some bytes)) d' := by
  unfold write at h
  split at h
  · cases h
  · cases h
  · rename_i place slashed htarget
    split at h
    · cases h
    · rename_i hfree
      simp only [Bool.or_eq_true, beq_iff_eq, not_or, Bool.not_eq_true] at hfree
      obtain ⟨rfl, hplace⟩ := hfree
      cases h
      exact ⟨place, htarget, becomes_put hplace bytes⟩

theorem becomes_of_remove (h : d.remove p = .ok d') :
    ∃ source bytes, d.find p = .ok (source, .file bytes) ∧
      d.Becomes (update d.fileAt? source none) d' := by
  unfold remove at h
  split at h
  · rename_i source bytes hfind
    cases h
    have hnode := (find_eq_file_iff.mp hfind).2
    exact ⟨source, bytes, hfind, becomes_drop (by simp [hnode])⟩
  · cases h
  · cases h

theorem becomes_of_copy (h : d.copy p q = .ok d') :
    ∃ source bytes target, d.find p = .ok (source, .file bytes) ∧
      d.target q = .ok (.named target false) ∧
      d.Becomes (update d.fileAt? target (some bytes)) d' := by
  unfold copy at h
  split at h
  · rename_i source bytes hfind
    obtain ⟨target, htarget, hbecomes⟩ := becomes_of_write h
    exact ⟨source, bytes, target, hfind, htarget, hbecomes⟩
  · cases h
  · cases h

theorem becomes_of_moveFile (hsource : d.fileAt? source = some bytes)
    (h : d.moveFile source bytes target = .ok d') :
    d.Becomes (update (update d.fileAt? source none) target (some bytes)) d' := by
  unfold moveFile at h
  split at h
  · rename_i hsame
    subst hsame
    cases h
    rw [Function.update_idem, ← hsource, Function.update_eq_self]
    exact becomes_self d
  · split at h
    · cases h
    · rename_i hne hdir
      cases h
      have hnode := fileAt?_eq_some_iff.mp hsource
      have hdrop : d.Becomes (update d.fileAt? source none) (d.drop source) :=
        becomes_drop (by simp [hnode])
      have hfree : (d.drop source).node? target ≠ some .directory :=
        fun hmem => hdir ((hdrop.directories target).mp hmem)
      have hput := becomes_put hfree bytes
      rw [hdrop.files] at hput
      exact hdrop.trans hput

theorem becomes_of_rename (h : d.rename p q = .ok d') (hkind : d.kind p ≠ some .directory) :
    ∃ source bytes target, d.find p = .ok (source, .file bytes) ∧
      d.target q = .ok (.named target false) ∧
      d.Becomes (update (update d.fileAt? source none) target (some bytes)) d' := by
  unfold rename at h
  split at h
  · cases h
  · cases h
  · rename_i source _ target slashed hsource htarget
    split at h
    · cases h
    · rename_i hfind
      rw [kind, hfind] at hkind
      exact absurd rfl hkind
    · rename_i source' bytes hfind
      split at h
      · cases h
      · rename_i hslashed
        rw [Bool.not_eq_true] at hslashed
        subst hslashed
        obtain ⟨hsource', hfile⟩ := find_eq_file.mp hfind
        rw [hsource] at hsource'
        cases hsource'
        exact ⟨source, bytes, target, hfind, htarget, becomes_of_moveFile hfile h⟩
  · cases h

/-! ### New directories -/

structure Opens (d d' : Disk) : Prop where
  keeps : d.Keeps d'
  files : d'.fileAt? = d.fileAt?

theorem opens_self (d : Disk) : d.Opens d := ⟨⟨rfl, fun _ h => h⟩, rfl⟩

theorem Becomes.opens (h : d.Becomes d.fileAt? d') : d.Opens d' := ⟨h.keeps, h.files⟩

theorem Keeps.trans (h : d.Keeps d₁) (h' : d₁.Keeps d₂) : d.Keeps d₂ :=
  ⟨h'.current.trans h.current, fun place hplace =>
    h'.directories place (h.directories place hplace)⟩

theorem Opens.trans (h : d.Opens d₁) (h' : d₁.Opens d₂) : d.Opens d₂ :=
  ⟨h.keeps.trans h'.keeps, h'.files.trans h.files⟩

theorem Opens.read (h : d.Opens d') (hread : d.read p = .ok bytes) : d'.read p = .ok bytes := by
  obtain ⟨place, htarget, hfile⟩ := read_eq_ok.mp hread
  exact read_eq_ok.mpr ⟨place, h.keeps.target htarget, h.files ▸ hfile⟩

theorem opens_put (h : d.node? place = none) : d.Opens (d.put place .directory) := by
  refine ⟨keeps_put (by simp [h]) _, funext fun other => ?_⟩
  rw [fileAt?, fileAt?, node?_put]
  by_cases hother : other = "/"
  · rw [if_pos hother, hother]
    rfl
  · rw [if_neg hother]
    by_cases hplace : other = place
    · rw [if_pos hplace, hplace, h]
    · rw [if_neg hplace]

theorem node?_of_step_notFound {dir : String} {piece : List Char}
    (h : d.step dir piece = .error .notFound) : d.node? (below dir piece) = none := by
  unfold step at h
  split at h
  · cases h
  · cases h
  · cases h
  · split at h
    · cases h
    · split at h
      · cases h
      · cases h
      · assumption

theorem opens_makeAlong (names : List (List Char)) (d : Disk) (dir : String) :
    d.Opens (d.makeAlong dir names).2 := by
  induction names generalizing d dir with
  | nil => exact opens_self d
  | cons piece rest ih =>
    unfold makeAlong
    split
    · exact ih d _
    · rename_i hstep
      exact (opens_put (node?_of_step_notFound hstep)).trans (ih _ _)
    · exact opens_self d
    · exact opens_self d

theorem opens_makeDirectory (d : Disk) (p : Path) : d.Opens (d.makeDirectory p).2 := by
  unfold makeDirectory
  split
  · exact opens_self d
  · split
    · exact opens_makeAlong _ d _
    · exact opens_self d

end Disk

/-! ### Requests of a program -/

namespace OnDisk

open Disk
open Function (update)

variable {d d' : Disk} {p q : Path} {bytes : List UInt8} {e : FileError}

theorem becomes_planned (d : Disk) (plan : List Bool) :
    d.Becomes d.fileAt? { d with failures := plan } := ⟨rfl, fun _ => .rfl, rfl⟩

theorem becomes_of_request_error {change : Disk → Answered Disk}
    (h : (request fun d => d.settle (change d)).run d = (.error e, d')) :
    d.Becomes d.fileAt? d' := by
  unfold request at h
  simp only [StateT.run] at h
  split at h
  · cases h
    exact becomes_planned d _
  · unfold settle at h
    split at h
    · cases h
    · cases h
      exact becomes_planned d _

theorem becomes_of_run_write (h : (FileSystem.write p bytes : OnDisk _).run d = (.ok (), d')) :
    ∃ place, d.target p = .ok (.named place false) ∧
      d.Becomes (update d.fileAt? place (some bytes)) d' := by
  obtain ⟨place, htarget, hbecomes⟩ := Disk.becomes_of_write (settle_eq_ok (request_eq_ok h))
  exact ⟨place, htarget, (becomes_planned d _).trans hbecomes⟩

theorem becomes_of_run_remove (h : (FileSystem.remove p : OnDisk _).run d = (.ok (), d')) :
    ∃ source bytes, d.find p = .ok (source, .file bytes) ∧
      d.Becomes (update d.fileAt? source none) d' := by
  obtain ⟨source, bytes, hfind, hbecomes⟩ :=
    Disk.becomes_of_remove (settle_eq_ok (request_eq_ok h))
  exact ⟨source, bytes, hfind, (becomes_planned d _).trans hbecomes⟩

theorem becomes_of_run_copy (h : (FileSystem.copy p q : OnDisk _).run d = (.ok (), d')) :
    ∃ source bytes target, d.find p = .ok (source, .file bytes) ∧
      d.target q = .ok (.named target false) ∧
      d.Becomes (update d.fileAt? target (some bytes)) d' := by
  obtain ⟨source, bytes, target, hfind, htarget, hbecomes⟩ :=
    Disk.becomes_of_copy (settle_eq_ok (request_eq_ok h))
  exact ⟨source, bytes, target, hfind, htarget, (becomes_planned d _).trans hbecomes⟩

theorem becomes_of_run_rename (h : (FileSystem.rename p q : OnDisk _).run d = (.ok (), d'))
    (hkind : d.kind p ≠ some .directory) :
    ∃ source bytes target, d.find p = .ok (source, .file bytes) ∧
      d.target q = .ok (.named target false) ∧
      d.Becomes (update (update d.fileAt? source none) target (some bytes)) d' := by
  obtain ⟨source, bytes, target, hfind, htarget, hbecomes⟩ :=
    Disk.becomes_of_rename (settle_eq_ok (request_eq_ok h)) hkind
  exact ⟨source, bytes, target, hfind, htarget, (becomes_planned d _).trans hbecomes⟩

theorem opens_of_run_makeDirectory (p : Path) (d : Disk) :
    d.Opens ((FileSystem.makeDirectory p : OnDisk _).run d).2 := by
  change d.Opens ((request (·.makeDirectory p)).run d).2
  unfold request
  simp only [StateT.run]
  split
  · exact (becomes_planned d _).opens
  · exact (becomes_planned d _).opens.trans (opens_makeDirectory _ p)

theorem run_present (p : Path) (d : Disk) :
    (FileSystem.present p : OnDisk Bool).run d = ((d.kind p).isSome, d) := rfl

theorem run_about_snd {α : Type} (p : Path) (request : OnDisk (Answered α)) (d : Disk) :
    ((AnalysisError.about p request).run d).2 = (request.run d).2 := by
  rw [AnalysisError.about, run_bind]
  cases (request.run d).1 <;> rfl

theorem run_about_eq_error {α : Type} {request : OnDisk (Answered α)} {reason : AnalysisError}
    (h : (AnalysisError.about p request).run d = (.error reason, d')) :
    ∃ e, reason = .file p e ∧ request.run d = (.error e, d') := by
  rw [AnalysisError.about, run_bind] at h
  cases hrequest : request.run d with
  | mk answer after =>
    rw [hrequest] at h
    cases answer with
    | ok a => cases h
    | error e =>
      cases h
      exact ⟨e, rfl, rfl⟩

end OnDisk

end PluginGuard
