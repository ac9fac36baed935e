import PluginGuard.Proofs.Disk.Contents
import PluginGuard.Proofs.Text.Cut
import PluginGuard.Scan.Quarantine

/-!
# How a quarantine ends

A tag goes into the middle of a name and makes it longer, as does the end that makes it the name
of a note, and neither brings a slash into it. A name is only chosen where neither it nor its note
is there, save the last one that is tried.

A file is moved, or it stays, or it stays and a copy of it is there as well. What has been moved
is not brought back when its note cannot be written, so an enforcement that fails leaves the
archive at its path unless it says that it failed there or at the note.
-/
namespace PluginGuard.Quarantine

open OnDisk PluginGuard.Path Text
open Function (update)

variable {d d₁ d' : Disk} {p q dir : Path} {a : Archive} {o : ScanOutcome} {occasion : Occasion}
  {source target note name n tag contentHash : String} {id : RecordId} {bytes : List UInt8}

/-! ### Names -/

theorem exists_toList_tagged (name tag : String) : ∃ stem rest, name.toList = stem ++ rest ∧
    (tagged name tag).toList = stem ++ '-' :: tag.toList ++ rest := by
  by_cases hdot : '.' ∈ name.toList
  · obtain ⟨before, after, hname, hafter⟩ := exists_last_of_mem hdot
    have hcut := cutLast?_append before hafter
    rw [← hname] at hcut
    cases before with
    | nil =>
      -- The only dot begins the name.
      have hsplit : splitExtension name = (name, none) := by rw [splitExtension, hcut]
      exact ⟨name.toList, [], (List.append_nil _).symm, by simp [tagged, hsplit, toString]⟩
    | cons c cs =>
      have hsplit : splitExtension name =
        (String.ofList (c :: cs), some (String.ofList after)) := by rw [splitExtension, hcut]
      exact ⟨c :: cs, '.' :: after, hname, by simp [tagged, hsplit, toString]⟩
  · have hsplit : splitExtension name = (name, none) := by
      rw [splitExtension, cutLast?_eq_none hdot]
    exact ⟨name.toList, [], (List.append_nil _).symm, by simp [tagged, hsplit, toString]⟩

theorem length_tagged (name tag : String) : name.length < (tagged name tag).length := by
  obtain ⟨stem, rest, hname, htagged⟩ := exists_toList_tagged name tag
  rw [← String.length_toList, ← String.length_toList, hname, htagged]
  simp only [List.length_append, List.length_cons]
  omega

theorem isName_tagged (hname : '/' ∉ name.toList) (htag : '/' ∉ tag.toList) :
    IsName (tagged name tag) := by
  obtain ⟨stem, rest, hsplit, htagged⟩ := exists_toList_tagged name tag
  refine isName_of_mem (c := '-') (by simp [htagged]) (by decide) ?_
  rw [hsplit] at hname
  simp_all

theorem length_noteName (name : String) : name.length < (noteName name).length := by
  rw [noteName, String.length_append]
  exact Nat.lt_add_of_pos_right (by decide)

theorem isName_noteName (h : '/' ∉ name.toList) : IsName (noteName name) :=
  isName_of_mem (c := 'q') (by simp [noteName]) (by decide) (by simp [noteName, h])

/-- The name that is taken unseen where the others are not free. -/
def lastResort (name contentHash : String) (id : RecordId) : String :=
  tagged name s!"{hashTag contentHash}-{id.short}"

inductive IsCandidate (name contentHash : String) (id : RecordId) : String → Prop
  | plain : IsCandidate name contentHash id name
  | hash : IsCandidate name contentHash id (tagged name (hashTag contentHash))
  | lastResort : IsCandidate name contentHash id (lastResort name contentHash id)

structure Untaken (d : Disk) (dir : Path) (n : String) : Prop where
  file : d.kind (dir.child n) = none
  note : d.kind (dir.child (noteName n)) = none

theorem IsCandidate.length_le (h : IsCandidate name contentHash id n) :
    name.length ≤ n.length := by
  cases h with
  | plain => exact Nat.le_refl _
  | hash => exact (length_tagged _ _).le
  | lastResort => exact (length_tagged _ _).le

theorem slash_not_mem_lastTag (hhash : '/' ∉ contentHash.toList) (hid : '/' ∉ id.digits.toList) :
    '/' ∉ (s!"{hashTag contentHash}-{id.short}").toList := by
  have hhash' : '/' ∉ contentHash.toList.take 12 := fun h => hhash (List.mem_of_mem_take h)
  have hid' : '/' ∉ id.digits.toList.take 8 := fun h => hid (List.mem_of_mem_take h)
  simp [hashTag, RecordId.short, toString, hhash', hid']

theorem IsCandidate.isName (h : IsCandidate name contentHash id n) (hname : IsName name)
    (hhash : '/' ∉ contentHash.toList) (hid : '/' ∉ id.digits.toList) : IsName n := by
  cases h with
  | plain => exact hname
  | hash =>
    refine isName_tagged hname.noSlash fun h => hhash ?_
    rw [hashTag, String.toList_ofList] at h
    exact List.mem_of_mem_take h
  | lastResort => exact isName_tagged hname.noSlash (slash_not_mem_lastTag hhash hid)

theorem run_taken (d : Disk) (dir : Path) (n : String) : ∃ b,
    (taken dir n : OnDisk Bool).run d = (b, d) ∧ (b = false → Untaken d dir n) := by
  rw [taken, run_bind, run_present]
  cases hfile : d.kind (dir.child n) with
  | some kind => exact ⟨true, rfl, fun h => absurd h (by decide)⟩
  | none =>
    refine ⟨(d.kind (dir.child (noteName n))).isSome, rfl, fun hnote => ⟨hfile, ?_⟩⟩
    simpa using hnote

theorem run_freeName (d : Disk) (dir : Path) (name contentHash : String) (id : RecordId) :
    ∃ n, (freeName dir name contentHash id : OnDisk String).run d = (n, d) ∧
      IsCandidate name contentHash id n ∧
      (n = lastResort name contentHash id ∨ Untaken d dir n) := by
  obtain ⟨b, hplain, hfree⟩ := run_taken d dir name
  rw [freeName, run_bind, hplain]
  cases b with
  | false => exact ⟨name, rfl, .plain, .inr (hfree rfl)⟩
  | true =>
    obtain ⟨b, hhash, hfree⟩ := run_taken d dir (tagged name (hashTag contentHash))
    simp only [Bool.not_true, Bool.false_eq_true, if_false]
    rw [run_bind, hhash]
    cases b with
    | false => exact ⟨_, rfl, .hash, .inr (hfree rfl)⟩
    | true => exact ⟨_, rfl, .lastResort, .inl rfl⟩

/-! ### Moves -/

structure Leads (d : Disk) (p q : Path) (source target : String) (bytes : List UInt8) : Prop where
  file : d.find p = .ok (source, .file bytes)
  target : d.target q = .ok (.named target false)

theorem Leads.of_becomes (h : d.Becomes d.fileAt? d₁) (hleads : Leads d₁ p q source target bytes) :
    Leads d p q source target bytes := by
  obtain ⟨hsource, hfile⟩ := Disk.find_eq_file.mp hleads.file
  rw [h.files] at hfile
  exact ⟨Disk.find_eq_file.mpr ⟨h.target_iff.mp hsource, hfile⟩, h.target_iff.mp hleads.target⟩

def Apart (d : Disk) (p q : Path) : Prop :=
  ∀ place bytes, d.find p = .ok (place, .file bytes) → d.target q ≠ .ok (.named place false)

theorem Leads.ne (h : Leads d p q source target bytes) (hapart : Apart d p q) :
    source ≠ target := by
  rintro rfl
  exact hapart source bytes h.file h.target

theorem Untaken.apart (h : Untaken d dir n) : Apart d p (dir.child n) := by
  intro place bytes hfile htarget
  have hfound := Disk.find_eq_file.mpr ⟨htarget, (Disk.find_eq_file.mp hfile).2⟩
  have hkind := h.file
  rw [Disk.kind, hfound] at hkind
  cases hkind

theorem apart_of_ne (hfileName : p.fileName? = some name) (hn : IsName n) (hne : name ≠ n) :
    Apart d p (dir.child n) := by
  intro place bytes hfile htarget
  have hsame := Disk.fileName?_of_target (Disk.find_eq_file.mp hfile).1 htarget
  rw [hfileName, fileName?_child hn] at hsame
  exact hne (Option.some.inj hsame)

inductive Moves (d : Disk) (p q : Path) : Except AnalysisError Unit → Disk → Prop
  | stuck {reason : AnalysisError} {d' : Disk} : d.Becomes d.fileAt? d' →
      Moves d p q (.error reason) d'
  | copied {e : FileError} {source target : String} {bytes : List UInt8} {d' : Disk} :
      Leads d p q source target bytes → d.Becomes (update d.fileAt? target (some bytes)) d' →
      Moves d p q (.error (.file p e)) d'
  | moved {source target : String} {bytes : List UInt8} {d' : Disk} :
      Leads d p q source target bytes →
      d.Becomes (update (update d.fileAt? source none) target (some bytes)) d' →
      Moves d p q (.ok ()) d'

theorem moves (hkind : d.kind p ≠ some .directory) (hapart : Apart d p q) :
    Moves d p q ((moveFile p q : OnDisk _).run d).1 ((moveFile p q : OnDisk _).run d).2 := by
  rw [moveFile, run_bind]
  generalize hrename : (FileSystem.rename p q : OnDisk _).run d = renamed
  obtain ⟨e | _, d₁⟩ := renamed
  · -- The rename has changed nothing, so what the copy finds was there before.
    have hself := becomes_of_request_error hrename
    simp only
    rw [run_bind]
    generalize hcopy : (AnalysisError.about q (FileSystem.copy p q) : OnDisk _).run d₁ = copied
    obtain ⟨reason | _, d₂⟩ := copied
    · obtain ⟨e, -, hfails⟩ := run_about_eq_error hcopy
      have hstuck := hself.trans (becomes_of_request_error hfails)
      rw [hself.files] at hstuck
      exact .stuck hstuck
    · obtain ⟨source, bytes, target, hfile, htarget, hcopied⟩ :=
        becomes_of_run_copy (run_about_eq_ok hcopy)
      have hleads : Leads d p q source target bytes := .of_becomes hself ⟨hfile, htarget⟩
      have hboth := hself.trans hcopied
      rw [hself.files] at hboth
      simp only
      generalize hremove : (AnalysisError.about p (FileSystem.remove p) : OnDisk _).run d₂ = removed
      obtain ⟨reason | _, d₃⟩ := removed
      · obtain ⟨e, rfl, hfails⟩ := run_about_eq_error hremove
        have hkept := hboth.trans (becomes_of_request_error hfails)
        rw [hboth.files] at hkept
        exact .copied hleads hkept
      · obtain ⟨source', bytes', hfile', hremoved⟩ :=
          becomes_of_run_remove (run_about_eq_ok hremove)
        have hsource := hboth.target_iff.mp (Disk.find_eq_file.mp hfile').1
        rw [(Disk.find_eq_file.mp hleads.file).1] at hsource
        cases hsource
        have hmoved := hboth.trans hremoved
        rw [hboth.files, Function.update_comm (hleads.ne hapart).symm] at hmoved
        exact .moved hleads hmoved
  · obtain ⟨source, bytes, target, hfile, htarget, hmoved⟩ := becomes_of_run_rename hrename hkind
    exact .moved ⟨hfile, htarget⟩ hmoved

/-! ### Quarantines -/

structure Chosen (dir : Path) (a : Archive) (occasion : Occasion) (d : Disk) (name : String)
    (d₁ : Disk) (n : String) : Prop where
  fileName : a.path.fileName? = some name
  made : (FileSystem.makeDirectory dir : OnDisk _).run d = (.ok (), d₁)
  candidate : IsCandidate name a.contentHash occasion.id n
  free : n = lastResort name a.contentHash occasion.id ∨ Untaken d₁ dir n

theorem Chosen.opens (h : Chosen dir a occasion d name d₁ n) : d.Opens d₁ := by
  have hopens := opens_of_run_makeDirectory dir d
  rwa [h.made] at hopens

def noteBytes (a : Archive) (o : ScanOutcome) (occasion : Occasion) : List UInt8 :=
  Text.Utf8.encode (Quarantine.note a o occasion).written.pretty

/-- Where the archive is when a quarantine ends: at its path, at both, or only in the directory,
without a note or with one. -/
inductive Ends (dir : Path) (a : Archive) (o : ScanOutcome) (occasion : Occasion) (d : Disk) :
    Except AnalysisError Path → Disk → Prop
  | kept {reason : AnalysisError} {d' : Disk} : d.Opens d' →
      Ends dir a o occasion d (.error reason) d'
  | copied {name n source target : String} {bytes : List UInt8} {e : FileError} {d₁ d' : Disk} :
      Chosen dir a occasion d name d₁ n → Leads d₁ a.path (dir.child n) source target bytes →
      d₁.Becomes (update d₁.fileAt? target (some bytes)) d' →
      Ends dir a o occasion d (.error (.file a.path e)) d'
  | stranded {name n source target : String} {bytes : List UInt8} {e : FileError} {d₁ d' : Disk} :
      Chosen dir a occasion d name d₁ n → Leads d₁ a.path (dir.child n) source target bytes →
      d₁.Becomes (update (update d₁.fileAt? source none) target (some bytes)) d' →
      Ends dir a o occasion d (.error (.file (dir.child (noteName n)) e)) d'
  | done {name n source target note : String} {bytes : List UInt8} {d₁ d' : Disk} :
      Chosen dir a occasion d name d₁ n → Leads d₁ a.path (dir.child n) source target bytes →
      d₁.target (dir.child (noteName n)) = .ok (.named note false) →
      d₁.Becomes (update (update (update d₁.fileAt? source none) target (some bytes)) note
        (some (noteBytes a o occasion))) d' →
      Ends dir a o occasion d (.ok (dir.child n)) d'

theorem ends (o : ScanOutcome)
    (hkind : ∀ d₁, (FileSystem.makeDirectory dir : OnDisk _).run d = (.ok (), d₁) →
      d₁.kind a.path ≠ some .directory)
    (hapart : ∀ name d₁ n, Chosen dir a occasion d name d₁ n → Apart d₁ a.path (dir.child n)) :
    Ends dir a o occasion d ((quarantine dir a o occasion : OnDisk _).run d).1
      ((quarantine dir a o occasion : OnDisk _).run d).2 := by
  unfold quarantine
  cases hname : a.path.fileName? with
  | none => exact .kept (Disk.opens_self d)
  | some name =>
    simp only
    rw [run_bind]
    have hopens := opens_of_run_makeDirectory dir d
    rw [← run_about_snd dir] at hopens
    generalize hmake : (AnalysisError.about dir (FileSystem.makeDirectory dir)
      : OnDisk _).run d = made at hopens
    obtain ⟨reason | _, d₁⟩ := made
    · exact .kept hopens
    · have hmade := run_about_eq_ok hmake
      obtain ⟨n, hfree, hcandidate, hchoice⟩ :=
        run_freeName d₁ dir name a.contentHash occasion.id
      have hchosen : Chosen dir a occasion d name d₁ n := ⟨hname, hmade, hcandidate, hchoice⟩
      simp only
      rw [run_bind, hfree, run_bind]
      have hmoves := moves (hkind d₁ hmade) (hapart name d₁ n hchosen)
      generalize (moveFile a.path (dir.child n) : OnDisk _).run d₁ = moved at hmoves
      obtain ⟨answer, d₂⟩ := moved
      cases hmoves with
      | stuck hstuck => exact .kept (hopens.trans hstuck.opens)
      | copied hleads hcopied => exact .copied hchosen hleads hcopied
      | moved hleads hmoved =>
        simp only
        rw [run_bind]
        generalize hwrite : (AnalysisError.about (dir.child (noteName n))
          (FileSystem.write (dir.child (noteName n)) (Text.Utf8.encode
            (Quarantine.note a o occasion).written.pretty)) : OnDisk _).run d₂ = written
        obtain ⟨reason | _, d₃⟩ := written
        · obtain ⟨e, rfl, hfails⟩ := run_about_eq_error hwrite
          have hstranded := hmoved.trans (becomes_of_request_error hfails)
          rw [hmoved.files] at hstranded
          exact .stranded hchosen hleads hstranded
        · obtain ⟨note, hnote, hwritten⟩ := becomes_of_run_write (run_about_eq_ok hwrite)
          have hdone := hmoved.trans hwritten
          rw [hmoved.files] at hdone
          exact .done hchosen hleads (hmoved.target_iff.mp hnote) hdone

/-! ### Enforcements -/

theorem Chosen.isName (h : Chosen dir a occasion d name d₁ n)
    (hfile : d₁.find a.path = .ok (source, .file bytes)) (hhash : '/' ∉ a.contentHash.toList)
    (hid : '/' ∉ occasion.id.digits.toList) : IsName n := by
  obtain ⟨name', hfileName, hname, -⟩ :=
    Disk.exists_below_of_target (Disk.find_eq_file.mp hfile).1
  rw [h.fileName, Option.some.injEq] at hfileName
  exact h.candidate.isName (hfileName ▸ hname) hhash hid

/-- Even where a file that has the name of last resort is overwritten, it is not the archive. -/
theorem Chosen.apart (h : Chosen dir a occasion d name d₁ n) (hhash : '/' ∉ a.contentHash.toList)
    (hid : '/' ∉ occasion.id.digits.toList) : Apart d₁ a.path (dir.child n) := by
  obtain rfl | huntaken := h.free
  · intro source bytes hfile
    refine apart_of_ne h.fileName (h.isName hfile hhash hid) (fun hsame => ?_) source bytes hfile
    exact (length_tagged name _).ne (congrArg String.length hsame)
  · exact huntaken.apart

theorem Chosen.apart_note (h : Chosen dir a occasion d name d₁ n) (hn : IsName n) :
    Apart d₁ a.path (dir.child (noteName n)) := by
  refine apart_of_ne h.fileName (isName_noteName hn.noSlash) fun hsame => ?_
  have hlength := h.candidate.length_le.trans_lt (length_noteName n)
  exact hlength.ne (congrArg String.length hsame)

theorem ne_note (hn : IsName n) (htarget : d.target (dir.child n) = .ok (.named target false))
    (hnote : d.target (dir.child (noteName n)) = .ok (.named note false)) : target ≠ note := by
  rintro rfl
  have hsame := Disk.fileName?_of_target htarget hnote
  rw [fileName?_child hn, fileName?_child (isName_noteName hn.noSlash)] at hsame
  exact (length_noteName n).ne (congrArg String.length (Option.some.inj hsame))

theorem Leads.bytes_eq {other : List UInt8} (h : Leads d p q source target bytes)
    (hread : d.read p = .ok other) : bytes = other := by
  rw [Disk.read, h.file] at hread
  exact Except.ok.inj hread

theorem ends_of_read (dir : Path) (o : ScanOutcome) (hread : d.read a.path = .ok bytes)
    (hhash : '/' ∉ a.contentHash.toList) (hid : '/' ∉ occasion.id.digits.toList) :
    Ends dir a o occasion d ((quarantine dir a o occasion : OnDisk _).run d).1
      ((quarantine dir a o occasion : OnDisk _).run d).2 := by
  refine ends o (fun d₁ hmade => ?_) fun name d₁ n hchosen => hchosen.apart hhash hid
  have hopens := opens_of_run_makeDirectory dir d
  rw [hmade] at hopens
  simp [Disk.kind_of_read (hopens.read hread)]

theorem Ends.of_ok {moved : Path} (h : Ends dir a o occasion d (.ok moved) d')
    (hread : d.read a.path = .ok bytes) (hhash : '/' ∉ a.contentHash.toList)
    (hid : '/' ∉ occasion.id.digits.toList) :
    d'.kind a.path = none ∧ d'.read moved = .ok bytes ∧ ∃ n, moved = dir.child n ∧
      d'.read (dir.child (noteName n)) = .ok (noteBytes a o occasion) := by
  cases h with
  | @done name n source target note bytes' d₁ _ hchosen hleads hnote hdone =>
    have hn := hchosen.isName hleads.file hhash hid
    have htarget := hleads.ne (hchosen.apart hhash hid)
    have hsource : source ≠ note := fun hsame =>
      hchosen.apart_note hn source bytes' hleads.file (hsame ▸ hnote)
    obtain rfl := hleads.bytes_eq (hchosen.opens.read hread)
    refine ⟨hdone.kind_eq_none hleads.file ?_, hdone.read hleads.target ?_, n, rfl,
      hdone.read hnote (Function.update_self ..)⟩
    · rw [Function.update_of_ne hsource, Function.update_of_ne htarget, Function.update_self]
    · rw [Function.update_of_ne (ne_note hn hleads.target hnote), Function.update_self]

theorem Ends.of_error {reason : AnalysisError} (h : Ends dir a o occasion d (.error reason) d')
    (hread : d.read a.path = .ok bytes) (hhash : '/' ∉ a.contentHash.toList)
    (hid : '/' ∉ occasion.id.digits.toList) :
    d.Opens d' ∨
      (∃ n e, reason = .file a.path e ∧ d'.read a.path = .ok bytes ∧
        d'.read (dir.child n) = .ok bytes) ∨
      ∃ n e, reason = .file (dir.child (noteName n)) e ∧ d'.kind a.path = none ∧
        d'.read (dir.child n) = .ok bytes := by
  cases h with
  | kept hopens => exact .inl hopens
  | @copied name n source target bytes' e d₁ _ hchosen hleads hcopied =>
    obtain rfl := hleads.bytes_eq (hchosen.opens.read hread)
    obtain ⟨hsource, hfile⟩ := Disk.find_eq_file.mp hleads.file
    refine .inr (.inl ⟨n, e, rfl, hcopied.read hsource ?_,
      hcopied.read hleads.target (Function.update_self ..)⟩)
    rw [Function.update_of_ne (hleads.ne (hchosen.apart hhash hid)), hfile]
  | @stranded name n source target bytes' e d₁ _ hchosen hleads hstranded =>
    obtain rfl := hleads.bytes_eq (hchosen.opens.read hread)
    refine .inr (.inr ⟨n, e, rfl, hstranded.kind_eq_none hleads.file ?_,
      hstranded.read hleads.target (Function.update_self ..)⟩)
    rw [Function.update_of_ne (hleads.ne (hchosen.apart hhash hid)), Function.update_self]

theorem run_enforce (dir : Path) (a : Archive) (outcomes : List ScanOutcome) (occasion : Occasion)
    (d : Disk) :
    let ran := (enforce dir a outcomes occasion : OnDisk Enforcement).run d
    (ran.1.quarantinedTo = none ∧ ran.1.failure = none ∧ ran.2 = d) ∨
      ∃ o ∈ outcomes, o.countermeasure = some .quarantine ∧ ∃ answer,
        (quarantine dir a o occasion : OnDisk _).run d = (answer, ran.2) ∧
        ran.1.quarantinedTo = answer.toOption ∧
        ∀ reason, ran.1.failure = some reason ↔ answer = .error reason := by
  dsimp only
  unfold enforce
  dsimp only
  generalize Countermeasure.strongest? (outcomes.filterMap (·.countermeasure)) = strongest
  split
  · rename_i culprit hculprit
    have hcarried := List.find?_some hculprit
    rw [Option.isSome_some, Bool.true_and, beq_iff_eq] at hcarried
    refine .inr ⟨culprit, List.mem_of_find?_eq_some hculprit, hcarried,
      ((quarantine dir a culprit occasion : OnDisk _).run d).1, ?_⟩
    rw [run_bind]
    generalize (quarantine dir a culprit occasion : OnDisk _).run d = quarantined
    obtain ⟨reason | moved, d'⟩ := quarantined
    · exact ⟨rfl, rfl, fun _ => ⟨fun h => congrArg Except.error (Option.some.inj h),
        fun h => congrArg some (Except.error.inj h)⟩⟩
    · exact ⟨rfl, rfl, fun _ => by simp⟩
  · exact .inl ⟨rfl, rfl, rfl⟩

/-- A quarantined archive is gone from its path, and in the directory there are its bytes and its
note. After a failure no file is changed, or the archive could not be removed and there is a copy
of it, or its note could not be written and it is in the directory only. -/
theorem ends_of_enforce (dir : Path) (a : Archive) (outcomes : List ScanOutcome)
    (occasion : Occasion) (d : Disk) (hread : d.read a.path = .ok bytes)
    (hhash : '/' ∉ a.contentHash.toList) (hid : '/' ∉ occasion.id.digits.toList) :
    let ran := (enforce dir a outcomes occasion : OnDisk Enforcement).run d
    (∀ moved, ran.1.quarantinedTo = some moved → ran.1.failure = none ∧
      ran.2.kind a.path = none ∧ ran.2.read moved = .ok bytes ∧
      ∃ n, moved = dir.child n ∧ ∃ o ∈ outcomes, o.countermeasure = some .quarantine ∧
        ran.2.read (dir.child (noteName n)) = .ok (noteBytes a o occasion)) ∧
    (∀ reason, ran.1.failure = some reason → ran.1.quarantinedTo = none ∧
      (d.Opens ran.2 ∨
        (∃ n e, reason = .file a.path e ∧ ran.2.read a.path = .ok bytes ∧
          ran.2.read (dir.child n) = .ok bytes) ∨
        ∃ n e, reason = .file (dir.child (noteName n)) e ∧ ran.2.kind a.path = none ∧
          ran.2.read (dir.child n) = .ok bytes)) ∧
    (ran.1.quarantinedTo = none → ran.1.failure = none → ran.2 = d) := by
  intro ran
  obtain ⟨hto, hfailure, hdisk⟩ | ⟨o, ho, hcountermeasure, answer, hrun, hto, hfailure⟩ :=
    run_enforce dir a outcomes occasion d
  · refine ⟨fun moved h => ?_, fun reason h => ?_, fun _ _ => hdisk⟩
    · cases hto.symm.trans h
    · cases hfailure.symm.trans h
  · have hends := ends_of_read dir o hread hhash hid
    rw [hrun] at hends
    cases answer with
    | ok moved =>
      obtain ⟨hgone, hmoved, n, hn, hnote⟩ := hends.of_ok hread hhash hid
      refine ⟨fun moved' h => ?_, fun reason h => ?_, fun h _ => ?_⟩
      · cases hto.symm.trans h
        refine ⟨Option.eq_none_iff_forall_ne_some.mpr fun reason h => ?_, hgone, hmoved, n, hn, o,
          ho, hcountermeasure, hnote⟩
        cases (hfailure reason).mp h
      · cases (hfailure reason).mp h
      · cases hto.symm.trans h
    | error reason =>
      refine ⟨fun moved h => ?_, fun reason' h => ?_, fun _ h => ?_⟩
      · cases hto.symm.trans h
      · cases (hfailure reason').mp h
        exact ⟨hto, hends.of_error hread hhash hid⟩
      · cases h.symm.trans ((hfailure reason).mpr rfl)

def shady : Archive where
  path := ⟨"/p"⟩
  name := none
  descriptor := none
  classes := []
  unreadable := []
  contentHash := "c3"

def condemned : ScanOutcome := ⟨"t", .clean, false, some .quarantine⟩

def plagued (failures : List Bool) : Disk := ⟨⟨"/"⟩, ⟨[("/p", .file [80, 75])]⟩, failures⟩

theorem ends_of_enforce_shady :
    let ran := (enforce ⟨"/q"⟩ shady [condemned] ⟨.ofNanosSince1970 0, .ofNanosSince1970 1, ⟨"0"⟩⟩
      : OnDisk Enforcement).run (plagued [])
    ran.2.kind ⟨"/p"⟩ = none ∧ ran.2.read ⟨"/q/p"⟩ = .ok [80, 75] := by
  intro ran
  have hread : (plagued []).read shady.path = .ok [80, 75] := by decide +kernel
  obtain ⟨hmoved, -⟩ := ends_of_enforce ⟨"/q"⟩ shady [condemned] ⟨.ofNanosSince1970 0, .ofNanosSince1970 1, ⟨"0"⟩⟩
    (plagued []) hread (by decide) (by decide)
  obtain ⟨-, hgone, hcopy, -⟩ := hmoved ⟨"/q/p"⟩ (by decide +kernel)
  exact ⟨hgone, hcopy⟩

/-- Only the note cannot be written, and the archive is not at its path any more. -/
theorem gone_after_failure :
    let ran := (enforce ⟨"/q"⟩ shady [condemned] ⟨.ofNanosSince1970 0, .ofNanosSince1970 1, ⟨"0"⟩⟩
      : OnDisk Enforcement).run (plagued [false, false, true])
    (plagued [false, false, true]).read shady.path = .ok [80, 75] ∧ ran.1.failure.isSome ∧
      ran.1.quarantinedTo = none ∧ ran.2.kind shady.path = none := by
  decide +kernel

end PluginGuard.Quarantine
