import PluginGuard.Proofs.Quarantine.Ends

/-!
# Evidence stays

A quarantine puts files only where nothing has been, so what is in the directory outlasts every
sequence of quarantines, whether these succeed or not, and no two archives end up under one path.
-/
namespace PluginGuard.Quarantine

open OnDisk PluginGuard.Path

variable {d d₁ d' : Disk} {p dir : Path} {a : Archive} {o : ScanOutcome}
  {occasion : Occasion} {place source target name n : String} {bytes x : List UInt8}
  {result : Except AnalysisError Path}

/-! ### Files beside the archive -/

theorem Leads.place_ne (h : Leads d p (dir.child n) source target bytes)
    (huntaken : Untaken d dir n) {q : Path} (hapart : Apart d p q)
    (hplace : d.target q = .ok (.named place false)) (hfile : d.fileAt? place = some x) :
    place ≠ source ∧ place ≠ target := by
  refine ⟨?_, Disk.ne_of_kind_eq_none huntaken.file h.target hfile⟩
  rintro rfl
  exact hapart place bytes h.file hplace

theorem Ends.read (h : Ends dir a o occasion d result d')
    (hfree : ∀ name d₁ n, Chosen dir a occasion d name d₁ n → Untaken d₁ dir n)
    (hapart : ∀ d₁, (FileSystem.makeDirectory dir : OnDisk _).run d = (.ok (), d₁) →
      Apart d₁ a.path p)
    (hread : d.read p = .ok x) : d'.read p = .ok x := by
  cases h with
  | kept hopens => exact hopens.read hread
  | copied hchosen hleads hcopied =>
    refine hcopied.read_again (hchosen.opens.read hread) fun place hplace hfile => ?_
    obtain ⟨-, htarget⟩ :=
      hleads.place_ne (hfree _ _ _ hchosen) (hapart _ hchosen.made) hplace hfile
    rw [Function.update_of_ne htarget, hfile]
  | stranded hchosen hleads hstranded =>
    refine hstranded.read_again (hchosen.opens.read hread) fun place hplace hfile => ?_
    obtain ⟨hsource, htarget⟩ :=
      hleads.place_ne (hfree _ _ _ hchosen) (hapart _ hchosen.made) hplace hfile
    rw [Function.update_of_ne htarget, Function.update_of_ne hsource, hfile]
  | done hchosen hleads hnote hdone =>
    refine hdone.read_again (hchosen.opens.read hread) fun place hplace hfile => ?_
    obtain ⟨hsource, htarget⟩ :=
      hleads.place_ne (hfree _ _ _ hchosen) (hapart _ hchosen.made) hplace hfile
    have hbeside := Disk.ne_of_kind_eq_none (hfree _ _ _ hchosen).note hnote hfile
    rw [Function.update_of_ne hbeside, Function.update_of_ne htarget, Function.update_of_ne hsource,
      hfile]

theorem Ends.read_target (h : Ends dir a o occasion d (.ok p) d')
    (hhash : '/' ∉ a.contentHash.toList) (hid : '/' ∉ occasion.id.digits.toList) :
    ∃ n bytes, p = dir.child n ∧ IsName n ∧ d'.read p = .ok bytes := by
  cases h with
  | @done name n source target note bytes d₁ _ hchosen hleads hnote hdone =>
    have hn := hchosen.isName hleads.file hhash hid
    refine ⟨n, bytes, rfl, hn, hdone.read hleads.target ?_⟩
    rw [Function.update_of_ne (ne_note hn hleads.target hnote), Function.update_self]

theorem Ends.ne_of_read (h : Ends dir a o occasion d (.ok p) d')
    (hfree : ∀ name d₁ n, Chosen dir a occasion d name d₁ n → Untaken d₁ dir n) {q : Path}
    (hread : d.read q = .ok x) : q ≠ p := by
  cases h with
  | done hchosen hleads hnote hdone =>
    rintro rfl
    have hkind := Disk.kind_of_read (hchosen.opens.read hread)
    rw [(hfree _ _ _ hchosen).file] at hkind
    cases hkind

/-! ### Sequences -/

def Preserves (dir : Path) (d d' : Disk) : Prop :=
  ∀ n bytes, IsName n → d.read (dir.child n) = .ok bytes → d'.read (dir.child n) = .ok bytes

theorem Preserves.trans (h : Preserves dir d d₁) (h' : Preserves dir d₁ d') :
    Preserves dir d d' :=
  fun n bytes hn hread => h' n bytes hn (h n bytes hn hread)

structure Call where
  archive : Archive
  outcome : ScanOutcome
  occasion : Occasion
  before : Disk

namespace Call

def answer (dir : Path) (c : Call) : Except AnalysisError Path :=
  ((quarantine dir c.archive c.outcome c.occasion : OnDisk _).run c.before).1

def after (dir : Path) (c : Call) : Disk :=
  ((quarantine dir c.archive c.outcome c.occasion : OnDisk _).run c.before).2

def Opened (dir : Path) (c : Call) (d : Disk) : Prop :=
  (FileSystem.makeDirectory dir : OnDisk _).run c.before = (.ok (), d)

/-- The archive is a file outside the directory, and the name of last resort, which has the
identifier of the occasion in it, is free there. -/
structure Fair (dir : Path) (c : Call) : Prop where
  file : ∀ {d}, c.Opened dir d → d.kind c.archive.path ≠ some .directory
  outside : ∀ {d}, c.Opened dir d → ∀ n, IsName n → Apart d c.archive.path (dir.child n)
  fresh : ∀ {d}, c.Opened dir d → ∀ name, c.archive.path.fileName? = some name →
    Untaken d dir (lastResort name c.archive.contentHash c.occasion.id)

/-- As with digits, no tag leads out of the directory. -/
structure IsPlain (c : Call) : Prop where
  hash : '/' ∉ c.archive.contentHash.toList
  id : '/' ∉ c.occasion.id.digits.toList

variable {c : Call} {calls : List Call}

theorem Fair.untaken (h : c.Fair dir)
    (hchosen : Chosen dir c.archive c.occasion c.before name d n) : Untaken d dir n := by
  obtain rfl | huntaken := hchosen.free
  · exact h.fresh hchosen.made name hchosen.fileName
  · exact huntaken

theorem Fair.ends (h : c.Fair dir) :
    Ends dir c.archive c.outcome c.occasion c.before (c.answer dir) (c.after dir) :=
  Quarantine.ends c.outcome (fun _ => h.file) fun _ _ _ hchosen => (h.untaken hchosen).apart

theorem Fair.preserves (h : c.Fair dir) : Preserves dir c.before (c.after dir) := by
  intro n bytes hn hread
  exact h.ends.read (fun _ _ _ => h.untaken) (fun d hmade => h.outside hmade n hn) hread

/-- What is in the directory after a call is there when any later one is made: the calls between
them preserve it, and so does what happens between calls. -/
theorem preserves_of_isChain (hfair : ∀ c' ∈ calls, Fair dir c')
    (hchain : (c :: calls).IsChain fun c c' => Preserves dir (c.after dir) c'.before) :
    ∀ c' ∈ calls, Preserves dir (c.after dir) c'.before := by
  induction calls generalizing c with
  | nil => simp
  | cons next rest ih =>
    obtain ⟨hnext, hrest⟩ := List.isChain_cons_cons.mp hchain
    rw [List.forall_mem_cons] at hfair
    refine List.forall_mem_cons.mpr ⟨hnext, fun c' hmem => ?_⟩
    exact (hnext.trans hfair.1.preserves).trans (ih hfair.2 hrest c' hmem)

theorem pairwise_preserves (hfair : ∀ c ∈ calls, Fair dir c)
    (hchain : calls.IsChain fun c c' => Preserves dir (c.after dir) c'.before) :
    calls.Pairwise fun c c' => Preserves dir (c.after dir) c'.before := by
  induction calls with
  | nil => exact .nil
  | cons c rest ih =>
    rw [List.forall_mem_cons] at hfair
    exact .cons (preserves_of_isChain hfair.2 hchain) (ih hfair.2 hchain.of_cons)

/-- However the calls end, no file of the directory is lost or changed by any of them, and those
that succeed give different paths. -/
theorem evidence_kept (dir : Path) (calls : List Call) (hfair : ∀ c ∈ calls, c.Fair dir)
    (hchain : calls.IsChain fun c c' => Preserves dir (c.after dir) c'.before) :
    (∀ c ∈ calls, Preserves dir c.before (c.after dir)) ∧
    (calls.Pairwise fun c c' => Preserves dir (c.after dir) (c'.after dir)) ∧
    (calls.Pairwise fun c c' => c.IsPlain →
      ∀ p p', c.answer dir = .ok p → c'.answer dir = .ok p' → p ≠ p') := by
  have hpreserves : ∀ c ∈ calls, Preserves dir c.before (c.after dir) :=
    fun c hc => (hfair c hc).preserves
  have hlater := pairwise_preserves hfair hchain
  refine ⟨hpreserves, ?_, ?_⟩
  · exact hlater.imp_of_mem fun _ hc' hkept => hkept.trans (hpreserves _ hc')
  · refine hlater.imp_of_mem fun {c c'} hc hc' hkept hplain p p' hp hp' => ?_
    have hends := (hfair c hc).ends
    have hends' := (hfair c' hc').ends
    rw [hp] at hends
    rw [hp'] at hends'
    -- The first archive is still there when the later call is made, so its name is not free.
    obtain ⟨n, bytes, rfl, hn, hread⟩ := hends.read_target hplain.hash hplain.id
    exact hends'.ne_of_read (fun _ _ _ => (hfair c' hc').untaken) (hkept n bytes hn hread)

theorem fair_of_fileName (name source target : String) (bytes : List UInt8)
    (hname : c.archive.path.fileName? = some name)
    (hopened : let last := lastResort name c.archive.contentHash c.occasion.id
      let d := ((FileSystem.makeDirectory dir : OnDisk _).run c.before).2
      d.find c.archive.path = .ok (source, .file bytes) ∧
        d.target (dir.child name) = .ok (.named target false) ∧
        d.kind (dir.child last) = none ∧ d.kind (dir.child (noteName last)) = none)
    (hne : source ≠ target) : c.Fair dir := by
  obtain ⟨hfile, htarget, hlast, hnote⟩ := hopened
  have hdisk : ∀ {d}, c.Opened dir d →
      ((FileSystem.makeDirectory dir : OnDisk _).run c.before).2 = d :=
    fun hd => congrArg Prod.snd hd
  refine ⟨fun hd => ?_, fun hd n hn => ?_, fun hd name' hname' => ?_⟩
  · rw [← hdisk hd, Disk.kind, hfile]
    intro hdirectory
    cases hdirectory
  · rw [← hdisk hd]
    by_cases hsame : name = n
    · subst hsame
      intro place bytes' hplace htarget'
      cases hfile.symm.trans hplace
      cases htarget.symm.trans htarget'
      exact hne rfl
    · exact apart_of_ne hname hn hsame
  · cases hname.symm.trans hname'
    rw [← hdisk hd]
    exact ⟨hlast, hnote⟩

def namesakes : Disk where
  current := ⟨"/"⟩
  nodes := ⟨[("/a", .directory), ("/a/p", .file [1]), ("/b", .directory), ("/b/p", .file [2])]⟩
  failures := []

def first : Call where
  archive := { shady with path := ⟨"/a/p"⟩ }
  outcome := condemned
  occasion := ⟨.ofNanosSince1970 0, .ofNanosSince1970 1, ⟨"0"⟩⟩
  before := namesakes

def second : Call where
  archive := { shady with path := ⟨"/b/p"⟩ }
  outcome := condemned
  occasion := ⟨.ofNanosSince1970 2, .ofNanosSince1970 3, ⟨"1"⟩⟩
  before := first.after ⟨"/q"⟩

/-- The second archive is not put over the first one. -/
theorem evidence_kept_namesakes : ∃ p p', first.answer ⟨"/q"⟩ = .ok p ∧
    second.answer ⟨"/q"⟩ = .ok p' ∧ p ≠ p' ∧ (second.after ⟨"/q"⟩).read p = .ok [1] := by
  have hfirst : first.Fair ⟨"/q"⟩ :=
    fair_of_fileName "p" "/a/p" "/q/p" [1] (by decide +kernel) (by decide +kernel) (by decide)
  have hsecond : second.Fair ⟨"/q"⟩ :=
    fair_of_fileName "p" "/b/p" "/q/p" [2] (by decide +kernel) (by decide +kernel) (by decide)
  obtain ⟨hkept, -, hdistinct⟩ := evidence_kept ⟨"/q"⟩ [first, second]
    (List.forall_mem_cons.mpr ⟨hfirst, List.forall_mem_singleton.mpr hsecond⟩)
    (List.isChain_cons_cons.mpr ⟨fun _ _ _ hread => hread, .singleton _⟩)
  have hanswer : first.answer ⟨"/q"⟩ = .ok ⟨"/q/p"⟩ := by decide +kernel
  have hanswer' : second.answer ⟨"/q"⟩ = .ok ⟨"/q/p-c3"⟩ := by decide +kernel
  have hmoved : (first.after ⟨"/q"⟩).read ⟨"/q/p"⟩ = .ok [1] := by decide +kernel
  refine ⟨_, _, hanswer, hanswer', ?_, ?_⟩
  · exact List.pairwise_pair.mp hdistinct ⟨by decide, by decide⟩ _ _ hanswer hanswer'
  · exact hkept second (List.mem_of_getLast? rfl) "p" [1]
      ⟨by decide, by decide, by decide, by decide⟩ hmoved

end Call

end PluginGuard.Quarantine
