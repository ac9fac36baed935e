import PluginGuard.Proofs.Scan.Names

/-!
# What a result covers

A result of a built-in scanner has a line on every entry of the archive that could not be looked
at, so one without lines means that every class was parsed and every visit was made. It has none
on a body that cannot be decoded: to these scanners such a method is one without a body.
-/
namespace PluginGuard.Scan

open ClassFile (Fault)

namespace Scanner

variable {s : Scanner} {contents : Contents}

theorem exists_run_of_builtin (hs : s ∈ builtin) (hsize : contents.size < 2 ^ 28) :
    ∃ r, s.run contents = .ok r := by
  obtain rfl | ⟨found, hfinds⟩ := eq_names_or_exists_finds hs
  · exact Names.exists_run hsize
  · have hlength := hfinds.length_le_size contents
    refine ⟨Findings.conclusion s.response (contents.notices ++ contents.visits.flatMap found), ?_⟩
    rw [hfinds.run, Fallible.mapError_eq_ok, Findings.told_eq_ok_iff]
    exact ⟨score_notices_append_lt contents (by omega), rfl⟩

theorem run_of_builtin (hs : s ∈ builtin) {r : ScanResult} (hrun : s.run contents = .ok r) :
    ∃ f more, s.each id contents.visits (noted contents) = .next f ∧
      r = Findings.conclusion s.response (contents.notices ++ more) := by
  obtain rfl | ⟨found, hfinds⟩ := eq_names_or_exists_finds hs
  · exact Names.run_eq_ok hrun
  · have htold := hrun
    rw [hfinds.run, Fallible.mapError_eq_ok] at htold
    rw [hfinds.looks.run, Fallible.mapError_eq_ok] at hrun
    obtain ⟨g, hg, -⟩ := Fallible.bind_eq_ok.mp hrun
    obtain ⟨f, hf, -⟩ := Fallible.bind_eq_ok.mp hg
    refine ⟨f, _, ?_, (Findings.told_eq_ok_iff.mp htold).2⟩
    rw [hfinds.looks.each, hf, Step.of]

theorem exists_overflow_of_builtin (hs : s ∈ builtin) {message : String}
    (hrun : s.run contents = .error message) : ∃ o : Overflow, message = o.message := by
  obtain rfl | ⟨found, hfinds⟩ := eq_names_or_exists_finds hs
  · obtain ⟨keys, -, hlooks⟩ := Names.exists_looks
    exact hlooks.exists_overflow hrun
  · exact hfinds.looks.exists_overflow hrun

end Scanner

/-! ### Bodies that cannot be decoded -/

def MethodView.legible (m : MethodView) : MethodView where
  access := m.access
  name := m.name
  descriptor := m.descriptor
  body := match m.body with
    | .ok body => .ok body
    | .error _ => .ok none

def ClassView.legible (c : ClassView) : ClassView :=
  { c with methods := c.methods.map MethodView.legible }

def Contents.legible (contents : Contents) : Contents :=
  { contents with classes := contents.classes.map ClassView.legible }

def Visit.legible : Visit → Visit
  | .ofClass c => .ofClass c.legible
  | .ofField c f => .ofField c.legible f
  | .ofMethod c m => .ofMethod c.legible m.legible

section

variable (c : ClassView) (m : MethodView)

theorem MethodView.instructions_legible : m.legible.instructions = m.instructions := by
  unfold legible instructions
  cases m.body <;> rfl

theorem ClassView.calls_legible : c.legible.calls m.legible = c.calls m := by
  rw [calls, calls, m.instructions_legible]
  rfl

theorem ClassView.loadedStrings_legible : c.legible.loadedStrings m.legible = c.loadedStrings m := by
  rw [loadedStrings, loadedStrings, m.instructions_legible]
  rfl

theorem ClassView.visits_legible : c.legible.visits = c.visits.map Visit.legible := by
  simp [visits, legible, Visit.legible, Function.comp_def]

theorem Contents.visits_legible (contents : Contents) :
    contents.legible.visits = contents.visits.map Visit.legible := by
  simp only [visits_eq, legible, List.flatMap_map, List.map_flatMap, ClassView.visits_legible]

end

/-! ### Looks that overlook them -/

theorem ProcessExec.look_legible (c : ClassView) (m : MethodView) :
    look c.legible m.legible = look c m := by
  unfold look
  rw [c.calls_legible, c.loadedStrings_legible]
  rfl

theorem NativeCode.look_legible (c : ClassView) (m : MethodView) :
    look c.legible m.legible = look c m := by
  unfold look
  rw [c.calls_legible]
  rfl

theorem ClassLoading.lookMethod_legible (c : ClassView) (m : MethodView) :
    lookMethod c.legible m.legible = lookMethod c m := by
  unfold lookMethod
  rw [c.calls_legible]
  rfl

theorem SecurityTamper.look_legible (c : ClassView) (m : MethodView) :
    look c.legible m.legible = look c m := by
  unfold look
  rw [c.calls_legible, c.loadedStrings_legible]
  rfl

theorem PrivilegeGrant.look_legible (c : ClassView) (m : MethodView) :
    look c.legible m.legible = look c m := by
  have hafter : afterTrue m.legible = afterTrue m := by
    unfold afterTrue
    rw [m.instructions_legible]
  unfold look
  rw [c.calls_legible, c.loadedStrings_legible, hafter]
  rfl

namespace Scanner

/-- The scanner sees no difference between a body that cannot be decoded and none. -/
def Overlooks (s : Scanner) : Prop := ∀ v f, s.visit v.legible f = s.visit v f

theorem overlooks_ofMethods (name : String) (response : Response)
    {look : ClassView → MethodView → Findings → Except Overflow Findings}
    (hlook : ∀ c m, look c.legible m.legible = look c m) : (ofMethods name response look).Overlooks :=
  fun v f => by
    cases v with
    | ofMethod c m => exact congrArg Step.of (congrFun (hlook c m) f)
    | ofClass c => rfl
    | ofField c fd => rfl

theorem overlooks_of_builtin {s : Scanner} (hs : s ∈ builtin) : s.Overlooks := by
  simp only [builtin, List.mem_cons, List.not_mem_nil, or_false] at hs
  rcases hs with rfl | rfl | rfl | rfl | rfl | rfl | rfl
  · exact overlooks_ofMethods _ _ ProcessExec.look_legible
  · exact overlooks_ofMethods _ _ NativeCode.look_legible
  · intro v f
    cases v with
    | ofMethod c m => exact congrArg Step.of (congrFun (ClassLoading.lookMethod_legible c m) f)
    | ofClass c => rfl
    | ofField c fd => rfl
  · exact overlooks_ofMethods _ _ SecurityTamper.look_legible
  · exact overlooks_ofMethods _ _ PrivilegeGrant.look_legible
  · intro v f
    cases v <;> rfl
  · intro v f
    cases v <;> rfl

theorem Overlooks.each {s : Scanner} (h : s.Overlooks) (visits : List Visit) (f : Findings) :
    s.each id (visits.map Visit.legible) f = s.each id visits f := by
  induction visits generalizing f with
  | nil => rfl
  | cons v visits ih =>
    rw [List.map_cons, Scanner.each, Scanner.each, id_eq, id_eq, h]
    exact congrArg _ (funext ih)

theorem Overlooks.run {s : Scanner} (h : s.Overlooks) (contents : Contents) :
    s.run contents.legible = s.run contents := by
  rw [Scanner.run, Scanner.run, walk_eq_each, walk_eq_each, ← Contents.visits_eq,
    ← Contents.visits_eq, contents.visits_legible, h.each]
  rfl

end Scanner

/-! ### Entries -/

namespace Contents

variable {archive : Archive}

theorem mem_unparsed_ofArchive {e : ClassEntry} (he : e ∈ archive.classes) {fault : Fault}
    (h : ClassView.parse e = .error fault) :
    ⟨e.entry, fault.message⟩ ∈ (ofArchive archive).unparsed := by
  refine List.mem_append_right _ (List.mem_filterMap.mpr ⟨(e, .error fault), ?_, rfl⟩)
  exact List.mem_map.mpr ⟨e, he, by rw [h]⟩

theorem classes_ofArchive (archive : Archive) : (ofArchive archive).classes =
    archive.classes.filterMap fun e => (ClassView.parse e).toOption := by
  rw [ofArchive, List.filterMap_map]
  rfl

theorem map_parse_of_unparsed_eq_nil (h : (ofArchive archive).unparsed = []) :
    archive.unreadable = [] ∧
      archive.classes.map ClassView.parse = (ofArchive archive).classes.map .ok := by
  refine ⟨(List.append_eq_nil_iff.mp h).1, ?_⟩
  have hparsed (e) (he : e ∈ archive.classes) : ∃ c, ClassView.parse e = .ok c := by
    rcases hp : ClassView.parse e with fault | c
    · exact absurd (h ▸ mem_unparsed_ofArchive he hp) List.not_mem_nil
    · exact ⟨c, rfl⟩
  rw [classes_ofArchive]
  generalize archive.classes = es at hparsed
  induction es with
  | nil => rfl
  | cons e es ih =>
    obtain ⟨c, hc⟩ := hparsed e List.mem_cons_self
    have hrest := ih fun e he => hparsed e (List.mem_cons_of_mem _ he)
    rw [List.map_cons, hrest, List.filterMap_cons, hc]
    rfl

end Contents

namespace Scanner

/-- Where a scanner comes to a result, every visit is made, and each entry that could not be looked
at has a line. It fails by an overflow only, and not on less than `2 ^ 28` places to look at. -/
theorem details_of_run {s : Scanner} (hs : s ∈ builtin) (archive : Archive) :
    let contents := Contents.ofArchive archive
    archive.unreadable ⊆ contents.unparsed ∧
    (∀ e ∈ archive.classes, ∀ fault, ClassView.parse e = .error fault →
      ⟨e.entry, fault.message⟩ ∈ contents.unparsed) ∧
    (contents.size < 2 ^ 28 → ∃ r, s.run contents = .ok r) ∧
    (∀ message, s.run contents = .error message → ∃ o : Overflow, message = o.message) ∧
    (∀ r, s.run contents = .ok r → ∃ f more,
      s.walk contents.classes (noted contents) = .next f ∧
      r.details = Findings.shown ((contents.unparsed.map fun u => (notice u).line) ++ more) ∧
      (r.details = [] → archive.unreadable = [] ∧
        archive.classes.map ClassView.parse = contents.classes.map .ok)) ∧
    s.run contents.legible = s.run contents := by
  intro contents
  refine ⟨List.subset_append_left _ _, fun e he fault => Contents.mem_unparsed_ofArchive he,
    exists_run_of_builtin hs, fun message => exists_overflow_of_builtin hs, fun r hrun => ?_,
    (overlooks_of_builtin hs).run contents⟩
  obtain ⟨f, more, heach, rfl⟩ := run_of_builtin hs hrun
  have hlines : (contents.notices ++ more).map (·.line) =
      (contents.unparsed.map fun u => (notice u).line) ++ more.map (·.line) := by
    rw [List.map_append, Contents.notices, List.map_map]
    rfl
  refine ⟨f, more.map (·.line), ?_, congrArg Findings.shown hlines, fun hnone => ?_⟩
  · rwa [walk_eq_each, ← contents.visits_eq]
  · rw [Findings.conclusion, Findings.shown_eq_nil_iff, hlines, List.append_eq_nil_iff] at hnone
    exact Contents.map_parse_of_unparsed_eq_nil (List.map_eq_nil_iff.mp hnone.1)

def damaged : Archive where
  path := ⟨"/plugins/p.jar"⟩
  name := none
  descriptor := none
  classes := [⟨"A.class", []⟩]
  unreadable := [⟨"B.class", "invalid checksum"⟩]
  contentHash := ""

theorem details_of_run_damaged : ∃ r more, ProcessExec.scanner.run (.ofArchive damaged) = .ok r ∧
    r.details = Findings.shown (["B.class: not analysed (invalid checksum)",
      "A.class: not analysed (truncated class data: needed 4 bytes at offset 0)"] ++ more) := by
  obtain ⟨-, -, hresult, -, hsays, -⟩ :=
    details_of_run (s := ProcessExec.scanner) (by simp [builtin]) damaged
  obtain ⟨r, hrun⟩ := hresult (by decide +kernel)
  obtain ⟨f, more, -, hdetails, -⟩ := hsays r hrun
  have hunparsed : ((Contents.ofArchive damaged).unparsed.map fun u => (notice u).line) =
      ["B.class: not analysed (invalid checksum)",
        "A.class: not analysed (truncated class data: needed 4 bytes at offset 0)"] := by
    decide +kernel
  exact ⟨r, more, hrun, hunparsed ▸ hdetails⟩

/-- A class of a version for which hosts read no frames. Its method `run()V` runs a shell, and its
attribute of frames has one of a reserved kind. -/
def evasiveBytes : List UInt8 :=
  [0xCA, 0xFE, 0xBA, 0xBE, 0, 0, 0, 0x31, 0, 0x15, 1, 0, 1, 0x41, 7, 0, 1, 1, 0, 0x10, 0x6A, 0x61,
    0x76, 0x61, 0x2F, 0x6C, 0x61, 0x6E, 0x67, 0x2F, 0x4F, 0x62, 0x6A, 0x65, 0x63, 0x74, 7, 0, 3, 1,
    0, 3, 0x72, 0x75, 0x6E, 1, 0, 3, 0x28, 0x29, 0x56, 1, 0, 4, 0x43, 0x6F, 0x64, 0x65, 1, 0, 0x11,
    0x6A, 0x61, 0x76, 0x61, 0x2F, 0x6C, 0x61, 0x6E, 0x67, 0x2F, 0x52, 0x75, 0x6E, 0x74, 0x69, 0x6D,
    0x65, 7, 0, 8, 1, 0, 0x0A, 0x67, 0x65, 0x74, 0x52, 0x75, 0x6E, 0x74, 0x69, 0x6D, 0x65, 1, 0,
    0x15, 0x28, 0x29, 0x4C, 0x6A, 0x61, 0x76, 0x61, 0x2F, 0x6C, 0x61, 0x6E, 0x67, 0x2F, 0x52, 0x75,
    0x6E, 0x74, 0x69, 0x6D, 0x65, 0x3B, 0x0C, 0, 0x0A, 0, 0x0B, 0x0A, 0, 9, 0, 0x0C, 1, 0, 0x0D,
    0x2F, 0x62, 0x69, 0x6E, 0x2F, 0x73, 0x68, 0x20, 0x2D, 0x63, 0x20, 0x69, 0x64, 8, 0, 0x0E, 1, 0,
    4, 0x65, 0x78, 0x65, 0x63, 1, 0, 0x27, 0x28, 0x4C, 0x6A, 0x61, 0x76, 0x61, 0x2F, 0x6C, 0x61,
    0x6E, 0x67, 0x2F, 0x53, 0x74, 0x72, 0x69, 0x6E, 0x67, 0x3B, 0x29, 0x4C, 0x6A, 0x61, 0x76, 0x61,
    0x2F, 0x6C, 0x61, 0x6E, 0x67, 0x2F, 0x50, 0x72, 0x6F, 0x63, 0x65, 0x73, 0x73, 0x3B, 0x0C, 0,
    0x10, 0, 0x11, 0x0A, 0, 9, 0, 0x12, 1, 0, 0x0D, 0x53, 0x74, 0x61, 0x63, 0x6B, 0x4D, 0x61, 0x70,
    0x54, 0x61, 0x62, 0x6C, 0x65, 0, 0x21, 0, 2, 0, 4, 0, 0, 0, 0, 0, 1, 0, 9, 0, 5, 0, 6, 0, 1, 0,
    7, 0, 0, 0, 0x1F, 0, 2, 0, 0, 0, 0, 0, 0x0A, 0xB8, 0, 0x0D, 0x12, 0x0F, 0xB6, 0, 0x13, 0x57,
    0xB1, 0, 0, 0, 1, 0, 0x14, 0, 0, 0, 3, 0, 1, 0x80, 0, 0]

def evasive : Archive := { damaged with classes := [⟨"A.class", evasiveBytes⟩], unreadable := [] }

theorem evasive_overlooked :
    (∃ c ∈ (Contents.ofArchive evasive).classes, ∃ m ∈ c.methods,
      m.bodyFault? = some (.malformed (.reservedFrame 128))) ∧
    ∀ s ∈ builtin, ∃ r, s.run (.ofArchive evasive) = .ok r ∧ r.details = [] := by
  have hbodies : ((Contents.ofArchive evasive).classes.flatMap (·.methods)).map (·.bodyFault?) =
      [some (.malformed (.reservedFrame 128))] := by
    decide +kernel
  have hresults : builtin.map (fun s => (s.run (.ofArchive evasive)).toOption.map (·.details)) =
      builtin.map fun _ => some [] := by
    decide +kernel
  refine ⟨?_, fun s hs => ?_⟩
  · obtain ⟨m, hmethods, hfault⟩ := List.map_eq_singleton_iff.mp hbodies
    obtain ⟨c, hc, hm⟩ := List.mem_flatMap.mp (hmethods ▸ List.mem_singleton_self m)
    exact ⟨c, hc, m, hm, hfault⟩
  · have hresult := List.map_inj_left.mp hresults s hs
    rcases hrun : s.run (.ofArchive evasive) with message | r
    · rw [hrun] at hresult
      cases hresult
    · rw [hrun] at hresult
      exact ⟨r, rfl, Option.some.inj hresult⟩

end Scanner

end PluginGuard.Scan
