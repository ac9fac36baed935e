import Mathlib.Data.List.Flatten
import Mathlib.Data.List.Perm.Subperm
import PluginGuard.Proofs.Scan.Found

/-!
# Padding

The verdict on the classes of a plugin is the worst of what is found in any of them, so classes
that are put beside others, before them or among them never make a verdict milder. They can take it
away: a score that does not fit in 32 bits leaves no verdict, although the counters still hold what
was found.
-/
namespace PluginGuard.Scan

open Evidence (score weighing worst)
open Findings (conclusion told)

def Contents.evidence (found : Visit → List Evidence) (contents : Contents) : List Evidence :=
  contents.visits.flatMap found

namespace Contents

variable {found : Visit → List Evidence} {a b c : Contents}

theorem evidence_eq (found : Visit → List Evidence) (contents : Contents) :
    contents.evidence found = contents.classes.flatMap fun c => c.visits.flatMap found :=
  List.flatMap_assoc

theorem evidence_append (h : c.classes = a.classes ++ b.classes) :
    c.evidence found = a.evidence found ++ b.evidence found := by
  simp only [evidence_eq, h, List.flatMap_append]

theorem evidence_subperm (h : a.classes.Subperm c.classes) :
    (a.evidence found).Subperm (c.evidence found) := by
  obtain ⟨picked, hperm, hsub⟩ := h
  rw [evidence_eq, evidence_eq]
  exact ⟨_, hperm.flatMap_right _, hsub.flatMap _⟩

end Contents

namespace Scanner

variable {s : Scanner} {found : Visit → List Evidence}

theorem weighing_notices_append (contents : Contents) (es : List Evidence) :
    weighing (contents.notices ++ es) = weighing es := by
  have hnotices : weighing contents.notices = [] := by
    simp [weighing, Contents.notices, notice, List.filter_eq_nil_iff]
  rw [weighing, List.filter_append]
  exact congrArg (· ++ _) hnotices

theorem Finds.run_eq_ok_iff (h : s.Finds found) {contents : Contents} {r : ScanResult} :
    s.run contents = .ok r ↔ score (contents.evidence found) < UInt32.size ∧
      r = conclusion s.response (contents.notices ++ contents.evidence found) := by
  have hscore : score (contents.notices ++ contents.evidence found) =
      score (contents.evidence found) := by
    rw [← Evidence.score_weighing, weighing_notices_append, Evidence.score_weighing]
  rw [h.run, Fallible.mapError_eq_ok, Findings.told_eq_ok_iff, ← hscore]
  rfl

theorem Finds.verdict_of_run (h : s.Finds found) {contents : Contents} {r : ScanResult}
    (hrun : s.run contents = .ok r) : r.verdict = worst (contents.evidence found) := by
  obtain ⟨-, rfl⟩ := h.run_eq_ok_iff.mp hrun
  change worst (contents.notices ++ contents.evidence found) = _
  rw [← Evidence.worst_weighing, weighing_notices_append, Evidence.worst_weighing]

/-- Of three results, that on two lists of classes together has the worse of the verdicts on each of
them, and classes that are added anywhere never make it milder. There is a result just if the score
of what is found fits in 32 bits. -/
theorem verdict_of_append (hs : s ∈ builtin) (hname : s.name ≠ "obfuscation") :
    ∃ found : Visit → List Evidence,
      (∀ v f, s.visit v f = .of ((found v).foldlM Findings.add f)) ∧
      (∀ c : Contents, (∃ r, s.run c = .ok r) ↔ score (c.evidence found) < UInt32.size) ∧
      (∀ a b c : Contents, c.classes = a.classes ++ b.classes → ∀ ra rb rc, s.run a = .ok ra →
        s.run b = .ok rb → s.run c = .ok rc → rc.verdict = max ra.verdict rb.verdict) ∧
      (∀ a c : Contents, a.classes.Subperm c.classes → ∀ ra rc, s.run a = .ok ra →
        s.run c = .ok rc → ra.verdict ≤ rc.verdict) := by
  obtain ⟨found, hfinds⟩ := exists_finds_of_builtin hs hname
  refine ⟨found, hfinds.looks.visit, fun c => ?_, ?_, ?_⟩
  · exact ⟨fun ⟨r, hr⟩ => (hfinds.run_eq_ok_iff.mp hr).1,
      fun h => ⟨_, hfinds.run_eq_ok_iff.mpr ⟨h, rfl⟩⟩⟩
  · intro a b c happend ra rb rc ha hb hc
    rw [hfinds.verdict_of_run ha, hfinds.verdict_of_run hb, hfinds.verdict_of_run hc,
      Contents.evidence_append happend, Evidence.worst_append]
  · intro a c hsub ra rc ha hc
    rw [hfinds.verdict_of_run ha, hfinds.verdict_of_run hc]
    exact Evidence.worst_mono (Contents.evidence_subperm hsub).subset

def classOf (methods : List MethodView) : ClassView :=
  ⟨"A.class", "A", ⟨0, 52, .empty, 0x21, 0, 0, [], [], [], []⟩, [], methods⟩

def nativeMethod : MethodView := ⟨0x0101, "run", "()V", .ok none⟩

def padded : Contents where
  plugin := "A"
  classes := [classOf [nativeMethod]] ++ [classOf []]
  unparsed := [⟨"B.class", "unexpected end"⟩]

theorem verdict_of_append_padded : ∃ ra rb rc,
    NativeCode.scanner.run ⟨"A", [classOf [nativeMethod]], []⟩ = .ok ra ∧
    NativeCode.scanner.run ⟨"A", [classOf []], []⟩ = .ok rb ∧
    NativeCode.scanner.run padded = .ok rc ∧ rc.verdict = max ra.verdict rb.verdict ∧
    ra.verdict = .suspicious := by
  obtain ⟨found, -, -, happend, -⟩ :=
    verdict_of_append (s := NativeCode.scanner) (by simp [builtin]) (by decide)
  let a : Contents := ⟨"A", [classOf [nativeMethod]], []⟩
  let b : Contents := ⟨"A", [classOf []], []⟩
  have ha : ∃ ra, NativeCode.scanner.run a = .ok ra ∧ ra.verdict = .suspicious :=
    ⟨_, rfl, by decide⟩
  have hb : ∃ rb, NativeCode.scanner.run b = .ok rb := ⟨_, rfl⟩
  have hc : ∃ rc, NativeCode.scanner.run padded = .ok rc := ⟨_, rfl⟩
  obtain ⟨ra, ha, hverdict⟩ := ha
  obtain ⟨rb, hb⟩ := hb
  obtain ⟨rc, hc⟩ := hc
  exact ⟨ra, rb, rc, ha, hb, hc, happend a b padded rfl ra rb rc ha hb hc, hverdict⟩

/-! ### A verdict that is lost -/

def natives (n : Nat) : Contents := ⟨"A", List.replicate n (classOf [nativeMethod]), []⟩

def nativeEvidence : Evidence :=
  ⟨.suspicious, s!"{(classOf [nativeMethod]).site nativeMethod} is declared native"⟩

theorem walk_natives (n : Nat) (f : Findings) : NativeCode.scanner.walk (natives n).classes f =
    .of ((List.replicate n nativeEvidence).foldlM Findings.add f) := by
  induction n generalizing f with
  | zero => rfl
  | succ n ih =>
    have hclass : NativeCode.scanner.walkClass (classOf [nativeMethod]) f =
        .of (f.add nativeEvidence) := by
      change (Step.of (f.add nativeEvidence >>= fun f => pure f)).andThen .next = _
      rw [bind_pure]
      cases f.add nativeEvidence <;> rfl
    rw [natives, List.replicate_succ, List.replicate_succ, walk, hclass, List.foldlM_cons]
    cases f.add nativeEvidence with
    | error o => rfl
    | ok g => exact ih g

theorem run_natives (n : Nat) : NativeCode.scanner.run (natives n) =
    (told .standard (List.replicate n nativeEvidence)).mapError (·.message) := by
  have hnoted : noted (natives n) = .empty := rfl
  rw [run, walk_natives, told, hnoted]
  cases List.foldlM Findings.add .empty (List.replicate n nativeEvidence) <;> rfl

/-- The counter holds what is found in all classes, and both verdicts on parts are suspicious, but
there is none on the whole. -/
theorem verdict_lost :
    let a := natives 286331151
    let b := natives 1
    let c : Contents := ⟨"A", a.classes ++ b.classes, []⟩
    (∃ ra, NativeCode.scanner.run a = .ok ra ∧ ra.verdict = .suspicious) ∧
      (∃ rb, NativeCode.scanner.run b = .ok rb ∧ rb.verdict = .suspicious) ∧
      (∃ f, NativeCode.scanner.walk c.classes (noted c) = .next f ∧ f.malicious = 0 ∧
        f.suspicious = 286331152) ∧
      NativeCode.scanner.run c = .error "attempt to add with overflow" := by
  intro a b c
  have hresult {n : Nat} (hn : n ≠ 0) (hsize : n ≤ 286331151) :
      ∃ r, NativeCode.scanner.run (natives n) = .ok r ∧ r.verdict = .suspicious := by
    obtain ⟨hworst, hscore, -⟩ :=
      Findings.holds_replicate hn (hsize.trans_lt (by decide)) nativeEvidence.line
    refine ⟨conclusion .standard (List.replicate n nativeEvidence), ?_, hworst⟩
    rw [run_natives, Fallible.mapError_eq_ok, Findings.told_eq_ok_iff]
    exact ⟨hscore.trans_lt (show _ < 2 ^ 32 by omega), rfl⟩
  have hc : c = natives 286331152 :=
    congrArg (Contents.mk "A" · []) List.replicate_append_replicate
  refine ⟨hresult (by decide) le_rfl, hresult (by decide) (by decide), ?_, ?_⟩
  · obtain ⟨-, -, f, hf, -, hmalicious, hsuspicious⟩ :=
      Findings.holds_replicate (n := 286331152) (by decide) (by decide) nativeEvidence.line
    refine ⟨f, ?_, hmalicious, hsuspicious⟩
    rw [hc, walk_natives]
    exact congrArg Step.of hf
  · rw [hc, run_natives]
    exact congrArg (·.mapError (·.message)) (Findings.told_replicate nativeEvidence.line)

end Scanner

end PluginGuard.Scan
