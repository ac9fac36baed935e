import Mathlib.Data.UInt
import PluginGuard.Proofs.Scan.Found

/-!
# What is said of names

The scanner of names only counts on its way; its lines come from the conclusion, and are at most
two. Its counters have 64 bits, and what is looked at in a lifetime does not fill them.
-/
namespace PluginGuard.Scan.Names

open Evidence (Fits)
open Findings (conclusion)
open Scanner (foldlM_flatMap holds_noted noted score_notices_append_lt)

variable {f g : Findings} {es : List Evidence} {n : Nat} {keys : List String}

def raise (f : Findings) (key : String) : Except Overflow Findings := f.bump key 1

theorem exists_keys (name : String) :
    ∃ keys : List String, keys.length ≤ 2 ∧ ∀ f, tally name f = keys.foldlM raise f := by
  unfold tally
  split_ifs
  · exact ⟨[], Nat.zero_le _, fun f => rfl⟩
  · exact ⟨[membersKey, illegalKey], le_rfl, fun f => by simp [raise]⟩
  · exact ⟨[membersKey, shortKey], le_rfl, fun f => by simp [raise]⟩
  · exact ⟨[membersKey], Nat.le_succ _, fun f => by simp [raise]⟩

def nameOf : Visit → String
  | .ofClass c => simpleName c.name
  | .ofField _ fd => fd.name
  | .ofMethod _ m => m.name

theorem exists_looks : ∃ keys : Visit → List String, (∀ v, (keys v).length ≤ 2) ∧
    scanner.Looks (fun v f => (keys v).foldlM raise f) weigh := by
  choose keys hlength htally using exists_keys
  refine ⟨fun v => keys (nameOf v), fun v => hlength _, fun v f => ?_, fun f => rfl⟩
  cases v with
  | _ => exact congrArg Step.of (htally _ f)

theorem holds_of_raise (h : f.Holds es) {key : String} (hg : raise f key = .ok g) : g.Holds es := by
  obtain ⟨sum, -, hsum⟩ := Fallible.bind_eq_ok.mp hg
  cases hsum
  refine ⟨⟨h.tells.details, h.tells.omitted⟩, fun w hw => ?_⟩
  rw [← h.weight w hw]
  cases w <;> rfl

theorem holds_of_raises (h : f.Holds es) (hg : keys.foldlM raise f = .ok g) : g.Holds es := by
  induction keys generalizing f with
  | nil =>
    cases hg
    exact h
  | cons key keys ih =>
    obtain ⟨f', hf', hg⟩ := Fallible.bind_eq_ok.mp hg
    exact ih (holds_of_raise h hf') hg

theorem exists_weighIllegal (f : Findings) :
    ∃ more : List Evidence, more.length ≤ 1 ∧ weighIllegal f = more.foldlM Findings.add f := by
  unfold weighIllegal
  dsimp only
  split_ifs
  · exact ⟨[⟨.suspicious, _⟩], le_rfl, (bind_pure _).symm⟩
  · exact ⟨[], Nat.zero_le _, rfl⟩

theorem weighOdd_eq_ok (h : weighOdd f = .ok g) :
    ∃ more : List Evidence, more.length ≤ 1 ∧ more.foldlM Findings.add f = .ok g := by
  unfold weighOdd at h
  dsimp only at h
  split_ifs at h
  · exact ⟨[], Nat.zero_le _, h⟩
  · obtain ⟨odd, -, h⟩ := Fallible.bind_eq_ok.mp h
    obtain ⟨share, -, h⟩ := Fallible.bind_eq_ok.mp h
    obtain ⟨least, -, h⟩ := Fallible.bind_eq_ok.mp h
    split_ifs at h
    · exact ⟨[⟨.suspicious, _⟩], le_rfl, (bind_pure _).trans h⟩
    · exact ⟨[], Nat.zero_le _, h⟩

theorem weigh_eq_ok (h : weigh f = .ok g) :
    ∃ more : List Evidence, more.length ≤ 2 ∧ more.foldlM Findings.add f = .ok g := by
  obtain ⟨f', hf', h⟩ := Fallible.bind_eq_ok.mp h
  obtain ⟨first, hfirst, heq⟩ := exists_weighIllegal f
  obtain ⟨second, hsecond, hg⟩ := weighOdd_eq_ok h
  refine ⟨first ++ second, by rw [List.length_append]; omega, ?_⟩
  rw [List.foldlM_append, ← heq, hf']
  exact hg

/-! ### Names that are not too many to count -/

theorem counters_record (f : Findings) (line : String) :
    (f.record line).counters = f.counters := by
  rw [Findings.record]
  split <;> rfl

theorem counters_noted (contents : Contents) : (noted contents).counters = .empty := by
  unfold noted
  induction contents.unparsed using List.reverseRecOn with
  | nil => rfl
  | append_singleton us u ih =>
    rw [List.foldl_append]
    exact (counters_record _ _).trans ih

def CountsTo (n : Nat) (f : Findings) : Prop := ∀ key, (f.counter key).toNat ≤ n

theorem exists_raise (h : CountsTo n f) (hroom : n + 1 < UInt64.size) (key : String) :
    ∃ g, raise f key = .ok g ∧ CountsTo (n + 1) g := by
  have hfits : (f.counter key).toNat + 1 < UInt64.size := by
    have hle := h key
    omega
  refine ⟨{ f with counters := f.counters.insert key (.ofNat ((f.counter key).toNat + 1)) },
    congrArg (· >>= _) (Overflow.fitting_of_lt hfits .addition UInt64.ofNat), fun other => ?_⟩
  have hle := h other
  rw [Findings.counter]
  by_cases hother : key = other
  · subst hother
    rw [Table.find?_insert_self, Option.getD_some, UInt64.toNat_ofNat_of_lt' hfits]
    exact Nat.succ_le_succ hle
  · rw [Table.find?_insert_of_ne hother]
    exact hle.trans (Nat.le_succ n)

theorem exists_raises (keys : List String) (h : CountsTo n f)
    (hroom : n + keys.length < UInt64.size) :
    ∃ g, keys.foldlM raise f = .ok g ∧ CountsTo (n + keys.length) g := by
  induction keys generalizing f n with
  | nil => exact ⟨f, rfl, h⟩
  | cons key keys ih =>
    rw [List.length_cons, Nat.add_comm keys.length, ← Nat.add_assoc] at hroom ⊢
    obtain ⟨f', hf', hcounts⟩ := exists_raise h (by omega) key
    obtain ⟨g, hg, hcounts'⟩ := ih hcounts hroom
    refine ⟨g, ?_, hcounts'⟩
    rw [List.foldlM_cons, hf']
    exact hg

theorem exists_weighOdd (h : CountsTo n f) (hroom : 200 * n < UInt64.size) :
    ∃ more : List Evidence, more.length ≤ 1 ∧ weighOdd f = more.foldlM Findings.add f := by
  have hshort := h shortKey
  have hillegal := h illegalKey
  have hmembers := h membersKey
  generalize hsum : (f.counter shortKey).toNat + (f.counter illegalKey).toNat = sum
  have hodd : Overflow.add64 (f.counter shortKey) (f.counter illegalKey) = .ok (.ofNat sum) := by
    rw [← hsum]
    exact Overflow.fitting_of_lt (by omega) _ _
  have hsumNat : (UInt64.ofNat sum).toNat = sum := UInt64.toNat_ofNat_of_lt' (by omega)
  have hshare : Overflow.mul64 (.ofNat sum) 100 = .ok (.ofNat (sum * 100)) := by
    rw [Overflow.mul64, hsumNat]
    exact Overflow.fitting_of_lt (show sum * 100 < _ by omega) _ _
  have hleast : Overflow.mul64 (f.counter membersKey) 60 =
      .ok (.ofNat ((f.counter membersKey).toNat * 60)) :=
    Overflow.fitting_of_lt (show (f.counter membersKey).toNat * 60 < _ by omega) _ _
  unfold weighOdd
  simp only [hodd, hleast, bind, Except.bind, hshare]
  split_ifs
  · exact ⟨[], Nat.zero_le _, rfl⟩
  · exact ⟨[⟨.suspicious, _⟩], le_rfl, (bind_pure _).symm⟩
  · exact ⟨[], Nat.zero_le _, rfl⟩

theorem countsTo_of_weighIllegal (h : CountsTo n f) (hg : weighIllegal f = .ok g) :
    CountsTo n g := by
  unfold weighIllegal at hg
  dsimp only at hg
  split_ifs at hg
  · obtain ⟨k, -, hk⟩ := Fallible.bind_eq_ok.mp hg
    cases hk
    intro key
    rw [Findings.counter]
    exact counters_record f _ ▸ h key
  · cases hg
    exact h

theorem exists_weigh (h : CountsTo n f) (hroom : 200 * n < UInt64.size) (hholds : f.Holds es)
    (hfits : ∀ more : List Evidence, more.length ≤ 2 → Fits (es ++ more)) :
    ∃ g more, weigh f = .ok g ∧ more.length ≤ 2 ∧ g.Holds (es ++ more) := by
  obtain ⟨first, hfirst, heq⟩ := exists_weighIllegal f
  obtain ⟨f', hf', hholds'⟩ := hholds.exists_foldlM (hfits first (by omega))
  rw [hf'] at heq
  obtain ⟨second, hsecond, heq'⟩ := exists_weighOdd (countsTo_of_weighIllegal h heq) hroom
  have hlength : (first ++ second).length ≤ 2 := by
    rw [List.length_append]
    omega
  have hboth := hfits (first ++ second) hlength
  rw [← List.append_assoc] at hboth
  obtain ⟨g, hg, hholds''⟩ := hholds'.exists_foldlM hboth
  refine ⟨g, first ++ second, ?_, hlength, by rwa [← List.append_assoc]⟩
  rw [weigh, heq]
  exact heq'.trans hg

/-! ### Runs -/

theorem run_eq_ok {contents : Contents} {r : ScanResult} (h : scanner.run contents = .ok r) :
    ∃ f more, scanner.each id contents.visits (noted contents) = .next f ∧
      r = conclusion response (contents.notices ++ more) := by
  obtain ⟨keys, -, hlooks⟩ := exists_looks
  rw [hlooks.run, foldlM_flatMap raise, Fallible.mapError_eq_ok] at h
  rw [hlooks.each, foldlM_flatMap raise]
  obtain ⟨g, hg, hresult⟩ := Fallible.bind_eq_ok.mp h
  obtain ⟨f, hf, hweigh⟩ := Fallible.bind_eq_ok.mp hg
  obtain ⟨more, -, hmore⟩ := weigh_eq_ok hweigh
  have hholds := (holds_of_raises (holds_noted contents) hf).of_foldlM hmore
  exact ⟨f, more, by rw [hf, Step.of], (hholds.result_eq_ok_iff.mp hresult).2⟩

theorem exists_run {contents : Contents} (hsize : contents.size < 2 ^ 28) :
    ∃ r, scanner.run contents = .ok r := by
  obtain ⟨keys, hlength, hlooks⟩ := exists_looks
  have hvisits := contents.length_visits_le
  have hkeys : (contents.visits.flatMap keys).length ≤ contents.visits.length * 2 := by
    simpa using sum_size_mono hlength contents.visits
  have hnone : CountsTo 0 (noted contents) := fun key => by
    rw [Findings.counter, counters_noted]
    exact le_rfl
  obtain ⟨f, hf, hcounts⟩ := exists_raises (contents.visits.flatMap keys) hnone
    (show 0 + _ < 2 ^ 64 by omega)
  obtain ⟨g, more, hg, hmore, hholds⟩ := exists_weigh hcounts (show _ < 2 ^ 64 by omega)
    (holds_of_raises (holds_noted contents) hf) fun more hmore =>
      Evidence.fits_of_score (score_notices_append_lt contents (by omega))
  refine ⟨conclusion response (contents.notices ++ more), ?_⟩
  rw [hlooks.run, foldlM_flatMap raise, Fallible.mapError_eq_ok, hf]
  refine Fallible.bind_eq_ok.mpr ⟨g, hg, hholds.result_eq_ok_iff.mpr ⟨?_, rfl⟩⟩
  exact score_notices_append_lt contents (by omega)

end PluginGuard.Scan.Names
