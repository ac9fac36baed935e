import PluginGuard.Overflow
import PluginGuard.Scan.Verdict
import PluginGuard.Table

/-!
# Findings

The evidence that a scanner collects on its way through a plugin. Details beyond
a limit are only counted. Notes never weigh; every suspicious or malicious
finding does. Both are counted in 32 bits, and counting further than that fails,
as does a score that needs more.
-/
namespace PluginGuard

structure Findings where
  details : List String
  omitted : Nat
  suspicious : UInt32
  malicious : UInt32
  /-- Numbers that a scanner keeps for its conclusion. -/
  counters : Table UInt64
  deriving DecidableEq, Repr

namespace Findings

def empty : Findings := ⟨[], 0, 0, 0, .empty⟩

def limit : Nat := 64

def record (f : Findings) (detail : String) : Findings :=
  if f.details.length < limit then { f with details := f.details ++ [detail] }
  else { f with omitted := f.omitted + 1 }

def note (f : Findings) (detail : String) : Findings := f.record detail

def suspect (f : Findings) (detail : String) : Except Overflow Findings :=
  (Overflow.add32 f.suspicious 1).map fun k => { f.record detail with suspicious := k }

def condemn (f : Findings) (detail : String) : Except Overflow Findings :=
  (Overflow.add32 f.malicious 1).map fun k => { f.record detail with malicious := k }

def recordTimes (f : Findings) (n : Nat) (detail : String) : Findings :=
  let room := limit - f.details.length
  { f with
    details := f.details ++ List.replicate (min n room) detail
    omitted := f.omitted + (n - room) }

def countTimes (n : Nat) (k : UInt32) : Except Overflow UInt32 :=
  Overflow.addition.fitting UInt32.size .ofNat (k.toNat + n)

def suspectTimes (f : Findings) (n : Nat) (detail : String) : Except Overflow Findings :=
  (countTimes n f.suspicious).map fun k => { f.recordTimes n detail with suspicious := k }

def condemnTimes (f : Findings) (n : Nat) (detail : String) : Except Overflow Findings :=
  (countTimes n f.malicious).map fun k => { f.recordTimes n detail with malicious := k }

def counter (f : Findings) (key : String) : UInt64 := (f.counters.find? key).getD 0

def bump (f : Findings) (key : String) (amount : UInt64) : Except Overflow Findings := do
  let sum ← Overflow.add64 (f.counter key) amount
  return { f with counters := f.counters.insert key sum }

def verdict (f : Findings) : Verdict :=
  if 0 < f.malicious then .malicious else if 0 < f.suspicious then .suspicious else .clean

/-- One malicious finding makes 70 percent, one suspicious finding 40; each further
one adds to that, up to 100 and 95. -/
def confidence (f : Findings) : Except Overflow UInt32 :=
  match f.verdict with
  | .malicious => do
    let first ← Overflow.add32 70 (← Overflow.mul32 10 (f.malicious - 1))
    return min (← Overflow.add32 first (← Overflow.mul32 5 f.suspicious)) 100
  | .suspicious => return min (← Overflow.add32 25 (← Overflow.mul32 15 f.suspicious)) 95
  | .clean => return 100

def summary (f : Findings) : List String :=
  if 0 < f.omitted then f.details ++ [s!"... and {f.omitted} more"] else f.details

def result (f : Findings) (response : Response) : Except Overflow ScanResult := do
  let confidence ← f.confidence
  return ⟨f.verdict, confidence.toUInt8, f.summary, response.to? f.verdict⟩

/-! ### The same detail time and again -/

section

variable (f : Findings) (n : Nat) (detail : String)

theorem record_recordTimes :
    (f.recordTimes n detail).record detail = f.recordTimes (n + 1) detail := by
  have hlength : (f.recordTimes n detail).details.length =
      f.details.length + min n (limit - f.details.length) := by
    simp [recordTimes]
  rw [record, hlength]
  by_cases hroom : n < limit - f.details.length
  · rw [if_pos (by omega), recordTimes, recordTimes, Nat.min_eq_left (by omega),
      Nat.min_eq_left (by omega), Nat.sub_eq_zero_of_le (by omega),
      Nat.sub_eq_zero_of_le (by omega)]
    simp only [List.append_assoc, List.replicate_succ']
  · rw [if_neg (by omega), recordTimes, recordTimes, Nat.min_eq_right (by omega),
      Nat.min_eq_right (by omega), Nat.succ_sub (by omega)]
    rfl

theorem recordTimes_eq_fold : f.recordTimes n detail = n.fold (fun _ _ f => f.record detail) f := by
  induction n with
  | zero => simp [recordTimes]
  | succ n ih => rw [Nat.fold_succ, ← ih, record_recordTimes]

theorem recordTimes_zero : f.recordTimes 0 detail = f := by simp [recordTimes]

theorem record_with_suspicious (k : UInt32) :
    { f with suspicious := k }.record detail = { f.record detail with suspicious := k } := by
  simp only [record]
  split <;> rfl

theorem record_with_malicious (k : UInt32) :
    { f with malicious := k }.record detail = { f.record detail with malicious := k } := by
  simp only [record]
  split <;> rfl

theorem countTimes_zero (k : UInt32) : countTimes 0 k = .ok k := by
  rw [countTimes, Overflow.fitting_of_lt (show k.toNat + 0 < UInt32.size from k.toNat_lt_size)]
  exact congrArg Except.ok UInt32.ofNat_toNat

theorem countTimes_succ (k : UInt32) :
    countTimes (n + 1) k = (countTimes n k).bind (Overflow.add32 · 1) := by
  by_cases h : k.toNat + n < UInt32.size
  · have hsum : (UInt32.ofNat (k.toNat + n)).toNat = k.toNat + n := UInt32.toNat_ofNat_of_lt' h
    rw [countTimes, countTimes, Overflow.fitting_of_lt h, Except.bind, Overflow.add32, hsum]
    rfl
  · rw [countTimes, countTimes, Overflow.fitting_of_le (Nat.not_lt.mp h),
      Overflow.fitting_of_le (by omega)]
    rfl

theorem suspectTimes_eq_fold : f.suspectTimes n detail =
    n.fold (fun _ _ found => found.bind (·.suspect detail)) (.ok f) := by
  induction n with
  | zero => rw [suspectTimes, countTimes_zero, recordTimes_zero, Nat.fold_zero, Except.map]
  | succ n ih =>
    rw [Nat.fold_succ, ← ih, suspectTimes, suspectTimes, countTimes_succ, ← record_recordTimes]
    cases countTimes n f.suspicious with
    | error o => rfl
    | ok k =>
      simp only [Except.map, Except.bind, suspect, record_with_suspicious]

theorem condemnTimes_eq_fold : f.condemnTimes n detail =
    n.fold (fun _ _ found => found.bind (·.condemn detail)) (.ok f) := by
  induction n with
  | zero => rw [condemnTimes, countTimes_zero, recordTimes_zero, Nat.fold_zero, Except.map]
  | succ n ih =>
    rw [Nat.fold_succ, ← ih, condemnTimes, condemnTimes, countTimes_succ, ← record_recordTimes]
    cases countTimes n f.malicious with
    | error o => rfl
    | ok k =>
      simp only [Except.map, Except.bind, condemn, record_with_malicious]

end

end Findings

end PluginGuard
