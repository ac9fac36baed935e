import PluginGuard.Proofs.ClassFile.Code.Places

/-!
# Moving targets

A body keeps the indices of instructions where its bytes have offsets. Moving
the targets of an instruction from offsets to indices succeeds exactly on the
offsets of instructions, and the way back is the map from indices to offsets.
-/
namespace PluginGuard.ClassFile

/-! ### Targets under a map -/

namespace Operand

theorem targets_mapTargets (f : Nat → Nat) (o : Operand) :
    (o.mapTargets f).targets = o.targets.map f := by
  cases o with
  | lookup d ps => simp [mapTargets, targets]
  | _ => rfl

theorem mapTargets_mapTargets (f g : Nat → Nat) (o : Operand) :
    (o.mapTargets f).mapTargets g = o.mapTargets fun t => g (f t) := by
  cases o with
  | table d low ts => simp [mapTargets]
  | lookup d ps => simp [mapTargets]
  | _ => rfl

theorem mapTargets_eq_self {f : Nat → Nat} {o : Operand} (h : ∀ t ∈ o.targets, f t = t) :
    o.mapTargets f = o := by
  cases o with
  | branch t => simp_all [mapTargets, targets]
  | table d low ts =>
    obtain ⟨hd, hts⟩ := by simpa [targets] using h
    rw [mapTargets, hd, List.map_congr_left hts, List.map_id']
  | lookup d ps =>
    obtain ⟨hd, hps⟩ := by simpa [targets] using h
    rw [mapTargets, hd]
    refine congrArg (lookup d) ((List.map_congr_left fun p hp => ?_).trans (List.map_id' ps))
    exact Prod.ext rfl (hps p.2 p.1 hp)
  | _ => rfl

end Operand

namespace Instruction

theorem targets_mapTargets (f : Nat → Nat) (i : Instruction) :
    (i.mapTargets f).targets = i.targets.map f :=
  Operand.targets_mapTargets f i.operand

theorem mapTargets_mapTargets (f g : Nat → Nat) (i : Instruction) :
    (i.mapTargets f).mapTargets g = i.mapTargets fun t => g (f t) := by
  simp only [mapTargets, Operand.mapTargets_mapTargets]

theorem mapTargets_eq_self {f : Nat → Nat} {i : Instruction} (h : ∀ t ∈ i.targets, f t = t) :
    i.mapTargets f = i := by
  rw [mapTargets, Operand.mapTargets_eq_self h]

/-! ### From offsets to indices -/

theorem relocate_eq_ok {move : Nat → Except Fault Nat} {raw i : Instruction} :
    raw.relocate move = .ok i ↔
      (∀ t ∈ raw.targets, ∃ j, move t = .ok j) ∧
        i = raw.mapTargets fun t => (move t).toOption.getD t := by
  rw [relocate]
  split
  · next e he =>
    simp only [reduceCtorEq, false_iff, not_and]
    intro hmoves
    obtain ⟨t, ht, hfailed⟩ := List.mem_filterMap.mp (List.mem_of_getLast? he)
    obtain ⟨j, hj⟩ := hmoves t ht
    simp [hj] at hfailed
  · next hnone =>
    rw [List.getLast?_eq_none_iff, List.filterMap_eq_nil_iff] at hnone
    have hmoves : ∀ t ∈ raw.targets, ∃ j, move t = .ok j := by
      intro t ht
      have hok := hnone t ht
      cases hj : move t with
      | error e => simp [hj] at hok
      | ok j => exact ⟨j, rfl⟩
    rw [Except.ok.injEq, eq_comm]
    exact ⟨fun hi => ⟨hmoves, hi⟩, fun h => h.2⟩

theorem relocate_along_eq_ok {f : Nat → Nat} {n : Nat} (climbs : Climbs f n)
    {raw i : Instruction} :
    raw.relocate (Boundaries.along f n).startAt = .ok i ↔
      (∀ t ∈ i.targets, t < n) ∧ raw = i.mapTargets f := by
  rw [relocate_eq_ok]
  constructor
  · intro h
    rcases h with ⟨hmoves, rfl⟩
    have back : ∀ t ∈ raw.targets,
        (((Boundaries.along f n).startAt t).toOption.getD t) < n ∧
          f (((Boundaries.along f n).startAt t).toOption.getD t) = t := by
      intro t ht
      obtain ⟨j, hj⟩ := hmoves t ht
      rw [hj]
      exact (Boundaries.startAt_eq_ok climbs).mp hj
    refine ⟨?_, ?_⟩
    · rw [targets_mapTargets]
      intro t ht
      obtain ⟨s, hs, rfl⟩ := List.mem_map.mp ht
      exact (back s hs).1
    · rw [mapTargets_mapTargets, mapTargets_eq_self fun t ht => (back t ht).2]
  · intro h
    rcases h with ⟨hwithin, rfl⟩
    have there : ∀ t ∈ i.targets, (Boundaries.along f n).startAt (f t) = .ok t :=
      fun t ht => (Boundaries.startAt_eq_ok climbs).mpr ⟨hwithin t ht, rfl⟩
    refine ⟨?_, ?_⟩
    · rw [targets_mapTargets]
      intro t ht
      obtain ⟨s, hs, rfl⟩ := List.mem_map.mp ht
      exact ⟨s, there s hs⟩
    · rw [mapTargets_mapTargets, mapTargets_eq_self]
      intro t ht
      rw [there t ht]
      rfl

end Instruction

end PluginGuard.ClassFile
