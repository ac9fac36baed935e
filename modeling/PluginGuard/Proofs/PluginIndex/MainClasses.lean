import Mathlib.Data.List.Induction
import PluginGuard.PluginIndex
import PluginGuard.Proofs.Hook.Course
import PluginGuard.Proofs.Table

/-!
# Which main classes are instrumented

An index keeps one descriptor for each plugin name, so of several archives that give themselves
the same name only the last one speaks for it. The entry points of a main class get frames exactly
if the descriptor that says so was kept.
-/
namespace PluginGuard

theorem Transformer.injections_ofList (is : List Injection) : (ofList is).injections = is := by
  rw [ofList, injections, List.map_map]
  exact List.map_id is

theorem Injection.exists_frames_iff (mainClasses : List String) (name : String) :
    (∃ i ∈ frames mainClasses, i.target.className = name) ↔
      ∃ c ∈ mainClasses, internalName c = name := by
  constructor
  · rintro ⟨i, hi, hclass⟩
    obtain ⟨c, hc, hi⟩ := List.mem_flatMap.mp hi
    obtain ⟨entry, -, hi⟩ := List.mem_flatMap.mp hi
    refine ⟨c, hc, ?_⟩
    obtain rfl | hi := List.mem_cons.mp hi
    · exact hclass
    · obtain rfl := List.mem_singleton.mp hi
      exact hclass
  · rintro ⟨c, hc, hclass⟩
    refine ⟨(frame c "onEnable").head (List.cons_ne_nil _ _), List.mem_flatMap.mpr ⟨c, hc, ?_⟩,
      hclass⟩
    exact List.mem_flatMap.mpr ⟨"onEnable", List.mem_cons_self, List.head_mem _⟩

namespace PluginIndex

/-- Some archive has the descriptor, and no later one has a descriptor of that name. -/
def SpokenFor (archives : List Archive) (d : Descriptor) : Prop :=
  ∃ before a after, archives = before ++ a :: after ∧ descriptor? a = some d ∧
    ∀ b ∈ after, ∀ e, descriptor? b = some e → e.name ≠ d.name

variable {archives : List Archive} {a : Archive} {d : Descriptor}

theorem spokenFor_append_singleton :
    SpokenFor (archives ++ [a]) d ↔
      descriptor? a = some d ∨
        SpokenFor archives d ∧ ∀ e, descriptor? a = some e → e.name ≠ d.name := by
  constructor
  · rintro ⟨before, x, after, hsplit, hx, hafter⟩
    obtain rfl | ⟨after, y, rfl⟩ := List.eq_nil_or_concat after
    · obtain ⟨-, hlast⟩ := List.append_inj' hsplit rfl
      obtain rfl := List.singleton_inj.mp hlast
      exact .inl hx
    · rw [List.concat_eq_append, ← List.cons_append, ← List.append_assoc] at hsplit
      obtain ⟨rfl, hlast⟩ := List.append_inj' hsplit rfl
      obtain rfl := List.singleton_inj.mp hlast
      refine .inr ⟨⟨before, x, after, rfl, hx, fun b hb => hafter b ?_⟩, hafter a ?_⟩
      · simp [hb]
      · simp
  · rintro (ha | ⟨⟨before, x, after, rfl, hx, hafter⟩, ha⟩)
    · exact ⟨archives, a, [], rfl, ha, nofun⟩
    · refine ⟨before, x, after ++ [a], by simp, hx, fun b hb => ?_⟩
      obtain hb | hb := List.mem_append.mp hb
      · exact hafter b hb
      · obtain rfl := List.mem_singleton.mp hb
        exact ha

theorem describe_eq (descriptors : Table Descriptor) (a : Archive) :
    descriptor? a = none ∧ describe descriptors a = descriptors ∨
      ∃ d, descriptor? a = some d ∧ describe descriptors a = descriptors.insert d.name d := by
  rw [describe]
  cases descriptor? a with
  | none => exact .inl ⟨rfl, rfl⟩
  | some d => exact .inr ⟨d, rfl, rfl⟩

theorem descriptors_foldl (archives : List Archive) :
    let kept := archives.foldl describe .empty
    kept.Ordered ∧ ∀ e, e ∈ kept.entries ↔ e.1 = e.2.name ∧ SpokenFor archives e.2 := by
  induction archives using List.reverseRecOn with
  | nil =>
    refine ⟨Table.ordered_empty, fun e => iff_of_false List.not_mem_nil ?_⟩
    rintro ⟨-, before, x, after, hsplit, -⟩
    simp at hsplit
  | append_singleton archives a ih =>
    obtain ⟨hordered, hmem⟩ := ih
    rw [List.foldl_append, List.foldl_cons, List.foldl_nil]
    obtain ⟨hnone, hsame⟩ | ⟨d, hsome, hinsert⟩ := describe_eq (archives.foldl describe .empty) a
    · rw [hsame]
      refine ⟨hordered, fun e => ?_⟩
      rw [hmem, spokenFor_append_singleton, hnone]
      simp
    · rw [hinsert]
      refine ⟨hordered.insert d.name d, fun e => ?_⟩
      obtain ⟨key, x⟩ := e
      rw [hordered.mem_insert, hmem, spokenFor_append_singleton, hsome]
      simp only [Prod.mk.injEq, Option.some.injEq, forall_eq']
      constructor
      · rintro (⟨rfl, rfl⟩ | ⟨⟨rfl, hspoken⟩, hname⟩)
        · exact ⟨rfl, .inl rfl⟩
        · exact ⟨rfl, .inr ⟨hspoken, hname.symm⟩⟩
      · rintro ⟨rfl, rfl | ⟨hspoken, hname⟩⟩
        · exact .inl ⟨rfl, rfl⟩
        · exact .inr ⟨⟨rfl, hspoken⟩, hname.symm⟩

theorem descriptors_ofArchives (directory : Path) (archives : List Archive) :
    (ofArchives directory archives).descriptors = archives.foldl describe .empty := by
  induction archives using List.reverseRecOn with
  | nil => rfl
  | append_singleton archives a ih =>
    rw [List.foldl_append, ← ih, ofArchives, List.foldl_append]
    rfl

theorem mem_mainClasses_iff (directory : Path) (archives : List Archive) (c : String) :
    c ∈ (ofArchives directory archives).mainClasses ↔ ∃ d, SpokenFor archives d ∧ d.main = c := by
  obtain ⟨-, hmem⟩ := descriptors_foldl archives
  rw [mainClasses, descriptors_ofArchives, Table.values, List.map_map, List.mem_map]
  constructor
  · rintro ⟨e, he, rfl⟩
    exact ⟨e.2, ((hmem e).mp he).2, rfl⟩
  · rintro ⟨d, hspoken, rfl⟩
    exact ⟨(d.name, d), (hmem (d.name, d)).mpr ⟨rfl, hspoken⟩, rfl⟩

/-- Besides the host's own classes, a class is instrumented exactly if it is the main class in the
descriptor of some archive after which no archive with a descriptor of the same name came. -/
theorem targets_transformer_iff (directory : Path) (archives : List Archive) (name : String) :
    (ofArchives directory archives).transformer.targets name = true ↔
      (∃ i ∈ Injection.builtin, i.target.className = internalName name) ∨
        ∃ d, SpokenFor archives d ∧ internalName d.main = internalName name := by
  rw [Transformer.targets_iff, transformer, Transformer.injections_ofList]
  simp only [List.mem_append, or_and_right, exists_or]
  rw [Injection.exists_frames_iff]
  refine or_congr_right ⟨?_, ?_⟩
  · rintro ⟨c, hc, hclass⟩
    obtain ⟨d, hspoken, rfl⟩ := (mem_mainClasses_iff directory archives c).mp hc
    exact ⟨d, hspoken, hclass⟩
  · rintro ⟨d, hspoken, hclass⟩
    exact ⟨d.main, (mem_mainClasses_iff directory archives _).mpr ⟨d, hspoken, rfl⟩, hclass⟩

def namesake (file main : String) : Archive :=
  ⟨⟨file⟩, some "P", some ("name: P\nmain: " ++ main ++ "\n"), [], [], ""⟩

/-- A second archive of the same name takes the frames away from the first one's main class. -/
theorem namesake_not_targeted :
    (descriptor? (namesake "/p/a.jar" "a.A")).map (·.main) = some "a.A" ∧
      (ofArchives ⟨"/p"⟩ [namesake "/p/a.jar" "a.A", namesake "/p/b.jar" "b.B"]).transformer.targets
        "a.A" = false := by
  decide +kernel

end PluginIndex

end PluginGuard
