import PluginGuard.Proofs.Registry

/-!
# The first archive with a class owns it

An index takes archives in one by one and keeps its table of owners along with them. After any
number of archives it answers as a registry of its list of plugins does, whose table is made at
once: a class belongs to the first archive that has it, a file and a name to the first archive that
goes by it, and archives that come later only get what nobody had.
-/
namespace PluginGuard

def Archive.ships (a : Archive) (className : String) : Bool :=
  a.classes.any (·.className == className)

namespace PluginIndex

theorem owns_plugin (a : Archive) (className : String) :
    (plugin a).owns className = a.ships className := by
  rw [Bool.eq_iff_iff, Plugin.owns, plugin, List.contains_iff_mem, NameSet.mem_ofList,
    Archive.ships, List.any_eq_true, List.mem_map]
  simp only [beq_iff_eq]

variable (directory : Path) (archives : List Archive)

theorem byClass_ofArchives (className : String) : (ofArchives directory archives).byClass className =
    (archives.find? (·.ships className)).map plugin := by
  have hindexed := indexed_ofArchives directory archives className
  rw [lookup, plugins_ofArchives, List.find?_map] at hindexed
  refine hindexed.trans (congrArg (Option.map plugin) ?_)
  exact congrArg (List.find? · archives) (funext fun a => owns_plugin a className)

theorem byFile_ofArchives (file : Path) : (ofArchives directory archives).byFile file =
    (archives.find? (·.path.same file)).map plugin := by
  rw [byFile, plugins_ofArchives, List.find?_map]
  rfl

theorem byName_ofArchives (name : String) : (ofArchives directory archives).byName name =
    (archives.find? (displayName · == name)).map plugin := by
  rw [byName, plugins_ofArchives, List.find?_map]
  rfl

theorem place_lt_of_mem_owners {e : String × Nat}
    (he : e ∈ (ofArchives directory archives).owners) : e.2 < archives.length := by
  rw [owners_ofArchives] at he
  obtain ⟨p, hp⟩ := exists_entry_of_mem_owned he
  simpa using List.snd_lt_of_mem_zipIdx hp

/-- A class belongs to the first archive that has it, and a file and a name to the first archive
that goes by it; to nobody if there is none. All lookups and the list are those of the registry that
is made of the list, and each place in the table is that of a plugin. Archives that are added later
get the classes that had no owner, and no others. -/
theorem first_archive_owns :
    let index := ofArchives directory archives
    let fixed := Registry.ofList index.plugins
    (∀ className, index.byClass className = (archives.find? (·.ships className)).map plugin) ∧
    (∀ file, index.byFile file = (archives.find? (·.path.same file)).map plugin) ∧
    (∀ name, index.byName name = (archives.find? (displayName · == name)).map plugin) ∧
    index.plugins = archives.map plugin ∧
    (∀ className, index.byClass className = fixed.byClass className) ∧
    (∀ file, index.byFile file = fixed.byFile file) ∧
    (∀ name, index.byName name = fixed.byName name) ∧
    index.plugins = fixed.plugins ∧
    (∀ e ∈ index.owners, e.2 < index.plugins.length) ∧
    ∀ (later : List Archive) className, (later.foldl add index).byClass className =
      (index.byClass className).or ((later.find? (·.ships className)).map plugin) := by
  intro index fixed
  refine ⟨byClass_ofArchives directory archives, byFile_ofArchives directory archives,
    byName_ofArchives directory archives, plugins_ofArchives directory archives,
    fun className => ?_, fun _ => rfl, fun _ => rfl, rfl, fun e he => ?_, fun later className => ?_⟩
  · exact (indexed_ofArchives directory archives className).trans
      (Registry.indexed_ofList index.plugins className).symm
  · rw [plugins_ofArchives, List.length_map]
    exact place_lt_of_mem_owners directory archives he
  · have hall : later.foldl add index = ofArchives directory (archives ++ later) := by
      rw [ofArchives, List.foldl_append]
      rfl
    rw [hall, byClass_ofArchives, byClass_ofArchives, List.find?_append, Option.map_or]

end PluginIndex

end PluginGuard
