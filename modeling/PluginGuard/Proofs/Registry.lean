import Mathlib.Data.List.FinRange
import Mathlib.Data.List.Induction
import PluginGuard.PluginIndex

/-!
# Owners of classes

A registry of plugins that are all known from the start and an index that takes them in one by one
fill the same kind of table: each plugin, with its place, claims the classes that have no owner yet.
What such a table answers is the first plugin in the list that has the class.
-/
namespace PluginGuard

/-! ### Tables of owners -/

def owned {α : Type} (entries : List (Plugin × α)) : List (String × α) :=
  entries.foldl (fun owners e => e.1.classNames.foldl (Registry.claim e.2) owners) []

section

open Registry (claim)

variable {α : Type} {entries : List (Plugin × α)} {e : String × α}

theorem find?_claim (place : α) (owners : List (String × α)) (name className : String) :
    (claim place owners name).find? (·.1 == className) =
      (owners.find? (·.1 == className)).or
        (if name = className then some (name, place) else none) := by
  rw [claim]
  cases hname : owners.any (·.1 == name) with
  | true =>
    obtain ⟨e, he, hkey⟩ := List.any_eq_true.mp hname
    by_cases h : name = className
    · subst h
      have hfound : (owners.find? (·.1 == name)).isSome := List.find?_isSome.mpr ⟨e, he, hkey⟩
      simp [Option.or_of_isSome hfound]
    · simp [h]
  | false =>
    by_cases h : name = className <;> simp [h]

theorem find?_foldl_claim (place : α) (names : List String) (owners : List (String × α))
    (className : String) :
    (names.foldl (claim place) owners).find? (·.1 == className) =
      (owners.find? (·.1 == className)).or
        (if className ∈ names then some (className, place) else none) := by
  induction names generalizing owners with
  | nil => simp
  | cons name names ih =>
    rw [List.foldl_cons, ih, find?_claim, Option.or_assoc]
    by_cases h : name = className
    · subst h
      simp
    · simp [h, Ne.symm h]

theorem owned_append_singleton (e : Plugin × α) :
    owned (entries ++ [e]) = e.1.classNames.foldl (claim e.2) (owned entries) := by
  rw [owned, List.foldl_append]
  rfl

theorem find?_owned (entries : List (Plugin × α)) (className : String) :
    (owned entries).find? (·.1 == className) =
      (entries.find? (·.1.owns className)).map fun e => (className, e.2) := by
  induction entries using List.reverseRecOn with
  | nil => rfl
  | append_singleton entries e ih =>
    rw [owned_append_singleton, find?_foldl_claim, ih, List.find?_append, Option.map_or]
    by_cases h : className ∈ e.1.classNames <;> simp [Plugin.owns, h]

theorem find?_owned_bind (entries : List (Plugin × α)) (get : α → Option Plugin)
    (hget : ∀ e ∈ entries, get e.2 = some e.1) (className : String) :
    ((owned entries).find? (·.1 == className)).bind (fun e => get e.2) =
      (entries.map (·.1)).find? (·.owns className) := by
  have hfirst : (entries.map (·.1)).find? (·.owns className) =
      (entries.find? (·.1.owns className)).map (·.1) := List.find?_map
  rw [find?_owned, hfirst, Option.bind_map]
  cases hfound : entries.find? (·.1.owns className) with
  | none => rfl
  | some e => exact hget e (List.mem_of_find?_eq_some hfound)

theorem mem_claim {place : α} {names : List String} {owners : List (String × α)}
    (h : e ∈ names.foldl (claim place) owners) : e ∈ owners ∨ e.2 = place := by
  induction names generalizing owners with
  | nil => exact .inl h
  | cons name names ih =>
    obtain hclaimed | hplace := ih h
    · rw [claim] at hclaimed
      split at hclaimed
      · exact .inl hclaimed
      · obtain hold | rfl := List.mem_append.mp hclaimed |>.imp_right List.mem_singleton.mp
        · exact .inl hold
        · exact .inr rfl
    · exact .inr hplace

theorem exists_entry_of_mem_owned (h : e ∈ owned entries) : ∃ p, (p, e.2) ∈ entries := by
  induction entries using List.reverseRecOn with
  | nil => cases h
  | append_singleton entries entry ih =>
    rw [owned_append_singleton] at h
    obtain hold | hplace := mem_claim h
    · obtain ⟨p, hp⟩ := ih hold
      exact ⟨p, List.mem_append_left _ hp⟩
    · exact ⟨entry.1, List.mem_append_right _ (hplace ▸ List.mem_singleton_self entry)⟩

end

/-! ### Lookups -/

def PluginLookup.Indexed (l : PluginLookup) : Prop :=
  ∀ className, l.byClass className = l.plugins.find? (·.owns className)

namespace Registry

def entries (ps : List Plugin) : List (Plugin × Fin ps.length) :=
  (List.finRange ps.length).map fun i => (ps.get i, i)

theorem owners_ofList (ps : List Plugin) : (ofList ps).owners = owned (entries ps) := by
  rw [owned, entries, List.foldl_map]
  rfl

theorem plugins_lookup (ps : List Plugin) : (ofList ps).lookup.plugins = ps := rfl

theorem byName_lookup (ps : List Plugin) (name : String) :
    (ofList ps).lookup.byName name = ps.find? (·.displayName == name) := rfl

theorem indexed_ofList (ps : List Plugin) : (ofList ps).lookup.Indexed := by
  intro className
  have hplugins : (entries ps).map (·.1) = ps := by
    rw [entries, List.map_map]
    exact List.map_getElem_finRange ps
  have hanswer := find?_owned_bind (entries ps) (fun i => some ps[i]) (by simp [entries]) className
  rw [← owners_ofList, hplugins] at hanswer
  rw [plugins_lookup, ← hanswer]
  exact Option.map_eq_bind

end Registry

namespace PluginIndex

variable (directory : Path) (archives : List Archive)

theorem ofArchives_append_singleton (a : Archive) :
    ofArchives directory (archives ++ [a]) = (ofArchives directory archives).add a := by
  rw [ofArchives, List.foldl_append]
  rfl

theorem plugins_ofArchives : (ofArchives directory archives).plugins = archives.map plugin := by
  induction archives using List.reverseRecOn with
  | nil => rfl
  | append_singleton archives a ih =>
    rw [ofArchives_append_singleton, add, List.map_append, ih]
    rfl

theorem owners_ofArchives :
    (ofArchives directory archives).owners = owned (archives.map plugin).zipIdx := by
  induction archives using List.reverseRecOn with
  | nil => rfl
  | append_singleton archives a ih =>
    rw [ofArchives_append_singleton, add, List.map_append, List.zipIdx_append, List.map_singleton,
      List.zipIdx_singleton, owned_append_singleton, ih, plugins_ofArchives, Nat.zero_add]

theorem indexed_ofArchives : (ofArchives directory archives).lookup.Indexed := by
  intro className
  have hanswer := find?_owned_bind (archives.map plugin).zipIdx ((archives.map plugin)[·]?)
    (fun e he => List.mem_zipIdx_iff_getElem?.mp he) className
  rw [List.zipIdx_map_fst, ← owners_ofArchives directory, ← plugins_ofArchives directory] at hanswer
  exact hanswer

end PluginIndex

end PluginGuard
