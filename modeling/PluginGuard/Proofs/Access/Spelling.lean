import PluginGuard.Proofs.Access.Decision
import PluginGuard.Proofs.Path.Location

/-!
# Spellings of a path

However a location is written, as a path from the root or against an absolute base,
with slashes and dots of any number, it is one argument, so every check answers
alike. The guard keeps plugins from changing what lies at or below its own
directory by these names, and not what only begins with the same characters.
-/
namespace PluginGuard

variable {base : Path} {o : Operation}

theorem Argument.parse_of_path (ofPath : o.kind = .path) (raw : String) (base : Path) :
    parse o raw base = .ok (.path (base.resolveAgainst ⟨raw⟩)) := by
  rw [parse, ofPath]

theorem Argument.parse_eq_iff (absolute : base.isAbsolute = true) (ofPath : o.kind = .path)
    (raw raw' : String) :
    parse o raw base = parse o raw' base ↔ base.namesFrom ⟨raw⟩ = base.namesFrom ⟨raw'⟩ := by
  rw [parse_of_path ofPath, parse_of_path ofPath, Except.ok.injEq, Argument.path.injEq,
    Path.resolveAgainst_eq absolute, Path.resolveAgainst_eq absolute]
  constructor
  · intro h
    rw [← Path.names_of_names (Path.isName_of_mem_namesFrom (p := ⟨raw⟩)), h,
      Path.names_of_names Path.isName_of_mem_namesFrom]
  · intro h
    rw [h]

namespace Guard

variable {g : Guard}

theorem defends_path_iff (defending : g.selfDefense = true)
    (rooted : g.workspace.directory.isAbsolute = true) (changes : o.modifiesFiles = true)
    (absolute : base.isAbsolute = true) (p : Path) :
    g.Defends o (.path (base.resolveAgainst p)) ↔
      g.workspace.directory.names <+: base.namesFrom p := by
  have hnormal : (base.resolveAgainst p).normalize.components =
      .root :: (base.namesFrom p).map .name := by
    rw [Path.resolveAgainst_eq absolute, Path.components_normalize (Path.isAbsolute_of_names _),
      Path.names_of_names Path.isName_of_mem_namesFrom]
  have hinjective : Function.Injective Path.Component.name := fun _ _ => Path.Component.name.inj
  rw [← touchesOwnStorage_iff, touchesOwnStorage, defending, changes, Bool.and_self, Bool.true_and,
    inOwnStorage, Path.startsWith, List.isPrefixOf_iff_prefix, hnormal,
    Path.components_normalize rooted, List.cons_prefix_cons, and_iff_right rfl,
    List.prefix_map_iff_of_injective hinjective]

theorem check_of_not_defends {a : Argument} (h : ¬ g.Defends o a) (frames : List CallFrame) :
    g.check o a frames = Guard.check { g with selfDefense := false } o a frames := by
  refine check_congr (decide_congr ?_ fun _ _ => rfl)
  rw [Bool.eq_false_iff.mpr fun hown => h ((g.touchesOwnStorage_iff o a).mp hown)]
  cases a <;> rfl

/-- Every text for one location gives one argument and the same checks. With self-defense a change
by a plugin is denied for every text whose names begin with those of the guard's own directory; for
any other it is left to the policy, also where a name only begins with the directory's last one. -/
theorem check_of_spelling (absolute : base.isAbsolute = true) (ofPath : o.kind = .path) :
    (∀ raw raw' : String,
      (Argument.parse o raw base = Argument.parse o raw' base ↔
        base.namesFrom ⟨raw⟩ = base.namesFrom ⟨raw'⟩) ∧
      (base.namesFrom ⟨raw⟩ = base.namesFrom ⟨raw'⟩ → ∀ (g : Guard) (frames : List CallFrame),
        (Argument.parse o raw base).map (g.check o · frames) =
          (Argument.parse o raw' base).map (g.check o · frames))) ∧
    ∀ g : Guard, g.selfDefense = true → g.workspace.directory.isAbsolute = true →
      o = .fileWrite ∨ o = .fileDelete → ∀ (raw : String) (frames : List CallFrame),
      ∃ l, Argument.parse o raw base = .ok (.path l) ∧
        (g.workspace.directory.names <+: base.namesFrom ⟨raw⟩ →
          ∀ site t, g.resolver.caller? frames = some site → t.inCheck = false →
            (g.check o (.path l) frames).run t = (.error ⟨o, site, .path l⟩, t)) ∧
        (¬ g.workspace.directory.names <+: base.namesFrom ⟨raw⟩ →
          g.check o (.path l) frames =
            Guard.check { g with selfDefense := false } o (.path l) frames) ∧
        ∀ up name more rest, g.workspace.directory.names = up ++ [name] → more ≠ "" →
          base.namesFrom ⟨raw⟩ = up ++ (name ++ more) :: rest →
          g.check o (.path l) frames =
            Guard.check { g with selfDefense := false } o (.path l) frames := by
  constructor
  · intro raw raw'
    have hparse := Argument.parse_eq_iff absolute ofPath raw raw'
    exact ⟨hparse, fun hsame g frames => by rw [hparse.mpr hsame]⟩
  · intro g defending rooted hchanges raw frames
    have changes : o.modifiesFiles = true := by rcases hchanges with rfl | rfl <;> rfl
    have hdefends := defends_path_iff defending rooted changes absolute ⟨raw⟩
    refine ⟨_, Argument.parse_of_path ofPath raw base, fun hbelow site t hsite outside => ?_,
      fun hbeside => check_of_not_defends (fun h => hbeside (hdefends.mp h)) frames,
      fun up name more rest hdirectory hmore hraw => ?_⟩
    · rw [run_check_outside g o _ outside]
      exact Prod.ext ((g.decide_eq_error_iff o _ _ _).mpr
        ⟨site, hsite, .inl (hdefends.mpr hbelow), rfl⟩) rfl
    · refine check_of_not_defends (fun h => hmore ?_) frames
      have hlonger := hdefends.mp h
      rw [hdirectory, hraw, List.prefix_append_right_inj, List.cons_prefix_cons] at hlonger
      exact String.append_eq_left_iff.mp hlonger.1.symm

theorem check_of_spelling_cleaner :
    (Path.mk "/b").isAbsolute = true ∧ Operation.kind .fileDelete = .path ∧
      Argument.parse .fileDelete "..//w/./c/" ⟨"/b"⟩ = Argument.parse .fileDelete "/w/c" ⟨"/b"⟩ ∧
      (∃ l, Argument.parse .fileDelete "..//w/./c/" ⟨"/b"⟩ = .ok (.path l) ∧
        (cleaners.check .fileDelete (.path l) cleanerFrames).run .fresh =
          (.error ⟨.fileDelete, ⟨"/plugins/c.jar", "Cleaner", "c.Main", "run"⟩, .path l⟩, .fresh)) ∧
      ∃ l, Argument.parse .fileDelete "../w2/c" ⟨"/b"⟩ = .ok (.path l) ∧
        cleaners.check .fileDelete (.path l) cleanerFrames =
          Guard.check { cleaners with selfDefense := false } .fileDelete (.path l)
            cleanerFrames := by
  have hbase : (Path.mk "/b").isAbsolute = true := by decide
  obtain ⟨hspelled, hguarded⟩ := check_of_spelling (o := .fileDelete) hbase rfl
  have hcleaners := hguarded cleaners rfl (by decide) (.inr rfl)
  obtain ⟨l, hl, hbelow, -, -⟩ := hcleaners "..//w/./c/" cleanerFrames
  obtain ⟨l', hl', -, -, hsibling⟩ := hcleaners "../w2/c" cleanerFrames
  refine ⟨hbase, rfl, (hspelled _ _).1.mpr (by decide),
    ⟨l, hl, hbelow (by decide) _ .fresh (by decide) rfl⟩,
    ⟨l', hl', hsibling [] "w" "2" ["c"] (by decide) (by decide) (by decide)⟩⟩

end Guard

end PluginGuard
