import Mathlib.Data.List.Forall2
import Mathlib.Data.List.Infix
import Mathlib.Data.List.Pairwise
import Mathlib.Data.List.Sort
import Mathlib.Data.List.Sublists
import PluginGuard.Hook.Builtin
import PluginGuard.Proofs.ClassFile.Code.WellFormed
import PluginGuard.Proofs.Hook.Edits

/-!
# What an excision leaves

The windows that a pattern fits are collected in one pass over the body and then taken out.
Nothing that stood together in the body and fits is left. But a removal joins what stood before
the window to what stood behind it, and where the pattern fits across such a seam the body still
holds it. That is the only way in which a body is not clean after an excision.
-/
namespace PluginGuard

open ClassFile

namespace Excision

variable {pool : Pool} {pattern : List InstructionPattern} {is : List Instruction}

/-! ### Windows -/

def Fits (pool : Pool) (pattern : List InstructionPattern) (window : List Instruction) : Prop :=
  List.Forall₂ (fun p i => p.accepts pool i = true) pattern window

def Clean (pool : Pool) (pattern : List InstructionPattern) (is : List Instruction) : Prop :=
  ∀ window, window <:+: is → ¬Fits pool pattern window

theorem fitsFront_iff :
    fitsFront pool pattern is = true ↔ ∃ window, window <+: is ∧ Fits pool pattern window := by
  induction pattern generalizing is with
  | nil => simp [fitsFront, Fits]
  | cons p pattern ih =>
    cases is with
    | nil => simp [fitsFront, Fits]
    | cons i is =>
      rw [fitsFront, Bool.and_eq_true, ih]
      constructor
      · rintro ⟨hp, window, hprefix, hfits⟩
        exact ⟨i :: window, List.cons_prefix_cons.mpr ⟨rfl, hprefix⟩, .cons hp hfits⟩
      · rintro ⟨window, hprefix, hfits⟩
        cases hfits with
        | @cons _ j _ window hp hfits =>
          obtain ⟨rfl, hrest⟩ := List.cons_prefix_cons.mp hprefix
          exact ⟨hp, window, hrest, hfits⟩

theorem clean_iff :
    Clean pool pattern is ↔ ∀ k, fitsFront pool pattern (is.drop k) = false := by
  simp only [Clean, List.infix_iff_prefix_suffix, ← Bool.not_eq_true, fitsFront_iff]
  constructor
  · rintro h k ⟨window, hprefix, hfits⟩
    exact h window ⟨_, hprefix, List.drop_suffix k is⟩ hfits
  · rintro h window ⟨rest, hprefix, hsuffix⟩ hfits
    rw [List.suffix_iff_eq_drop.mp hsuffix] at hprefix
    exact h _ ⟨window, hprefix, hfits⟩

/-! ### The pass over the body -/

variable {k upTo : Nat} {places : List Nat}

theorem le_length_of_fitsFront (hpattern : pattern ≠ [])
    (h : fitsFront pool pattern (is.drop k) = true) : k + pattern.length ≤ is.length := by
  obtain ⟨window, hprefix, hfits⟩ := fitsFront_iff.mp h
  have hlength := hfits.length_eq
  have hle := hprefix.length_le
  have hpos := List.length_pos_iff.mpr hpattern
  rw [List.length_drop] at hle
  omega

/-- Places where the pattern fits, the last one first and apart from one another, that between
them cover every start before `upTo` of a window that it fits. -/
structure Collected (pool : Pool) (pattern : List InstructionPattern) (is : List Instruction)
    (upTo : Nat) (places : List Nat) : Prop where
  fits : ∀ i ∈ places, fitsFront pool pattern (is.drop i) = true
  apart : places.Pairwise fun i j => j + pattern.length ≤ i
  within : ∀ i ∈ places, i + pattern.length ≤ upTo
  covered : ∀ k < upTo, fitsFront pool pattern (is.drop k) = true →
    ∃ i ∈ places, i ≤ k ∧ k < i + pattern.length

namespace Collected

theorem nil : Collected pool pattern is 0 [] :=
  ⟨List.forall_mem_nil _, .nil, List.forall_mem_nil _, nofun⟩

theorem place (h : Collected pool pattern is upTo places)
    (hfits : fitsFront pool pattern (is.drop upTo) = true) :
    Collected pool pattern is (upTo + pattern.length) (upTo :: places) := by
  refine ⟨List.forall_mem_cons.mpr ⟨hfits, h.fits⟩, .cons h.within h.apart,
    List.forall_mem_cons.mpr ⟨le_rfl, fun i hi => ?_⟩, fun k hk hfitsk => ?_⟩
  · exact (h.within i hi).trans (Nat.le_add_right _ _)
  · rcases Nat.lt_or_ge k upTo with hlt | hge
    · obtain ⟨i, hi, hcovers⟩ := h.covered k hlt hfitsk
      exact ⟨i, List.mem_cons_of_mem upTo hi, hcovers⟩
    · exact ⟨upTo, List.mem_cons_self, hge, hk⟩

theorem pass (h : Collected pool pattern is upTo places)
    (hfits : fitsFront pool pattern (is.drop upTo) = false) :
    Collected pool pattern is (upTo + 1) places := by
  refine ⟨h.fits, h.apart, fun i hi => (h.within i hi).trans (Nat.le_succ _), fun k hk hfitsk => ?_⟩
  rcases Nat.lt_succ_iff_lt_or_eq.mp hk with hlt | rfl
  · exact h.covered k hlt hfitsk
  · cases hfits.symm.trans hfitsk

theorem mem_iff (hpattern : pattern ≠ []) (h : Collected pool pattern is upTo places) :
    k ∈ places ↔ k < upTo ∧ fitsFront pool pattern (is.drop k) = true ∧
      ∀ i ∈ places, i < k → i + pattern.length ≤ k := by
  have hpos := List.length_pos_iff.mpr hpattern
  constructor
  · intro hk
    have hwithin := h.within k hk
    have hapart : places.Pairwise fun i j => j + pattern.length ≤ i ∨ i + pattern.length ≤ j :=
      h.apart.imp .inl
    have : Std.Symm fun i j => j + pattern.length ≤ i ∨ i + pattern.length ≤ j := ⟨fun _ _ => .symm⟩
    refine ⟨by omega, h.fits k hk, fun i hi hlt => ?_⟩
    obtain hle | hle := hapart.forall hk hi (Nat.ne_of_gt hlt)
    · exact hle
    · omega
  · rintro ⟨hk, hfits, hapart⟩
    obtain ⟨i, hi, hle, hlt⟩ := h.covered k hk hfits
    obtain rfl | hbefore := Nat.eq_or_lt_of_le hle
    · exact hi
    · have := hapart i hi hbefore
      omega

theorem unique (hpattern : pattern ≠ []) {places' : List Nat}
    (h : Collected pool pattern is upTo places) (h' : Collected pool pattern is upTo places') :
    places = places' := by
  have hmem : ∀ k, k ∈ places ↔ k ∈ places' := by
    intro k
    induction k using Nat.strong_induction_on with
    | h k ih =>
      rw [h.mem_iff hpattern, h'.mem_iff hpattern]
      refine and_congr_right fun _ => and_congr_right fun _ => forall_congr' fun i => ?_
      constructor
      · exact fun hi hi' hlt => hi ((ih i hlt).mpr hi') hlt
      · exact fun hi hi' hlt => hi ((ih i hlt).mp hi') hlt
  have hpos := List.length_pos_iff.mpr hpattern
  have falls {places : List Nat} (h : Collected pool pattern is upTo places) :
      places.Pairwise (· > ·) :=
    h.apart.imp fun hle => by omega
  exact (falls h).eq_of_mem_iff (falls h') hmem

end Collected

/-- The pass stands at `index`; of the last place that it found `skip` instructions are ahead. -/
theorem collected_of_pass (hpattern : pattern ≠ []) {skip index : Nat} {found : List Nat}
    {rest : List Instruction} (hrest : is.drop index = rest)
    (h : Collected pool pattern is (index + skip) found) :
    Collected pool pattern is is.length (occurrences pool pattern skip index found rest) := by
  induction rest generalizing skip index found with
  | nil =>
    rw [occurrences]
    have hend := List.drop_eq_nil_iff.mp hrest
    refine ⟨h.fits, h.apart, fun i hi => le_length_of_fitsFront hpattern (h.fits i hi), ?_⟩
    intro k hk
    exact h.covered k (by omega)
  | cons i rest ih =>
    have hnext : is.drop (index + 1) = rest := by
      rw [← List.drop_drop, hrest, List.drop_one, List.tail_cons]
    cases skip with
    | succ skip =>
      rw [occurrences]
      exact ih hnext (by rwa [Nat.add_assoc, Nat.add_comm 1 skip])
    | zero =>
      rw [occurrences, ← hrest]
      split_ifs with hfits
      · have hpos := List.length_pos_iff.mpr hpattern
        refine ih hnext ?_
        rw [Nat.add_assoc, Nat.add_sub_cancel' hpos]
        exact h.place hfits
      · exact ih hnext (h.pass (Bool.eq_false_iff.mpr hfits))

def sites (pool : Pool) (pattern : List InstructionPattern) (is : List Instruction) : List Nat :=
  occurrences pool pattern 0 0 [] is

theorem collected_sites (hpattern : pattern ≠ []) (is : List Instruction) :
    Collected pool pattern is is.length (sites pool pattern is) :=
  collected_of_pass hpattern rfl .nil

theorem sites_eq_nil_iff (hpattern : pattern ≠ []) :
    sites pool pattern is = [] ↔ Clean pool pattern is := by
  have collected : Collected pool pattern is is.length _ := collected_sites hpattern is
  rw [clean_iff]
  constructor
  · intro hnone k
    refine Bool.eq_false_iff.mpr fun hfits => ?_
    have hpos := List.length_pos_iff.mpr hpattern
    have hle := le_length_of_fitsFront hpattern hfits
    obtain ⟨i, hi, -⟩ := collected.covered k (by omega) hfits
    rw [hnone] at hi
    cases hi
  · intro hclean
    refine List.eq_nil_iff_forall_not_mem.mpr fun i hi => ?_
    cases (hclean i).symm.trans (collected.fits i hi)

/-! ### Taking out -/

def cut {α : Type} (n : Nat) (xs : List α) (i : Nat) : List α := xs.take i ++ xs.drop (i + n)

theorem cut_map {α β : Type} (f : α → β) (n : Nat) (xs : List α) (i : Nat) :
    cut n (xs.map f) i = (cut n xs i).map f := by
  rw [cut, cut, List.map_append, List.map_take, List.map_drop]

theorem foldl_cut_map {α β : Type} (f : α → β) (n : Nat) (xs : List α) (places : List Nat) :
    places.foldl (cut n) (xs.map f) = (places.foldl (cut n) xs).map f := by
  induction places generalizing xs with
  | nil => rfl
  | cons i places ih => rw [List.foldl_cons, List.foldl_cons, cut_map, ih]

def spared (n size : Nat) (places : List Nat) : List Nat :=
  (List.range size).filter fun k => ∀ i ∈ places, k < i ∨ i + n ≤ k

theorem spared_cons {n size i : Nat} (hi : i + n ≤ size) (hbefore : ∀ j ∈ places, j + n ≤ i) :
    spared n size (i :: places) = spared n i places ++ List.range' (i + n) (size - (i + n)) := by
  have hsplit : List.range size =
      List.range i ++ (List.range' i n ++ List.range' (i + n) (size - (i + n))) := by
    rw [List.range_eq_range', List.range_eq_range', List.range'_append_1]
    have hrest := List.range'_append_1 (s := 0) (m := i) (n := n + (size - (i + n)))
    rw [Nat.zero_add] at hrest
    rw [hrest]
    congr 1
    omega
  rw [spared, spared, hsplit, List.filter_append, List.filter_append]
  have hmiddle : (List.range' i n).filter (fun k => ∀ j ∈ i :: places, k < j ∨ j + n ≤ k) = [] := by
    refine List.filter_eq_nil_iff.mpr fun k hk hspared => ?_
    have hk := List.mem_range'_1.mp hk
    have := of_decide_eq_true hspared i List.mem_cons_self
    omega
  have hbehind : (List.range' (i + n) (size - (i + n))).filter
      (fun k => ∀ j ∈ i :: places, k < j ∨ j + n ≤ k) = List.range' (i + n) (size - (i + n)) := by
    refine List.filter_eq_self.mpr fun k hk => decide_eq_true fun j hj => .inr ?_
    have hk := List.mem_range'_1.mp hk
    obtain rfl | hj := List.mem_cons.mp hj
    · exact hk.1
    · have := hbefore j hj
      omega
  rw [hmiddle, hbehind, List.nil_append]
  congr 1
  refine List.filter_congr fun k hk => decide_eq_decide.mpr ?_
  rw [List.forall_mem_cons]
  exact and_iff_right (.inl (List.mem_range.mp hk))

/-- The last place is taken out first, so the places before it keep their numbers. -/
theorem foldl_cut_range {n size : Nat} (happart : places.Pairwise fun i j => j + n ≤ i)
    (hwithin : ∀ i ∈ places, i + n ≤ size) (behind : List Nat) :
    places.foldl (cut n) (List.range size ++ behind) = spared n size places ++ behind := by
  induction places generalizing size behind with
  | nil => simp [spared]
  | cons i places ih =>
    obtain ⟨hbefore, happart⟩ := List.pairwise_cons.mp happart
    obtain ⟨hi, -⟩ := List.forall_mem_cons.mp hwithin
    have hcut : cut n (List.range size ++ behind) i =
        List.range i ++ (List.range' (i + n) (size - (i + n)) ++ behind) := by
      rw [cut, List.take_append_of_le_length (by rw [List.length_range]; omega), List.take_range,
        List.drop_append_of_le_length (by rw [List.length_range]; omega),
        Nat.min_eq_left (by omega), List.range_eq_range' (n := size), List.drop_range']
      simp
    rw [List.foldl_cons, hcut, ih happart hbefore, spared_cons hi hbefore, List.append_assoc]

def select (is : List Instruction) (ks : List Nat) : List Instruction := ks.filterMap (is[·]?)

theorem foldl_cut {n : Nat} (happart : places.Pairwise fun i j => j + n ≤ i)
    (hwithin : ∀ i ∈ places, i + n ≤ is.length) :
    places.foldl (cut n) is = select is (spared n is.length places) := by
  have hpositions : is.map some = (List.range is.length).map (is[·]?) := by
    refine List.map_eq_iff.mpr fun k => ?_
    rw [List.getElem?_map]
    rcases Nat.lt_or_ge k is.length with hk | hk
    · rw [List.getElem?_range hk, List.getElem?_eq_getElem hk, Option.map_some, Option.map_some,
        List.getElem?_eq_getElem hk]
    · rw [List.getElem?_eq_none hk, List.getElem?_eq_none (by rwa [List.length_range])]
      rfl
  have hcut := foldl_cut_range happart hwithin []
  rw [List.append_nil, List.append_nil] at hcut
  have h : (places.foldl (cut n) is).map some = (spared n is.length places).map (is[·]?) := by
    rw [← foldl_cut_map, hpositions, foldl_cut_map, hcut]
  rw [select, ← List.filterMap_some (l := places.foldl (cut n) is)]
  have hjoin := congrArg (List.filterMap id) h
  rwa [List.filterMap_map, List.filterMap_map] at hjoin

/-! ### What is left -/

def sight (pool : Pool) (i : Instruction) (p : InstructionPattern) : Bool := p.accepts pool i

theorem sight_mapTargets (pool : Pool) (f : Nat → Nat) (i : Instruction) :
    sight pool (i.mapTargets f) = sight pool i := by
  obtain ⟨opcode, operand⟩ := i
  cases operand with
  | _ => rfl

theorem fits_iff {window : List Instruction} :
    Fits pool pattern window ↔
      List.Forall₂ (fun p seen => seen p = true) pattern (window.map (sight pool)) := by
  rw [List.forall₂_map_right_iff]
  rfl

theorem Clean.congr {is' : List Instruction} (hclean : Clean pool pattern is)
    (h : is'.map (sight pool) = is.map (sight pool)) : Clean pool pattern is' := by
  intro window hwindow hfits
  have hinfix := hwindow.map (sight pool)
  rw [h] at hinfix
  obtain ⟨window', hwindow', hsight⟩ := List.infix_map_iff.mp hinfix
  refine hclean window' hwindow' (fits_iff.mpr ?_)
  rw [← hsight]
  exact fits_iff.mp hfits

theorem sight_atEach {n : Nat} {w w' : Workpiece}
    (h : (Editing.atEach (fun c i => c.remove i (i + n)) places).run.run w = (.ok (), w')) :
    w'.pool = w.pool ∧ w'.code.instructions.map (sight pool) =
      (places.foldl (cut n) w.code.instructions).map (sight pool) := by
  induction places generalizing w with
  | nil =>
    cases h
    exact ⟨rfl, rfl⟩
  | cons i places ih =>
    obtain ⟨_, w₁, hfirst, hrest⟩ := Fault.run_bind_eq_ok.mp h
    obtain ⟨-, -, -, hremoved⟩ := Code.remove_eq_ok.mp (Editing.onCode_eq_ok hfirst)
    have hpool : w₁.pool = w.pool := by
      rw [← Editing.pool_onCode (fun c => c.remove i (i + n)) w, hfirst]
    have hseen : w₁.code.instructions.map (sight pool) =
        (cut n w.code.instructions i).map (sight pool) := by
      rw [hremoved, Code.instructions_removed, List.map_map]
      exact List.map_congr_left fun j _ => sight_mapTargets pool _ j
    obtain ⟨hpool', hseen'⟩ := ih hrest
    refine ⟨hpool'.trans hpool, ?_⟩
    rw [hseen', ← foldl_cut_map, hseen, foldl_cut_map, List.foldl_cons]

/-! ### Seams -/

def remaining (pool : Pool) (pattern : List InstructionPattern) (is : List Instruction) :
    List Nat :=
  spared pattern.length is.length (sites pool pattern is)

def Adjacent (ks : List Nat) : Prop := ks.IsChain fun k k' => k' = k + 1

/-- Taking out the occurrences from the left brings instructions together that the pattern fits
and that did not stand together before. -/
def Joins (pool : Pool) (pattern : List InstructionPattern) (is : List Instruction) : Prop :=
  ∃ places, Collected pool pattern is is.length places ∧
    ∃ ks, ks <:+: spared pattern.length is.length places ∧ ¬Adjacent ks ∧
      Fits pool pattern (select is ks)

instance : Decidable (Fits pool pattern is) := inferInstanceAs (Decidable (List.Forall₂ _ _ _))

instance (ks : List Nat) : Decidable (Adjacent ks) := inferInstanceAs (Decidable (List.IsChain _ _))

theorem joins_iff (hpattern : pattern ≠ []) :
    Joins pool pattern is ↔ ∃ ks, ks <:+: remaining pool pattern is ∧ ¬Adjacent ks ∧
      Fits pool pattern (select is ks) := by
  have collected : Collected pool pattern is is.length _ := collected_sites hpattern is
  constructor
  · rintro ⟨places, hplaces, h⟩
    obtain rfl := hplaces.unique hpattern collected
    exact h
  · intro h
    exact ⟨_, collected, h⟩

theorem select_cons (is : List Instruction) (k : Nat) (ks : List Nat) :
    select is (k :: ks) = is[k]?.toList ++ select is ks := by
  rw [select, List.filterMap_cons]
  cases is[k]? <;> rfl

theorem select_prefix_of_adjacent {ks : List Nat} (h : Adjacent (k :: ks)) :
    select is (k :: ks) <+: is.drop k := by
  induction ks generalizing k with
  | nil =>
    rw [select_cons, List.drop_eq_getElem?_toList_append, List.prefix_append_right_inj]
    exact List.nil_prefix
  | cons k' ks ih =>
    obtain ⟨rfl, hrest⟩ := List.isChain_cons_cons.mp h
    rw [select_cons, List.drop_eq_getElem?_toList_append, List.prefix_append_right_inj]
    exact ih hrest

theorem not_fits_of_adjacent (hpattern : pattern ≠ []) {ks : List Nat}
    (hremaining : ks <:+: remaining pool pattern is) (hadjacent : Adjacent ks) :
    ¬Fits pool pattern (select is ks) := by
  intro hfits
  cases ks with
  | nil => exact hpattern (List.forall₂_nil_right_iff.mp hfits)
  | cons k ks =>
    obtain ⟨hk, hapart⟩ := List.mem_filter.mp (hremaining.subset List.mem_cons_self)
    have hfront := fitsFront_iff.mpr ⟨_, select_prefix_of_adjacent hadjacent, hfits⟩
    obtain ⟨i, hi, hle, hlt⟩ := (collected_sites hpattern is).covered k (List.mem_range.mp hk) hfront
    have := of_decide_eq_true hapart i hi
    omega

theorem clean_select_iff (hpattern : pattern ≠ []) :
    Clean pool pattern (select is (remaining pool pattern is)) ↔ ¬Joins pool pattern is := by
  rw [joins_iff hpattern]
  constructor
  · rintro hclean ⟨ks, hremaining, -, hfits⟩
    exact hclean _ (hremaining.filterMap _) hfits
  · -- A window of what is left has its own run of positions.
    rintro hseams window ⟨before, behind, hwindow⟩ hfits
    obtain ⟨ks, ks', hks, hbefore, -⟩ := List.filterMap_eq_append_iff.mp hwindow.symm
    obtain ⟨ks₀, ks₁, rfl, -, rfl⟩ := List.filterMap_eq_append_iff.mp hbefore
    have hremaining : ks₁ <:+: remaining pool pattern is := ⟨ks₀, ks', hks.symm⟩
    exact hseams ⟨ks₁, hremaining, fun h => not_fits_of_adjacent hpattern hremaining h hfits, hfits⟩

/-! ### Runs -/

variable {outcome : Outcome} {w w' : Workpiece}

theorem run_excise_of_nil (hnone : sites w.pool pattern w.code.instructions = []) :
    (excise pattern).run.run w = (.ok .noMatch, w) := by
  rw [run_excise]
  exact if_pos (.inr hnone)

theorem sight_of_excise (hpattern : pattern ≠ [])
    (hrun : (excise pattern).run.run w = (.ok outcome, w')) :
    w'.pool = w.pool ∧ w'.code.instructions.map (sight pool) =
      (select w.code.instructions (remaining w.pool pattern w.code.instructions)).map
        (sight pool) := by
  have collected : Collected w.pool pattern w.code.instructions _ _ :=
    collected_sites hpattern w.code.instructions
  rw [remaining, ← foldl_cut collected.apart collected.within]
  obtain ⟨hnone, -, rfl⟩ | ⟨-, -, hedit⟩ := run_excise_eq_ok hrun
  · have hnone : sites w'.pool pattern w'.code.instructions = [] := hnone.resolve_left hpattern
    rw [hnone]
    exact ⟨rfl, rfl⟩
  · exact sight_atEach hedit

end Excision

namespace Injection

open Excision

variable {pattern : List InstructionPattern} {i : Injection} {is : List Instruction} {c : Code}
  {pool : Pool} {outcome : Outcome} {w : Workpiece}

theorem apply_eq_noMatch_iff (hedit : i.edit = .excise pattern) (hpattern : pattern ≠ []) :
    i.apply c pool = (.ok .noMatch, ⟨c, pool⟩) ↔ Clean pool pattern c.instructions := by
  rw [apply, hedit, ← sites_eq_nil_iff hpattern]
  constructor
  · intro hrun
    obtain ⟨hnone, -, -⟩ | ⟨-, houtcome, -⟩ := run_excise_eq_ok hrun
    · exact hnone.resolve_left hpattern
    · cases houtcome
  · intro hnone
    exact run_excise_of_nil hnone

/-- After an excision the pattern fits no window, and a second one has nothing to take out, exactly
where no removal brought the parts of an occurrence together. -/
theorem clean_iff_of_apply (hedit : i.edit = .excise pattern) (hpattern : pattern ≠ [])
    (happly : i.apply c pool = (.ok outcome, w)) :
    (Clean w.pool pattern w.code.instructions ↔ ¬Joins pool pattern c.instructions) ∧
      (i.apply w.code w.pool = (.ok .noMatch, w) ↔ ¬Joins pool pattern c.instructions) := by
  rw [apply_eq_noMatch_iff hedit hpattern, and_self]
  rw [apply, hedit] at happly
  obtain ⟨hpool, hseen⟩ := sight_of_excise hpattern happly
  rw [hpool, ← clean_select_iff hpattern]
  exact ⟨fun h => h.congr hseen.symm, fun h => h.congr hseen⟩

/-! ### Bodies that install a security manager -/

def hostPool : Pool :=
  ⟨#[none, some (.ofText "java/lang/System"), some (.classRef 1),
    some (.ofText "setSecurityManager"), some (.ofText "(Ljava/lang/SecurityManager;)V"),
    some (.nameAndType 3 4), some (.member .method 2 5)]⟩

def pushNull : Instruction := .simple Opcode.aconstNull

def install : Instruction := .invokeStatic 6

def pop : Instruction := .simple 0x57

def installation : List InstructionPattern :=
  [⟨Opcode.aconstNull, none⟩,
    ⟨Opcode.invokeStatic,
      some ⟨"java/lang/System", "setSecurityManager", "(Ljava/lang/SecurityManager;)V"⟩⟩]

def installing (is : List Instruction) : Code := .ofInstructions 2 1 (is ++ [.simple 0xB1])

theorem wellFormed_installing (h : ∀ i ∈ is, i = pushNull ∨ i = install ∨ i = pop) :
    (installing is).WellFormed hostPool := by
  have hkind : ∀ i ∈ (installing is).instructions, i.Conforms ∧ i.targets = [] := by
    intro i hi
    obtain hi | hi := List.mem_append.mp hi
    · obtain rfl | rfl | rfl := h i hi
      · exact ⟨⟨_, rfl, trivial⟩, rfl⟩
      · exact ⟨⟨_, rfl, trivial⟩, rfl⟩
      · exact ⟨⟨_, rfl, trivial⟩, rfl⟩
    · obtain rfl := List.mem_singleton.mp hi
      exact ⟨⟨_, rfl, trivial⟩, rfl⟩
  refine ⟨?_, fun i hi => (hkind i hi).1, fun i hi t ht => ?_, List.forall_mem_nil _,
    List.forall_mem_nil _, List.forall_mem_nil _⟩
  · exact List.length_pos_iff.mpr (List.append_ne_nil_of_right_ne_nil _ (List.cons_ne_nil _ _))
  · rw [(hkind i hi).2] at ht
    cases ht

def twice : Code := installing [pushNull, install, pushNull, pushNull, install, pop]

/-- Two installations are taken out, and the null between them is left to the pop. -/
theorem clean_iff_of_apply_twice :
    twice.WellFormed hostPool ∧
      securityManager.apply twice hostPool =
        (.ok (.changed 2), ⟨installing [pushNull, pop], hostPool⟩) ∧
      Clean hostPool installation (installing [pushNull, pop]).instructions ∧
      securityManager.apply (installing [pushNull, pop]) hostPool =
        (.ok .noMatch, ⟨installing [pushNull, pop], hostPool⟩) := by
  have happly : securityManager.apply twice hostPool =
      (.ok (.changed 2), ⟨installing [pushNull, pop], hostPool⟩) :=
    Prod.ext (Fallible.eq_ok_of_toOption (by decide)) (by decide)
  have hedit : securityManager.edit = .excise installation := rfl
  have hseams : ¬Joins hostPool installation twice.instructions := by
    intro h
    obtain ⟨ks, hks, hseam, hfits⟩ := (joins_iff (by decide)).mp h
    have hadjacent : ∀ ks ∈ (remaining hostPool installation twice.instructions).sublists,
        Fits hostPool installation (select twice.instructions ks) → Adjacent ks := by decide
    exact hseam (hadjacent ks (List.mem_sublists.mpr hks.sublist) hfits)
  have hlaw := clean_iff_of_apply hedit (by decide) happly
  exact ⟨wellFormed_installing (by decide), happly, hlaw.1.mpr hseams, hlaw.2.mpr hseams⟩

/-- One installation stands inside another. Taking it out brings the parts of the other together,
and the body installs a security manager as before. -/
theorem installation_left_by_removal :
    (installing [pushNull, pushNull, install, install]).WellFormed hostPool ∧
      securityManager.apply (installing [pushNull, pushNull, install, install]) hostPool =
        (.ok (.changed 1), ⟨installing [pushNull, install], hostPool⟩) ∧
      ¬Clean hostPool installation (installing [pushNull, install]).instructions ∧
      securityManager.apply (installing [pushNull, install]) hostPool =
        (.ok (.changed 1), ⟨installing [], hostPool⟩) := by
  refine ⟨wellFormed_installing (by decide), ?_, ?_, ?_⟩
  · exact Prod.ext (Fallible.eq_ok_of_toOption (by decide)) (by decide)
  · intro hclean
    exact hclean [pushNull, install] (List.prefix_append _ _).isInfix (by decide)
  · exact Prod.ext (Fallible.eq_ok_of_toOption (by decide)) (by decide)

end Injection

end PluginGuard
