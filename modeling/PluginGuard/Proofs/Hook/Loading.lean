import Mathlib.Data.List.Basic
import Mathlib.Logic.Function.Basic
import PluginGuard.Hook.Loaded

/-!
# Loaders side by side

Any number of loaders use the table of defined classes at once. Looking up and inserting each
hold the lock of the table, instrumenting does not, so between the two others may insert the same
class. Whatever the order of their steps, a class keeps the first definition that it got, one
insertion stored it, and whoever is handed a definition of the class is handed that one.
-/
namespace PluginGuard

namespace LoadedClasses

inductive Request
  | get (name : String)
  | insert (c : LoadedClass)
  | define (transformer : Nat) (name : String) (input : List UInt8)

namespace Request

def name : Request → String
  | get name => name
  | insert c => c.name
  | define _ name _ => name

def key : Request → String
  | insert c => c.name
  | r => internalName r.name

end Request

inductive Progress
  | ready
  /-- No definition was found, and none is made yet. -/
  | missing
  /-- The class is instrumented and not yet inserted. -/
  | made (c : LoadedClass)
  | looked (found : Option LoadedClass)
  | known (c : LoadedClass)
  | refused (e : InstrumentError)
  | settled (c : LoadedClass) (stored : Bool)

namespace Progress

def definition? : Progress → Option LoadedClass
  | looked found => found
  | known c => some c
  | settled c _ => some c
  | _ => none

def answer? : Progress → Option (Except InstrumentError LoadedClass)
  | known c => some (.ok c)
  | refused e => some (.error e)
  | settled c _ => some (.ok c)
  | _ => none

def isStored : Progress → Bool
  | settled _ stored => stored
  | _ => false

end Progress

structure Shared where
  table : LoadedClasses
  transformers : Nat → Transformer

def Shared.insert (s : Shared) (c : LoadedClass) : Progress × Shared :=
  let (d, stored, table) := s.table.insertIfAbsent c
  (.settled d stored, { s with table })

/-- One step of a request, during which no other loader takes one. -/
def Request.step : Request → Progress → Shared → Progress × Shared
  | .get name, .ready, s => (.looked (s.table.get? name), s)
  | .insert c, .ready, s => s.insert c
  | .define _ name _, .ready, s =>
    match s.table.get? name with
    | some c => (.known c, s)
    | none => (.missing, s)
  | .define t name input, .missing, s =>
    let (r, marked) := (s.transformers t).instrument name input
    let s := { s with transformers := Function.update s.transformers t marked }
    match r with
    | .error e => (.refused e, s)
    | .ok r => (.made (definition name input r), s)
  | .define .., .made c, s => s.insert c
  | _, p, s => (p, s)

theorem define_eq_steps (t : Nat) (name : String) (input : List UInt8) (s : Shared) :
    let request := Request.define t name input
    let looked := request.step .ready s
    let instrumented := request.step looked.1 looked.2
    let defined := request.step instrumented.1 instrumented.2
    defined.1.answer? = some (s.table.define (s.transformers t) name input).1 ∧
      (defined.2.transformers t, defined.2.table) =
        (s.table.define (s.transformers t) name input).2 := by
  intro request looked instrumented defined
  cases hget : s.table.get? name with
  | some c =>
    have hlooked : looked = (.known c, s) := by simp only [looked, request, Request.step, hget]
    have hdefined : defined = (.known c, s) := by
      simp only [defined, instrumented, hlooked]
      rfl
    rw [hdefined, define, hget]
    exact ⟨rfl, rfl⟩
  | none =>
    have hlooked : looked = (.missing, s) := by simp only [looked, request, Request.step, hget]
    rw [define, hget]
    simp only [defined, instrumented, hlooked, request]
    rw [Request.step]
    generalize (s.transformers t).instrument name input = answered
    obtain ⟨e | r, marked⟩ := answered
    · exact ⟨rfl, congrArg (·, s.table) (Function.update_self ..)⟩
    · exact ⟨rfl, congrArg (·, _) (Function.update_self ..)⟩

structure Loader where
  request : Request
  progress : Progress

def Loader.step (l : Loader) (s : Shared) : Loader × Shared :=
  let (progress, s) := l.request.step l.progress s
  ({ l with progress }, s)

structure Session where
  shared : Shared
  loaders : List Loader

namespace Session

def step (w : Session) (i : Nat) : Session :=
  match w.loaders[i]? with
  | none => w
  | some l => ⟨(l.step w.shared).2, w.loaders.set i (l.step w.shared).1⟩

def run (w : Session) (schedule : List Nat) : Session := schedule.foldl step w

def start (shared : Shared) (requests : List Request) : Session :=
  ⟨shared, requests.map (⟨·, .ready⟩)⟩

end Session

/-! ### One step -/

variable {table table' : LoadedClasses} {k : String} {c d : LoadedClass} {p p' : Progress}
  {s s' : Shared} {r : Request}

theorem find?_append_singleton (h : table.find? c.name = none) (k : String) :
    find? ⟨table.classes ++ [c]⟩ k = if c.name = k then some c else table.find? k := by
  have happend : find? ⟨table.classes ++ [c]⟩ k =
      (table.find? k).or (if c.name == k then some c else none) := by
    simp [find?, List.find?_append, List.find?_singleton]
  rw [happend]
  by_cases hname : c.name = k
  · subst hname
    simp [h]
  · simp [hname]

structure Progress.Sound (key : String) (table : LoadedClasses) (p : Progress) : Prop where
  made : ∀ c, p = .made c → c.name = key
  handed : ∀ c, p.definition? = some c → table.find? key = some c

/-- What a step can do: it leaves the table, or it inserts a definition where there is none. -/
inductive Effect (key : String) (p : Progress) (s : Shared) : Progress × Shared → Prop
  | quiet {p' : Progress} {s' : Shared} (table : s'.table = s.table)
      (stored : p'.isStored = p.isStored) (sound : p'.Sound key s.table) :
      Effect key p s (p', s')
  | stores {c : LoadedClass} (name : c.name = key) (absent : s.table.find? key = none)
      (fresh : p.isStored = false) :
      Effect key p s (.settled c true, { s with table := ⟨s.table.classes ++ [c]⟩ })

theorem effect_insert (hname : c.name = k) (hfresh : p.isStored = false) (s : Shared) :
    Effect k p s (s.insert c) := by
  subst hname
  rw [Shared.insert]
  cases hfind : s.table.find? c.name with
  | none =>
    rw [insertIfAbsent, hfind]
    exact .stores rfl hfind hfresh
  | some d =>
    rw [insertIfAbsent, hfind]
    refine .quiet rfl hfresh.symm ⟨nofun, ?_⟩
    rintro _ ⟨⟩
    exact hfind

theorem effect_step (h : p.Sound r.key s.table) : Effect r.key p s (r.step p s) := by
  have idle (hstep : r.step p s = (p, s)) : Effect r.key p s (r.step p s) :=
    hstep ▸ .quiet rfl rfl h
  cases r with
  | get name =>
    cases p with
    | ready => exact .quiet rfl rfl ⟨nofun, fun _ hfound => hfound⟩
    | _ => exact idle rfl
  | insert c =>
    cases p with
    | ready => exact effect_insert rfl rfl s
    | _ => exact idle rfl
  | define t name input =>
    cases p with
    | ready =>
      cases hget : s.table.get? name with
      | some c =>
        have hstep : (Request.define t name input).step .ready s = (.known c, s) := by
          simp only [Request.step, hget]
        rw [hstep]
        refine .quiet rfl rfl ⟨nofun, ?_⟩
        rintro _ ⟨⟩
        exact hget
      | none =>
        have hstep : (Request.define t name input).step .ready s = (.missing, s) := by
          simp only [Request.step, hget]
        rw [hstep]
        exact .quiet rfl rfl ⟨nofun, nofun⟩
    | missing =>
      rw [Request.step]
      generalize (s.transformers t).instrument name input = answered
      obtain ⟨e | out, marked⟩ := answered
      · exact .quiet rfl rfl ⟨nofun, nofun⟩
      · refine .quiet rfl rfl ⟨?_, nofun⟩
        rintro _ ⟨⟩
        rfl
    | made c => exact effect_insert (h.made c rfl) rfl s
    | _ => exact idle rfl

theorem Effect.kept {x : Progress × Shared} (h : Effect k p s x) {k' : String}
    (hfind : s.table.find? k' = some d) : x.2.table.find? k' = some d := by
  cases h with
  | quiet htable => exact htable ▸ hfind
  | stores name absent =>
    subst name
    rw [find?_append_singleton absent]
    split_ifs with hk
    · cases absent.symm.trans (hk ▸ hfind)
    · exact hfind

theorem Effect.sound {x : Progress × Shared} (h : Effect k p s x) : x.1.Sound k x.2.table := by
  cases h with
  | quiet htable _ sound => exact htable.symm ▸ sound
  | stores name absent =>
    subst name
    refine ⟨nofun, ?_⟩
    rintro _ ⟨⟩
    rw [find?_append_singleton absent, if_pos rfl]

theorem Effect.stored_cases {x : Progress × Shared} (h : Effect k p s x) (k' : String) :
    x.2.table.find? k' = s.table.find? k' ∧
        (x.1.isStored && k == k') = (p.isStored && k == k') ∨
      s.table.find? k' = none ∧ x.2.table.find? k' ≠ none ∧
        (p.isStored && k == k') = false ∧ (x.1.isStored && k == k') = true := by
  cases h with
  | quiet htable hstored => exact .inl ⟨by rw [htable], by rw [hstored]⟩
  | @stores c name absent fresh =>
    subst name
    rw [find?_append_singleton absent]
    by_cases hk : c.name = k'
    · subst hk
      exact .inr ⟨absent, by simp, by rw [fresh, Bool.false_and], beq_self_eq_true c.name⟩
    · have hother : (c.name == k') = false := beq_eq_false_iff_ne.mpr hk
      exact .inl ⟨if_neg hk, by rw [hother, Bool.and_false, Bool.and_false]⟩

theorem Progress.Sound.mono (h : p.Sound k table)
    (hkept : ∀ d, table.find? k = some d → table'.find? k = some d) : p.Sound k table' :=
  ⟨h.made, fun c hc => hkept c (h.handed c hc)⟩

/-! ### Sessions -/

def Loader.stores (key : String) (l : Loader) : Bool :=
  l.progress.isStored && l.request.key == key

namespace Session

variable {w : Session} {l : Loader} {i : Nat} {first : LoadedClasses}

theorem step_cases (w : Session) (i : Nat) :
    w.step i = w ∨ ∃ before l behind, w.loaders = before ++ l :: behind ∧ before.length = i ∧
      w.step i = ⟨(l.step w.shared).2, before ++ (l.step w.shared).1 :: behind⟩ := by
  cases hl : w.loaders[i]? with
  | none =>
    left
    rw [step, hl]
  | some l =>
    obtain ⟨hi, rfl⟩ := List.getElem?_eq_some_iff.mp hl
    obtain ⟨before, behind, hloaders, hlength, hset⟩ := List.exists_of_set hi
    refine .inr ⟨before, _, behind, hloaders, hlength, ?_⟩
    rw [step, hl]
    exact congrArg (Session.mk _) hset

/-- What every order of steps keeps: loaders know what the table holds, what it held first is
there still, and of each name that is new one insertion reports that it stored. -/
structure Sound (first : LoadedClasses) (w : Session) : Prop where
  progress : ∀ l ∈ w.loaders, l.progress.Sound l.request.key w.shared.table
  kept : ∀ k c, first.find? k = some c → w.shared.table.find? k = some c
  stored : ∀ k, w.loaders.countP (·.stores k) =
    if first.find? k = none ∧ w.shared.table.find? k ≠ none then 1 else 0

theorem kept_step (h : w.Sound first) (i : Nat) {k : String} {c : LoadedClass}
    (hfind : w.shared.table.find? k = some c) : (w.step i).shared.table.find? k = some c := by
  obtain hidle | ⟨before, l, behind, hloaders, -, hstep⟩ := w.step_cases i
  · rwa [hidle]
  · rw [hstep]
    exact (effect_step (h.progress l (by simp [hloaders]))).kept hfind

theorem sound_step (h : w.Sound first) (i : Nat) : (w.step i).Sound first := by
  obtain hidle | ⟨before, l, behind, hloaders, -, hstep⟩ := w.step_cases i
  · rwa [hidle]
  · have heffect := effect_step (h.progress l (by simp [hloaders]))
    have hothers : ∀ l' ∈ before ++ behind,
        l'.progress.Sound l'.request.key (l.step w.shared).2.table := by
      intro l' hl'
      have hmem : l' ∈ w.loaders := by
        rw [hloaders]
        exact (List.perm_middle.mem_iff).mpr (List.mem_cons_of_mem l hl')
      exact (h.progress l' hmem).mono fun _ => heffect.kept
    refine ⟨?_, fun k c hc => kept_step h i (h.kept k c hc), fun k => ?_⟩
    · rw [hstep]
      intro l' hl'
      obtain rfl | hl' := List.mem_cons.mp ((List.perm_middle.mem_iff).mp hl')
      · exact heffect.sound
      · exact hothers l' hl'
    · -- Only the loader that steps can change the count, and then the name had no definition.
      have hstored := h.stored k
      rw [hloaders, List.countP_append, List.countP_cons] at hstored
      rw [hstep, List.countP_append, List.countP_cons]
      obtain ⟨hfind, hsame⟩ | ⟨habsent, hfound, hfresh, hnew⟩ := heffect.stored_cases k
      · have hstores : (l.step w.shared).1.stores k = l.stores k := hsame
        have hfind : (l.step w.shared).2.table.find? k = w.shared.table.find? k := hfind
        rw [hstores, hfind, hstored]
      · have hfirst : first.find? k = none := by
          cases hfirst : first.find? k with
          | none => rfl
          | some c => cases habsent.symm.trans (h.kept k c hfirst)
        have hfresh : l.stores k = false := hfresh
        have hnew : (l.step w.shared).1.stores k = true := hnew
        rw [if_pos hnew, if_pos ⟨hfirst, hfound⟩]
        rw [if_neg (by simp [hfresh]), if_neg (by simp [habsent])] at hstored
        omega

theorem sound_run (h : w.Sound first) (schedule : List Nat) : (w.run schedule).Sound first := by
  induction schedule generalizing w with
  | nil => exact h
  | cons i schedule ih => exact ih (sound_step h i)

theorem kept_run (h : w.Sound first) (schedule : List Nat) {k : String} {c : LoadedClass}
    (hfind : w.shared.table.find? k = some c) :
    (w.run schedule).shared.table.find? k = some c := by
  induction schedule generalizing w with
  | nil => exact hfind
  | cons i schedule ih => exact ih (sound_step h i) (kept_step h i hfind)

theorem sound_start (shared : Shared) (requests : List Request) :
    (start shared requests).Sound shared.table := by
  refine ⟨?_, fun _ _ hc => hc, fun k => ?_⟩
  · intro l hl
    obtain ⟨r, -, rfl⟩ := List.mem_map.mp hl
    exact ⟨nofun, nofun⟩
  · have hnone : ¬(shared.table.find? k = none ∧ shared.table.find? k ≠ none) := by
      rintro ⟨h, h'⟩
      exact h' h
    change _ = if shared.table.find? k = none ∧ shared.table.find? k ≠ none then 1 else 0
    rw [if_neg hnone, start, List.countP_eq_zero]
    simp [Loader.stores, Progress.isStored]

theorem requests_start (shared : Shared) (requests : List Request) :
    (start shared requests).loaders.map (·.request) = requests := by
  rw [start, List.map_map]
  exact List.map_id requests

theorem requests_step (w : Session) (i : Nat) :
    (w.step i).loaders.map (·.request) = w.loaders.map (·.request) := by
  obtain hidle | ⟨before, l, behind, hloaders, -, hstep⟩ := w.step_cases i
  · rw [hidle]
  · rw [hstep, hloaders, List.map_append, List.map_append, List.map_cons, List.map_cons]
    rfl

theorem requests_run (w : Session) (schedule : List Nat) :
    (w.run schedule).loaders.map (·.request) = w.loaders.map (·.request) := by
  induction schedule generalizing w with
  | nil => rfl
  | cons i schedule ih => exact (ih (w.step i)).trans (requests_step w i)

theorem settled_step {c : LoadedClass} {stored : Bool} (hl : w.loaders[i]? = some l)
    (hsettled : l.progress = .settled c stored) (j : Nat) : (w.step j).loaders[i]? = some l := by
  obtain ⟨request, progress⟩ := l
  obtain rfl : progress = .settled c stored := hsettled
  rw [step]
  cases hj : w.loaders[j]? with
  | none => exact hl
  | some l' =>
    by_cases hij : j = i
    · subst hij
      cases hl.symm.trans hj
      obtain ⟨hlt, -⟩ := List.getElem?_eq_some_iff.mp hl
      have hdone : (Loader.step ⟨request, .settled c stored⟩ w.shared).1 =
          ⟨request, .settled c stored⟩ := by
        cases request with
        | _ => rfl
      change (w.loaders.set j _)[j]? = _
      rw [hdone, List.getElem?_set_self hlt]
    · exact (List.getElem?_set_ne hij).trans hl

theorem settled_run {c : LoadedClass} {stored : Bool} (hl : w.loaders[i]? = some l)
    (hsettled : l.progress = .settled c stored) (schedule : List Nat) :
    (w.run schedule).loaders[i]? = some l := by
  induction schedule generalizing w with
  | nil => exact hl
  | cons j schedule ih => exact ih (settled_step hl hsettled j)

theorem table_step (h : w.Sound first) (i : Nat) :
    (w.step i).shared.table = w.shared.table ∨
      ∃ l c, (w.step i).loaders[i]? = some l ∧ l.progress = .settled c true := by
  obtain hidle | ⟨before, l, behind, hloaders, hlength, hstep⟩ := w.step_cases i
  · exact .inl (by rw [hidle])
  · have heffect := effect_step (h.progress l (by simp [hloaders]))
    rw [hstep, Loader.step]
    generalize l.request.step l.progress w.shared = x at heffect
    cases heffect with
    | quiet htable => exact .inl htable
    | @stores c => exact .inr ⟨⟨l.request, .settled c true⟩, c, by simp [← hlength], rfl⟩

/-- Whatever the order of their steps, loaders of one class are handed one definition of it, that
of the only insertion that stored, and it stays. Instrumenting that fails stores nothing. -/
theorem agrees_of_run (shared : Shared) {requests : List Request}
    (hinternal : ∀ c, .insert c ∈ requests → internalName c.name = c.name)
    (earlier later : List Nat) :
    let w := (start shared requests).run earlier
    let w' := w.run later
    (∀ name c, w.shared.table.get? name = some c → w'.shared.table.get? name = some c) ∧
    (∀ l ∈ w'.loaders, ∀ c, l.progress.definition? = some c →
      ∀ name, internalName name = internalName l.request.name →
        w'.shared.table.get? name = some c) ∧
    (∀ name, w'.loaders.countP (fun l =>
        l.progress.isStored && internalName l.request.name == internalName name) =
      if shared.table.get? name = none ∧ w'.shared.table.get? name ≠ none then 1 else 0) ∧
    (∀ i l e, ((w.step i).run later).loaders[i]? = some l → l.progress = .refused e →
      (w.step i).shared.table = w.shared.table) := by
  intro w w'
  have hw : w.Sound shared.table := sound_run (sound_start shared requests) earlier
  have hw' : w'.Sound shared.table := sound_run hw later
  have hkey : ∀ l ∈ w'.loaders, l.request.key = internalName l.request.name := by
    intro l hl
    have hrequests : w'.loaders.map (·.request) = requests := by
      rw [requests_run, requests_run, requests_start]
    cases hrequest : l.request with
    | insert c =>
      have hmem : .insert c ∈ requests := by
        rw [← hrequests, ← hrequest]
        exact List.mem_map_of_mem hl
      exact (hinternal c hmem).symm
    | _ => rfl
  refine ⟨?_, ?_, ?_, ?_⟩
  · intro name c hc
    exact kept_run hw later hc
  · intro l hl c hc name hname
    rw [get?, hname, ← hkey l hl]
    exact (hw'.progress l hl).handed c hc
  · intro name
    refine Eq.trans (List.countP_congr fun l hl => ?_) (hw'.stored (internalName name))
    rw [Loader.stores, hkey l hl]
  · -- Whoever changes the table is done with it and is refused nothing later.
    intro i l e hl hrefused
    obtain htable | ⟨l', c, hl', hsettled⟩ := table_step hw i
    · exact htable
    · cases hl.symm.trans (settled_run hl' hsettled later)
      cases hrefused.symm.trans hsettled

def contenders : List Request :=
  [.define 0 "a.B" [1], .define 0 "a/B" [2], .insert ⟨"a/B", [3], false⟩, .define 1 "c.D" [],
    .get "a.B"]

def unused : Shared where
  table := empty
  transformers t :=
    if t = 0 then .ofList []
    else .ofList [.call "i" (.of "c.D" "run" "()V") (.runtime "h") .begin]

/-- Two loaders both find nothing and both instrument. The second inserts first. -/
theorem agrees_of_run_contenders :
    let w := (start unused contenders).run [0, 1, 0, 1, 3]
    let w' := w.run [3, 1, 0, 2, 4]
    let c : LoadedClass := ⟨"a/B", [2], false⟩
    (w'.loaders.map (·.progress.definition?)) = [some c, some c, some c, none, some c] ∧
      w'.shared.table.get? "a.B" = some c ∧
      w'.loaders.countP (fun l =>
        l.progress.isStored && internalName l.request.name == internalName "a/B") = 1 ∧
      (w.step 3).shared.table = w.shared.table := by
  intro w w' c
  have hinternal (c : LoadedClass) (hc : .insert c ∈ contenders) :
      internalName c.name = c.name := by
    obtain rfl : c = ⟨"a/B", [3], false⟩ := by simpa [contenders] using hc
    rfl
  obtain ⟨-, hhanded, hstored, hrefused⟩ :=
    agrees_of_run unused hinternal [0, 1, 0, 1, 3] [3, 1, 0, 2, 4]
  have hfound : w'.shared.table.get? "a.B" = some c :=
    hhanded ⟨.define 0 "a.B" [1], .settled c false⟩ (.head _) c rfl "a.B" rfl
  have hstays : w'.shared.table.get? "a/B" ≠ none := Option.ne_none_iff_exists'.mpr ⟨c, hfound⟩
  exact ⟨rfl, hfound, (hstored "a/B").trans (if_pos ⟨rfl, hstays⟩), hrefused 3 _ _ rfl rfl⟩

end Session

end LoadedClasses

end PluginGuard
