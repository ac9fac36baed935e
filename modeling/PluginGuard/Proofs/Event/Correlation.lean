import Mathlib.Data.List.Find
import Mathlib.Data.List.Forall2
import Mathlib.Data.List.Infix
import PluginGuard.Event.Heuristic

/-!
# Grants that follow a cue

Of each kind of cue the heuristic keeps the last time only. With a clock that never goes back
that says as much as the whole history: over any run of events, one report is made of each grant
that follows some earlier cue within the window, and none of anything else.
-/
namespace PluginGuard

structure Occurrence where
  time : Nat
  event : Event

/-- Who made somebody an operator, and whom. The host's own grants name nobody. -/
def Event.grant? : Event → Option (String × Identity)
  | .privilegeGrant target true (some caller) => some (target, caller)
  | _ => none

theorem Event.grant?_eq_some {e : Event} {target : String} {caller : Identity} :
    e.grant? = some (target, caller) ↔ e = .privilegeGrant target true (some caller) := by
  constructor
  · intro h
    cases e with
    | privilegeGrant target granted caller =>
      cases granted with
      | false => cases h
      | true =>
        cases caller with
        | none => cases h
        | some caller =>
          cases h
          rfl
    | _ => cases h
  · rintro rfl
    rfl

namespace ForcePrivilege

/-- The kinds of cue, in the order in which a report looks for them. -/
def cues : List EventKind := [.chatMessage, .commandDispatch, .playerJoin]

section Spec

variable (window : Nat) (past : List Occurrence)

def Cued (now : Nat) (kind : EventKind) : Prop :=
  ∃ o ∈ past, o.event.kind = kind ∧ now ≤ o.time + window

instance (now : Nat) (kind : EventKind) : Decidable (Cued window past now kind) :=
  inferInstanceAs (Decidable (∃ o ∈ past, _))

/-- A plugin's grant that follows a cue of any kind within the window. -/
def Alarming (o : Occurrence) : Prop :=
  o.event.grant?.isSome = true ∧ ∃ kind ∈ cues, Cued window past o.time kind

instance (o : Occurrence) : Decidable (Alarming window past o) :=
  inferInstanceAs (Decidable (_ ∧ ∃ kind ∈ cues, _))

def Tells (o : Occurrence) (r : Report) : Prop :=
  ∃ target caller cue, o.event = .privilegeGrant target true (some caller) ∧
    cues.find? (Cued window past o.time ·) = some cue ∧
    r =
      { severity := .high
        heuristic := name
        plugin := caller.fields.plugin.getD ""
        className := caller.fields.className.getD ""
        method := caller.fields.method.getD ""
        message := message caller target cue }

def due? (o : Occurrence) : Option Report :=
  o.event.grant?.bind fun grant =>
    (cues.find? (Cued window past o.time ·)).map fun cue =>
      Report.about name .high grant.2 (message grant.2 grant.1 cue)

variable {window past} {o : Occurrence} {r : Report}

theorem tells_of_due? (h : due? window past o = some r) : Tells window past o r := by
  obtain ⟨⟨target, caller⟩, hgrant, h⟩ := Option.bind_eq_some_iff.mp h
  obtain ⟨cue, hcue, rfl⟩ := Option.map_eq_some_iff.mp h
  exact ⟨target, caller, cue, Event.grant?_eq_some.mp hgrant, hcue, rfl⟩

theorem isSome_due? : (due? window past o).isSome = true ↔ Alarming window past o := by
  rw [due?, Option.isSome_bind, Alarming]
  cases o.event.grant? with
  | none => simp
  | some g => simp [Option.any, List.find?_isSome]

end Spec

/-! ### What is remembered -/

def Memory.seen (m : Memory) : EventKind → Option Nat
  | .chatMessage => m.chat
  | .commandDispatch => m.command
  | .playerJoin => m.join
  | .privilegeGrant => none

theorem cue?_eq_find? (window now : Nat) (m : Memory) :
    cue? window now m = cues.find? fun kind => recent window now (m.seen kind) := by
  simp only [cue?, cues, List.find?, Memory.seen]
  split_ifs with h₁ h₂ h₃ <;> simp [*]

def lastTime (past : List Occurrence) (kind : EventKind) : Option Nat :=
  (past.reverse.find? (·.event.kind = kind)).map (·.time)

theorem lastTime_append_singleton (past : List Occurrence) (o : Occurrence) (kind : EventKind) :
    lastTime (past ++ [o]) kind =
      if o.event.kind = kind then some o.time else lastTime past kind := by
  rw [lastTime, lastTime, List.reverse_append, List.reverse_singleton, List.singleton_append,
    List.find?_cons]
  by_cases hkind : o.event.kind = kind
  · simp [hkind]
  · simp [hkind]

theorem recent_lastTime {past : List Occurrence} (hclock : past.Pairwise (·.time ≤ ·.time))
    (window now : Nat) (kind : EventKind) :
    recent window now (lastTime past kind) = true ↔ Cued window past now kind := by
  induction past using List.reverseRecOn with
  | nil => simp [lastTime, recent, Cued]
  | append_singleton past o ih =>
    obtain ⟨hpast, -, hlast⟩ := List.pairwise_append.mp hclock
    rw [lastTime_append_singleton]
    split_ifs with hkind
    · rw [recent, decide_eq_true_iff, Nat.sub_le_iff_le_add, Nat.add_comm]
      constructor
      · intro hnow
        exact ⟨o, by simp, hkind, hnow⟩
      · rintro ⟨c, hc, -, hnow⟩
        -- Whichever cue was recent, the last one is no earlier.
        obtain hc | hc := List.mem_append.mp hc
        · exact hnow.trans (Nat.add_le_add_right (hlast c hc o (by simp)) window)
        · exact List.mem_singleton.mp hc ▸ hnow
    · rw [ih hpast]
      constructor
      · rintro ⟨c, hc, h⟩
        exact ⟨c, List.mem_append_left _ hc, h⟩
      · rintro ⟨c, hc, h⟩
        obtain hc | hc := List.mem_append.mp hc
        · exact ⟨c, hc, h⟩
        · exact absurd (List.mem_singleton.mp hc ▸ h.1) hkind

def Memory.Recalls (m : Memory) (past : List Occurrence) : Prop :=
  ∀ kind ∈ cues, m.seen kind = lastTime past kind

theorem recalls_blank : Memory.blank.Recalls [] := by
  simp [Memory.Recalls, cues, Memory.seen, Memory.blank, lastTime]

variable {m : Memory} {past : List Occurrence}

theorem seen_step (window : Nat) (m : Memory) (o : Occurrence) {kind : EventKind}
    (hkind : kind ∈ cues) :
    (step window o.time m o.event).1.seen kind =
      if o.event.kind = kind then some o.time else m.seen kind := by
  obtain ⟨now, e⟩ := o
  fun_cases step window now m e
  · cases kind with
    | _ => rfl
  · cases kind with
    | _ => rfl
  · cases kind with
    | _ => rfl
  · cases kind with
    | privilegeGrant => simp [cues] at hkind
    | _ => rfl
  · cases kind with
    | privilegeGrant => simp [cues] at hkind
    | _ => rfl

theorem recalls_step (h : m.Recalls past) (window : Nat) (o : Occurrence) :
    (step window o.time m o.event).1.Recalls (past ++ [o]) := by
  intro kind hkind
  rw [seen_step window m o hkind, lastTime_append_singleton, h kind hkind]

theorem cue?_of_recalls (h : m.Recalls past) (hclock : past.Pairwise (·.time ≤ ·.time))
    (window now : Nat) :
    cue? window now m = cues.find? (Cued window past now ·) := by
  rw [cue?_eq_find?]
  refine List.find?_congr fun kind hkind => ?_
  rw [h kind hkind, Bool.eq_iff_iff, recent_lastTime hclock, decide_eq_true_iff]

theorem report_step (window now : Nat) (m : Memory) (e : Event) :
    (step window now m e).2 = e.grant?.bind fun grant =>
      (cue? window now m).map fun cue =>
        Report.about name .high grant.2 (message grant.2 grant.1 cue) := by
  cases e with
  | privilegeGrant target granted caller =>
    cases granted with
    | false => rfl
    | true =>
      cases caller with
      | none => rfl
      | some caller => rfl
  | _ => rfl

theorem report_of_recalls (h : m.Recalls past) (hclock : past.Pairwise (·.time ≤ ·.time))
    (window : Nat) (o : Occurrence) :
    (step window o.time m o.event).2 = due? window past o := by
  rw [report_step, cue?_of_recalls h hclock]
  rfl

/-! ### Runs -/

variable (place window : Nat) {w : Watch}

def receive (w : Watch) (o : Occurrence) : Watch :=
  (((listener place window).handle o.event).run { w with now := o.time }).2

def receiveAll (w : Watch) (os : List Occurrence) : Watch := os.foldl (receive place window) w

variable {place}

theorem receive_eq (hplace : w.memories[place]? = some m) (o : Occurrence) :
    let answer := step window o.time m o.event
    receive place window w o =
      ⟨o.time, w.memories.set place answer.1, w.reports ++ answer.2.toList⟩ := by
  obtain rfl : w.memories.getD place .blank = m := by
    rw [List.getD_eq_getElem?_getD, hplace, Option.getD_some]
  intro answer
  let remembered : Watch := ⟨o.time, w.memories.set place answer.1, w.reports⟩
  change answer.2.elim remembered remembered.submit = _
  cases answer.2 with
  | none => rw [Option.toList_none, List.append_nil, Option.elim_none]
  | some r => rfl

def withPast (os : List Occurrence) : List (List Occurrence × Occurrence) := os.inits.zip os

theorem withPast_append_singleton (os : List Occurrence) (o : Occurrence) :
    withPast (os ++ [o]) = withPast os ++ [(os, o)] := by
  induction os with
  | nil => rfl
  | cons a os ih =>
    rw [withPast] at ih
    simp only [withPast, List.cons_append, List.inits_cons, List.zip_cons_cons, List.zip_map_left,
      ih, List.map_append]
    rfl

theorem reports_receiveAll (hblank : w.memories[place]? = some .blank) {os : List Occurrence}
    (hclock : os.Pairwise (·.time ≤ ·.time)) :
    let w' := receiveAll place window w os
    (∃ m, w'.memories[place]? = some m ∧ m.Recalls os) ∧
      w'.reports = w.reports ++ (withPast os).filterMap fun x => due? window x.1 x.2 := by
  -- From the end: the last occurrence is judged by what the run before it has left.
  induction os using List.reverseRecOn with
  | nil => exact ⟨⟨_, hblank, recalls_blank⟩, (List.append_nil _).symm⟩
  | append_singleton os o ih =>
    obtain ⟨hos, -, -⟩ := List.pairwise_append.mp hclock
    obtain ⟨⟨m, hm, hrecalls⟩, hreports⟩ := ih hos
    have hlast : receiveAll place window w (os ++ [o]) =
        receive place window (receiveAll place window w os) o := List.foldl_append ..
    rw [hlast, receive_eq window hm, report_of_recalls hrecalls hos]
    refine ⟨⟨_, ?_, recalls_step hrecalls window o⟩, ?_⟩
    · obtain ⟨hlt, -⟩ := List.getElem?_eq_some_iff.mp hm
      exact List.getElem?_set_self hlt
    · rw [withPast_append_singleton, List.filterMap_append, ← List.append_assoc, ← hreports]
      cases hdue : due? window os o with
      | none => simp [hdue]
      | some r => simp [hdue]

theorem tells_filterMap_due? (xs : List (List Occurrence × Occurrence)) :
    List.Forall₂ (fun x r => Tells window x.1 x.2 r)
      (xs.filter fun x => Alarming window x.1 x.2)
      (xs.filterMap fun x => due? window x.1 x.2) := by
  induction xs with
  | nil => exact .nil
  | cons x xs ih =>
    cases hdue : due? window x.1 x.2 with
    | none =>
      have hquiet : ¬Alarming window x.1 x.2 := by simp [← isSome_due?, hdue]
      simp only [List.filterMap_cons, List.filter_cons, hdue, hquiet, decide_false,
        Bool.false_eq_true, if_false]
      exact ih
    | some r =>
      have halarming : Alarming window x.1 x.2 := by simp [← isSome_due?, hdue]
      simp only [List.filterMap_cons, List.filter_cons, hdue, halarming, decide_true, if_true]
      exact .cons (tells_of_due? hdue) ih

variable {window}

/-- Over any run of events, each grant of a plugin that follows a cue within the window is
reported once, in the order of the grants, and nothing else is reported. -/
theorem reports_of_run (hblank : w.memories[place]? = some .blank) {os : List Occurrence}
    (hclock : os.Pairwise (·.time ≤ ·.time)) :
    ∃ reports, (receiveAll place window w os).reports = w.reports ++ reports ∧
      List.Forall₂ (fun x r => Tells window x.1 x.2 r)
        ((withPast os).filter fun x => Alarming window x.1 x.2) reports :=
  ⟨_, (reports_receiveAll window hblank hclock).2, tells_filterMap_due? window _⟩

def intruder : Identity := .concrete ⟨"/e.jar", "Evil", "e.Main", "run"⟩

/-- A grant on the edge of the window after a command, and one behind it. Neither the host's grant
nor the plugin's revocation is reported. -/
def edgeRun : List Occurrence :=
  [⟨0, .playerJoin "m"⟩, ⟨5, .commandDispatch "m" "op" none⟩, ⟨5, .privilegeGrant "m" true none⟩,
    ⟨6, .privilegeGrant "m" false (some intruder)⟩,
    ⟨1005, .privilegeGrant "m" true (some intruder)⟩,
    ⟨1006, .privilegeGrant "m" true (some intruder)⟩, ⟨1007, .chatMessage "m" "!op"⟩,
    ⟨1007, .privilegeGrant "n" true (some intruder)⟩]

theorem reports_of_run_edge :
    ∃ a b, (receiveAll 0 1000 (.start 1) edgeRun).reports = [a, b] ∧
      (a.plugin, a.className, a.method) = ("Evil", "e.Main", "run") ∧
      a.message = message intruder "m" .commandDispatch ∧
      b.message = message intruder "n" .chatMessage := by
  have hblank : (Watch.start 1).memories[0]? = some .blank := rfl
  have hclock : edgeRun.Pairwise (·.time ≤ ·.time) := by decide
  obtain ⟨reports, hreports, htells⟩ := reports_of_run hblank hclock
  have hgrants : (withPast edgeRun).filter (fun x => Alarming 1000 x.1 x.2) =
      [(edgeRun.take 4, ⟨1005, .privilegeGrant "m" true (some intruder)⟩),
        (edgeRun.take 7, ⟨1007, .privilegeGrant "n" true (some intruder)⟩)] := rfl
  rw [hgrants] at htells
  obtain _ | ⟨ha, _ | ⟨hb, _ | _⟩⟩ := htells
  obtain ⟨target, caller, cue, hgrant, hcue, rfl⟩ := ha
  obtain ⟨target', caller', cue', hgrant', hcue', rfl⟩ := hb
  cases hgrant
  cases hgrant'
  cases hcue
  cases hcue'
  exact ⟨_, _, hreports, rfl, rfl, rfl⟩

end ForcePrivilege

end PluginGuard
