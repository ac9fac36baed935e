import Mathlib.Data.List.Forall2
import PluginGuard.Event.Bus

/-!
# Deliveries

Subscriptions are sorted by kind when the bus is built, and that keeps how often and in which order
each listener subscribed. So an event goes to every listener once for each time that it asked for
the kind, in the order of registration, whatever comes of the calls before.
-/
namespace PluginGuard

/-- A call of a listener, with its place among the registered ones and what came of it. -/
structure Delivery where
  place : Nat
  event : Event
  handling : Handling
  deriving DecidableEq, Repr

/-- The same listener, whose calls are written down behind all calls before. -/
def Listener.recorded {ω : Type} (l : Listener ω) (place : Nat) :
    Listener (ω × List Delivery) where
  name := l.name
  subscriptions := l.subscriptions
  handle e := fun w =>
    let (r, world) := (l.handle e).run w.1
    (r, world, w.2 ++ [⟨place, e, r⟩])

theorem Listener.run_recorded {ω : Type} (l : Listener ω) (place : Nat) (e : Event) (w : ω)
    (log : List Delivery) :
    ((l.recorded place).handle e).run (w, log) =
      let (r, w₁) := (l.handle e).run w
      (r, w₁, log ++ [⟨place, e, r⟩]) := rfl

namespace EventBus

variable {ω : Type}

/-! ### Who is subscribed -/

section

variable (l : Listener ω) (kind : EventKind)

theorem subscribers_subscribeIn (asked : EventKind) (ts : List (Topic ω)) :
    subscribers ⟨subscribeIn l asked ts⟩ kind =
      subscribers ⟨ts⟩ kind ++ if asked = kind then [l] else [] := by
  induction ts with
  | nil => by_cases hkind : asked = kind <;> simp [subscribers, subscribeIn, hkind]
  | cons t ts ih =>
    rw [subscribeIn]
    by_cases hasked : t.kind = asked
    · subst hasked
      by_cases hkind : t.kind = kind <;> simp [subscribers, hkind]
    · by_cases hkind : t.kind = kind
      · subst hkind
        simp [subscribers, hasked, Ne.symm hasked]
      · simpa [subscribers, hasked, hkind] using ih

theorem subscribers_register (bus : EventBus ω) :
    (bus.register l).subscribers kind =
      bus.subscribers kind ++ List.replicate (l.subscriptions.count kind) l := by
  obtain ⟨ts⟩ := bus
  rw [register]
  generalize l.subscriptions = asked
  induction asked generalizing ts with
  | nil => simp
  | cons a asked ih =>
    rw [List.foldl_cons, ih, subscribers_subscribeIn, List.append_assoc, List.count_cons]
    by_cases hkind : a = kind
    · simp [hkind, List.replicate_succ]
    · simp [hkind]

end

/-- Who is due to be called, with their places: once for each time that they asked for the kind. -/
def due (ls : List (Listener ω)) (kind : EventKind) : List (Listener ω × Nat) :=
  ls.zipIdx.flatMap fun p => List.replicate (p.1.subscriptions.count kind) p

theorem subscribers_ofListeners (ls : List (Listener ω)) (kind : EventKind) :
    (ofListeners ls).subscribers kind =
      ls.flatMap fun l => List.replicate (l.subscriptions.count kind) l := by
  have hfold (bus : EventBus ω) : (ls.foldl register bus).subscribers kind =
      bus.subscribers kind ++ ls.flatMap fun l => List.replicate (l.subscriptions.count kind) l := by
    induction ls generalizing bus with
    | nil => simp
    | cons l ls ih =>
      rw [List.foldl_cons, ih, subscribers_register, List.flatMap_cons, List.append_assoc]
  exact hfold ⟨[]⟩

theorem map_fst_due (ls : List (Listener ω)) (kind : EventKind) :
    (due ls kind).map (·.1) = (ofListeners ls).subscribers kind := by
  rw [subscribers_ofListeners, due, List.map_flatMap]
  conv_rhs => rw [← List.zipIdx_map_fst 0 ls, List.flatMap_map]
  simp

def recorded (ls : List (Listener ω)) : List (Listener (ω × List Delivery)) :=
  ls.zipIdx.map fun p => p.1.recorded p.2

theorem subscribers_recorded (ls : List (Listener ω)) (kind : EventKind) :
    (ofListeners (recorded ls)).subscribers kind =
      (due ls kind).map fun p => p.1.recorded p.2 := by
  rw [subscribers_ofListeners, recorded, List.flatMap_map, due, List.map_flatMap]
  simp [Listener.recorded]

/-! ### What is called -/

def succeeded (calls : List Delivery) : Nat := calls.countP (·.handling = .done)

theorem run_deliver_cons (e : Event) (l : Listener ω) (ls : List (Listener ω)) (w : ω) :
    (deliver e (l :: ls)).run w =
      let (r, w₁) := (l.handle e).run w
      let (n, w₂) := (deliver e ls).run w₁
      (if r = .done then n + 1 else n, w₂) := rfl

theorem run_deliver (e : Event) (ps : List (Listener ω × Nat)) (w : ω) (log : List Delivery) :
    ∃ calls w', (deliver e (ps.map fun p => p.1.recorded p.2)).run (w, log) =
        (succeeded calls, w', log ++ calls) ∧
      (deliver e (ps.map (·.1))).run w = (succeeded calls, w') ∧
      calls.map (fun c => (c.place, c.event)) = ps.map fun p => (p.2, e) := by
  induction ps generalizing w log with
  | nil => exact ⟨[], w, by simp [deliver, succeeded]; rfl, rfl, rfl⟩
  | cons p ps ih =>
    rcases hfirst : (p.1.handle e).run w with ⟨r, w₁⟩
    obtain ⟨calls, w', hrecorded, hbare, hplaces⟩ := ih w₁ (log ++ [⟨p.2, e, r⟩])
    refine ⟨⟨p.2, e, r⟩ :: calls, w', ?_, ?_, by rw [List.map_cons, hplaces, List.map_cons]⟩
    · simp only [List.map_cons, run_deliver_cons, Listener.run_recorded, hfirst, hrecorded]
      by_cases hr : r = .done <;> simp [succeeded, hr]
    · simp only [List.map_cons, run_deliver_cons, hfirst, hbare]
      by_cases hr : r = .done <;> simp [succeeded, hr]

theorem run_mapM_publish_cons (bus : EventBus ω) (e : Event) (es : List Event) (w : ω) :
    ((e :: es).mapM bus.publish).run w =
      let (n, w₁) := (deliver e (bus.subscribers e.kind)).run w
      let (ns, w₂) := (es.mapM bus.publish).run w₁
      (n :: ns, w₂) := by
  rw [List.mapM_cons]
  rfl

/-- For any listeners, whatever each of them does to the world and whatever comes of each of its
calls, and for any events one after another: one event calls the listeners that asked for its kind,
in the order of registration and as often as they asked, and counts the calls that came out well.
Writing the calls down changes none of this. -/
theorem calls_of_publish (ls : List (Listener ω)) (es : List Event) (w : ω)
    (log : List Delivery) :
    ∃ (calls : List (List Delivery)) (w' : ω),
      (es.mapM (ofListeners (recorded ls)).publish).run (w, log) =
        (calls.map succeeded, w', log ++ calls.flatten) ∧
      (es.mapM (ofListeners ls).publish).run w = (calls.map succeeded, w') ∧
      List.Forall₂ (fun e made => made.map (fun c => (c.place, c.event)) =
        (due ls e.kind).map fun p => (p.2, e)) es calls := by
  induction es generalizing w log with
  | nil => exact ⟨[], w, by simp; rfl, rfl, .nil⟩
  | cons e es ih =>
    obtain ⟨made, w₁, hrecorded, hbare, hplaces⟩ := run_deliver e (due ls e.kind) w log
    obtain ⟨calls, w', hothers, hbares, hall⟩ := ih w₁ (log ++ made)
    rw [← subscribers_recorded] at hrecorded
    rw [map_fst_due] at hbare
    refine ⟨made :: calls, w', ?_, ?_, .cons hplaces hall⟩
    · simp only [run_mapM_publish_cons, hrecorded, hothers, List.map_cons, List.flatten_cons,
        List.append_assoc]
    · simp only [run_mapM_publish_cons, hbare, hbares, List.map_cons]

end EventBus

end PluginGuard
