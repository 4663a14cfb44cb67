import Mathlib

/-!
# The event queue of a simulation

A discrete-event simulation has a clock and a set of events that were scheduled and have not been
executed yet.  It executes them in the order of their times, and events of the same time in the
order in which they were scheduled; the clock stands at the time of the event being executed.

An `EventQueue` holds the pending events of one component of the simulation.  The component learns
of the rest of the simulation through events of others, which happen at times that `Reaches` allows:
not before the present, and not after a pending event that is to be executed first.
-/

/-- The handle of a scheduled event: the time it is due, and its number in the order of scheduling.
-/
structure EventId where
  /-- The time the event is due. -/
  time : ℕ
  /-- The number of the event. -/
  uid : ℕ
deriving DecidableEq, Repr

/-- A component of a simulation is started once and stopped once. -/
inductive Phase where
  /-- The component is not started yet. -/
  | created
  /-- The component is started and not stopped yet. -/
  | running
  /-- The component is stopped. -/
  | stopped
deriving DecidableEq, Repr

/-- The clock of a simulation and the pending events of one of its components. -/
structure EventQueue where
  /-- The current time. -/
  now : ℕ
  /-- The number that the next event gets. -/
  nextUid : ℕ
  /-- The events that are scheduled and not executed yet. -/
  pending : List EventId
deriving DecidableEq, Repr

namespace EventQueue

/-- At time zero nothing is scheduled. -/
def empty : EventQueue where
  now := 0
  nextUid := 0
  pending := []

variable (q : EventQueue)

/-- The handle of the event that is scheduled next, with a delay. -/
def nextId (delay : ℕ) : EventId := ⟨q.now + delay, q.nextUid⟩

/-- An event is scheduled with a delay. -/
def schedule (delay : ℕ) : EventQueue :=
  { q with nextUid := q.nextUid + 1, pending := q.pending ++ [q.nextId delay] }

/-- The clock reaches a time at which another component is active. -/
def advance (t : ℕ) : EventQueue := { q with now := t }

/-- A pending event is executed: the clock reaches its time, and it is not pending any longer. -/
def expire (ev : EventId) : EventQueue :=
  { q with now := ev.time, pending := q.pending.erase ev }

/-- A handle is expired when it stands for no pending event. -/
def IsExpired (ev : Option EventId) : Prop := ∀ e ∈ ev, e ∉ q.pending

instance (ev : Option EventId) : Decidable (q.IsExpired ev) := by
  unfold IsExpired
  infer_instance

/-- Another component may be active at a time. -/
def Reaches (t : ℕ) : Prop := q.now ≤ t ∧ ∀ ev ∈ q.pending, t ≤ ev.time

instance (t : ℕ) : Decidable (q.Reaches t) := by
  unfold Reaches
  infer_instance

/-- An event is the next one of the component to be executed. -/
def IsNext (ev : EventId) : Prop :=
  ev ∈ q.pending ∧ ∀ e ∈ q.pending, ev.time < e.time ∨ ev.time = e.time ∧ ev.uid ≤ e.uid

instance (ev : EventId) : Decidable (q.IsNext ev) := by
  unfold IsNext
  infer_instance

@[simp] lemma pending_advance (t : ℕ) : (q.advance t).pending = q.pending := rfl

@[simp] lemma pending_expire (ev : EventId) : (q.expire ev).pending = q.pending.erase ev := rfl

@[simp] lemma pending_schedule (delay : ℕ) :
    (q.schedule delay).pending = q.pending ++ [q.nextId delay] := rfl

/-- Of a single pending event nothing is left when it is executed. -/
lemma pending_expire_of_singleton {q : EventQueue} {ev : EventId} (h : q.pending = [ev]) :
    (q.expire ev).pending = [] := by
  rw [pending_expire, h, List.erase_cons_head]

/-- The first event that is scheduled is the only one pending. -/
lemma pending_schedule_of_eq_nil {q : EventQueue} (h : q.pending = []) (delay : ℕ) :
    (q.schedule delay).pending = [q.nextId delay] := by
  rw [pending_schedule, h, List.nil_append]

/-- Without pending events every handle is expired. -/
lemma isExpired_of_pending_eq_nil {q : EventQueue} (h : q.pending = []) (ev : Option EventId) :
    q.IsExpired ev := by
  intro e _
  rw [h]
  exact List.not_mem_nil

end EventQueue
