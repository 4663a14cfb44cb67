import MeshSim.Foundation.EventQueue

/-!
# Scheduled calls of several kinds

A component of a discrete-event simulation that schedules calls of several kinds keeps their handles
in order to cancel them.  An `Agenda` is the clock, and the pending calls with their handles.  That
no two of them share a handle, and that the next handle is a new one, is part of the type.

A pending call is never due in the past (`Punctual`) when the clock only reaches times that are
admitted by `Reaches`, and when the calls are executed in the order given by `IsNext`.
-/

/-- The clock of a simulation and the pending calls of one of its components. -/
structure Agenda (κ : Type*) where
  /-- The current time. -/
  now : ℕ
  /-- The number that the next handle gets. -/
  nextUid : ℕ
  /-- The calls that are scheduled and not executed yet. -/
  pending : List (EventId × κ)
  /-- The handles are older than the next one. -/
  uid_lt : ∀ e ∈ pending, e.1.uid < nextUid
  /-- Every handle stands for one call. -/
  nodup : (pending.map Prod.fst).Nodup

namespace Agenda

variable {κ : Type*} (q : Agenda κ)

/-- There is no handle in an empty list. -/
lemma uid_lt_nil : ∀ e ∈ ([] : List (EventId × κ)), e.1.uid < 0 :=
  fun _ he => absurd he List.not_mem_nil

/-- There are no two handles in an empty list. -/
lemma nodup_nil : (([] : List (EventId × κ)).map Prod.fst).Nodup := List.nodup_nil

/-- At time zero nothing is scheduled. -/
def empty : Agenda κ where
  now := 0
  nextUid := 0
  pending := []
  uid_lt := uid_lt_nil
  nodup := nodup_nil

/-- The handle of the call that is scheduled next, with a delay. -/
def nextId (delay : ℕ) : EventId := ⟨q.now + delay, q.nextUid⟩

/-- With one more call the handles are older than the next one. -/
lemma uid_lt_concat (delay : ℕ) (call : κ) :
    ∀ e ∈ q.pending ++ [(q.nextId delay, call)], e.1.uid < q.nextUid + 1 := by
  intro e he
  rcases List.mem_append.mp he with he | he
  · exact (q.uid_lt e he).trans (Nat.lt_succ_self _)
  · rw [List.mem_singleton.mp he]
    exact Nat.lt_succ_self _

/-- The handle of one more call is a new one. -/
lemma nodup_concat (delay : ℕ) (call : κ) :
    ((q.pending ++ [(q.nextId delay, call)]).map Prod.fst).Nodup := by
  rw [List.map_append, List.map_singleton, ← List.concat_eq_append]
  refine q.nodup.concat fun hmem => ?_
  obtain ⟨e, he, heq⟩ := List.mem_map.mp hmem
  have hlt := q.uid_lt e he
  rw [heq] at hlt
  exact lt_irrefl _ hlt

/-- A call is scheduled with a delay. -/
def schedule (delay : ℕ) (call : κ) : Agenda κ where
  now := q.now
  nextUid := q.nextUid + 1
  pending := q.pending ++ [(q.nextId delay, call)]
  uid_lt := q.uid_lt_concat delay call
  nodup := q.nodup_concat delay call

/-- Without some calls the handles are older than the next one. -/
lemma uid_lt_filter (keep : EventId × κ → Bool) :
    ∀ e ∈ q.pending.filter keep, e.1.uid < q.nextUid :=
  fun e he => q.uid_lt e (List.mem_of_mem_filter he)

/-- Without some calls no two handles are the same. -/
lemma nodup_filter (keep : EventId × κ → Bool) :
    ((q.pending.filter keep).map Prod.fst).Nodup :=
  q.nodup.sublist (List.filter_sublist.map Prod.fst)

/-- The call with a handle is canceled, if it is pending. -/
def cancel (ev : Option EventId) : Agenda κ where
  now := q.now
  nextUid := q.nextUid
  pending := q.pending.filter fun e => ev ≠ some e.1
  uid_lt := q.uid_lt_filter _
  nodup := q.nodup_filter _

/-- The clock reaches a time at which another component is active. -/
def advance (t : ℕ) : Agenda κ := { q with now := t }

/-- A pending call is executed: the clock reaches its time, and it is not pending any longer. -/
def expire (ev : EventId) : Agenda κ where
  now := ev.time
  nextUid := q.nextUid
  pending := q.pending.filter fun e => e.1 ≠ ev
  uid_lt := q.uid_lt_filter _
  nodup := q.nodup_filter _

/-- A handle stands for a pending call. -/
def IsRunning (ev : Option EventId) : Prop := ∃ e ∈ q.pending, ev = some e.1

instance (ev : Option EventId) : Decidable (q.IsRunning ev) := by
  unfold IsRunning
  infer_instance

/-- Another component may be active at a time. -/
def Reaches (t : ℕ) : Prop := q.now ≤ t ∧ ∀ e ∈ q.pending, t ≤ e.1.time

instance (t : ℕ) : Decidable (q.Reaches t) := by
  unfold Reaches
  infer_instance

/-- A call is the next one of the component to be executed. -/
def IsNext (ev : EventId) (call : κ) : Prop :=
  (ev, call) ∈ q.pending ∧
    ∀ e ∈ q.pending, ev.time < e.1.time ∨ ev.time = e.1.time ∧ ev.uid ≤ e.1.uid

instance [DecidableEq κ] (ev : EventId) (call : κ) : Decidable (q.IsNext ev call) := by
  unfold IsNext
  infer_instance

/-- No pending call is due in the past. -/
def Punctual : Prop := ∀ e ∈ q.pending, q.now ≤ e.1.time

@[simp] lemma now_schedule (delay : ℕ) (call : κ) : (q.schedule delay call).now = q.now := rfl

@[simp] lemma now_cancel (ev : Option EventId) : (q.cancel ev).now = q.now := rfl

@[simp] lemma now_advance (t : ℕ) : (q.advance t).now = t := rfl

@[simp] lemma now_expire (ev : EventId) : (q.expire ev).now = ev.time := rfl

@[simp] lemma pending_advance (t : ℕ) : (q.advance t).pending = q.pending := rfl

@[simp] lemma pending_schedule (delay : ℕ) (call : κ) :
    (q.schedule delay call).pending = q.pending ++ [(q.nextId delay, call)] := rfl

lemma pending_cancel (ev : Option EventId) :
    (q.cancel ev).pending = q.pending.filter fun e => decide (ev ≠ some e.1) := rfl

lemma pending_expire (ev : EventId) :
    (q.expire ev).pending = q.pending.filter fun e => decide (e.1 ≠ ev) := rfl

/-- The next handle is a new one. -/
lemma ne_nextId {ev : EventId} (h : ev.uid < q.nextUid) (delay : ℕ) : ev ≠ q.nextId delay := by
  rintro rfl
  exact lt_irrefl _ h

/-- A handle without a pending call does not run. -/
lemma not_isRunning_of_forall_ne {q : Agenda κ} {ev : Option EventId}
    (h : ∀ e ∈ q.pending, ev ≠ some e.1) : ¬q.IsRunning ev := by
  rintro ⟨e, he, heq⟩
  exact h e he heq

/-- Without pending calls no handle runs. -/
lemma not_isRunning_of_nil {q : Agenda κ} (h : q.pending = []) (ev : Option EventId) :
    ¬q.IsRunning ev := by
  refine not_isRunning_of_forall_ne fun e he => ?_
  rw [h] at he
  exact absurd he List.not_mem_nil

/-! ### Punctual calls -/

variable {q}

/-- At time zero every call is punctual. -/
lemma punctual_empty : (empty : Agenda κ).Punctual := fun _ he => absurd he List.not_mem_nil

/-- Without pending calls none is due in the past. -/
lemma punctual_of_nil (h : q.pending = []) : q.Punctual := by
  intro e he
  rw [h] at he
  exact absurd he List.not_mem_nil

/-- Scheduling is never for the past. -/
lemma Punctual.schedule (h : q.Punctual) (delay : ℕ) (call : κ) :
    (q.schedule delay call).Punctual := by
  intro e he
  rcases List.mem_append.mp he with he | he
  · exact h e he
  · rw [List.mem_singleton.mp he]
    exact Nat.le_add_right _ _

/-- Canceling leaves the other calls. -/
lemma Punctual.cancel (h : q.Punctual) (ev : Option EventId) : (q.cancel ev).Punctual :=
  fun e he => h e (List.mem_of_mem_filter he)

/-- Other components are not active behind a pending call. -/
lemma Punctual.advance {t : ℕ} (h : q.Reaches t) : (q.advance t).Punctual := h.2

/-- The next call is executed in front of the others. -/
lemma Punctual.expire {ev : EventId} {call : κ} (h : q.IsNext ev call) :
    (q.expire ev).Punctual := by
  intro e he
  rcases h.2 e (List.mem_of_mem_filter he) with hlt | ⟨heq, -⟩
  · exact hlt.le
  · exact heq.le

/-- The time of the next call is not in the past. -/
lemma Punctual.le_of_isNext (h : q.Punctual) {ev : EventId} {call : κ} (hnext : q.IsNext ev call) :
    q.now ≤ ev.time := h (ev, call) hnext.1

/-- The next call is due at the time of any other one at the latest. -/
lemma IsNext.le {ev : EventId} {call : κ} (h : q.IsNext ev call) {e : EventId × κ}
    (he : e ∈ q.pending) : ev.time ≤ e.1.time := by
  rcases h.2 e he with hlt | ⟨heq, -⟩
  · exact hlt.le
  · exact heq.le

/-! ### One or two pending calls -/

/-- Of a single pending call nothing is left when it is executed. -/
lemma pending_expire_of_singleton {ev : EventId} {call : κ} (h : q.pending = [(ev, call)]) :
    (q.expire ev).pending = [] := by
  rw [pending_expire, h]
  simp

/-- Of a single pending call nothing is left when it is canceled. -/
lemma pending_cancel_of_singleton {ev : EventId} {c : κ} (h : q.pending = [(ev, c)]) :
    (q.cancel (some ev)).pending = [] := by
  rw [pending_cancel, h]
  simp

/-- Without pending calls there is nothing to cancel. -/
lemma pending_cancel_of_nil (h : q.pending = []) (ev : Option EventId) :
    (q.cancel ev).pending = [] := by
  rw [pending_cancel, h, List.filter_nil]

/-- The two handles of a pair of pending calls differ. -/
lemma ne_of_perm {ev ev' : EventId} {call call' : κ}
    (h : q.pending.Perm [(ev, call), (ev', call')]) : ev ≠ ev' := by
  have hnodup := (h.map Prod.fst).nodup_iff.mp q.nodup
  rw [List.map_cons, List.map_singleton] at hnodup
  exact fun heq => (List.nodup_cons.mp hnodup).1 (List.mem_singleton.mpr heq)

/-- Of two pending calls the other one is left. -/
lemma filter_ne_of_perm {ev ev' : EventId} {call call' : κ}
    (h : q.pending.Perm [(ev, call), (ev', call')]) :
    q.pending.filter (fun e => decide (e.1 ≠ ev)) = [(ev', call')] := by
  have hperm := h.filter fun e => decide (e.1 ≠ ev)
  rw [List.filter_cons_of_neg (by simp),
    List.filter_cons_of_pos (by simpa using (ne_of_perm h).symm), List.filter_nil] at hperm
  exact List.perm_singleton.mp hperm

/-- When one of two pending calls is executed, the other one is left. -/
lemma pending_expire_of_perm {ev ev' : EventId} {call call' : κ}
    (h : q.pending.Perm [(ev, call), (ev', call')]) : (q.expire ev).pending = [(ev', call')] :=
  filter_ne_of_perm h

/-- When one of two pending calls is canceled, the other one is left. -/
lemma pending_cancel_of_perm {ev ev' : EventId} {call call' : κ}
    (h : q.pending.Perm [(ev, call), (ev', call')]) :
    (q.cancel (some ev)).pending = [(ev', call')] := by
  rw [pending_cancel, ← filter_ne_of_perm h]
  congr 1
  funext e
  simp [eq_comm]

end Agenda
