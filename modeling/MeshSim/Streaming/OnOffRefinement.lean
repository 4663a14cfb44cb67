import MeshSim.Streaming.OnOffPeriods

/-!
# The streaming sender without its clock

The streaming sender with its timers refines the application without its clock, which decides what
is handed to the socket: leaving out the times turns every run with the clock into a run without it,
with the same members and the same packets (`untimed_run`).  For the calls that are pending,
`MeshSimOnOffApplication` only keeps what is called.
-/

namespace MeshSim

open MachineInt

namespace OnOffTimers

variable {P : OnOffParams}

/-! ### Canceling and scheduling without the clock -/

/-- A step, without the times. -/
def Step.untimed : Step → OnOffEvent
  | .startApplication _ _ => .startApplication
  | .stopApplication _ => .stopApplication
  | .startSending _ _ => .startSending
  | .stopSending _ _ => .stopSending
  | .sendPacket _ => .sendPacket

/-- A packet sent, without its time. -/
def Event.packet : Event → Packet
  | .send _ packet => packet

/-- Canceling, without the clock. -/
lemma untimed_cancelEvents {a : OnOffTimers} (h : (a.cancelEvents P).sim.pending = []) :
    (a.cancelEvents P).untimed P = (a.untimed P).cancelEvents := by
  have hsame : SameButCanceled a (a.cancelEvents P) := sameButCanceled_cancelEvents a
  unfold untimed MeshSimOnOffApplication.cancelEvents
  rw [h, hsame.socket, hsame.totBytes, hsame.seqNumber]
  rfl

/-- The calls that are pending with one more. -/
lemma mem_calls_schedule {q : Agenda Call} {call call' : Call} {delay : ℕ} :
    call ∈ (q.schedule delay call').pending.map Prod.snd ↔
      call ∈ q.pending.map Prod.snd ∨ call = call' := by
  rw [Agenda.pending_schedule, List.map_append, List.mem_append, List.map_singleton,
    List.mem_singleton]

/-- Beginning an off period, without the clock. -/
lemma untimed_scheduleStartEvent (offInterval : ℕ) (a : OnOffTimers) :
    (a.scheduleStartEvent offInterval).untimed P = (a.untimed P).scheduleStartEvent := by
  simp only [untimed, scheduleStartEvent, mem_calls_schedule]
  simp [MeshSimOnOffApplication.scheduleStartEvent]

/-- Beginning an on period, without the clock. -/
lemma untimed_scheduleStopEvent (onInterval : ℕ) {a : OnOffTimers}
    (h : Call.startSending ∉ a.sim.pending.map Prod.snd) :
    (a.scheduleStopEvent onInterval).untimed P = (a.untimed P).scheduleStopEvent := by
  simp only [untimed, scheduleStopEvent, mem_calls_schedule, h]
  simp [MeshSimOnOffApplication.scheduleStopEvent]

/-- Scheduling the next packet, without the clock. -/
lemma untimed_scheduleNextTx {a : OnOffTimers}
    (h : P.maxBytes = 0 ∨ a.totBytes < P.maxBytes ∨ (a.cancelEvents P).sim.pending = []) :
    (a.scheduleNextTx P).untimed P = (a.untimed P).scheduleNextTx := by
  by_cases hlt : P.maxBytes = 0 ∨ a.totBytes < P.maxBytes
  · have hlt' : (a.untimed P).maxBytes = 0 ∨ (a.untimed P).totBytes < (a.untimed P).maxBytes := hlt
    rw [scheduleNextTx_of_lt hlt, MeshSimOnOffApplication.scheduleNextTx, if_pos hlt']
    simp only [untimed, mem_calls_schedule, reduceCtorEq, or_false, or_true, decide_true]
  · have hlt' : ¬((a.untimed P).maxBytes = 0 ∨ (a.untimed P).totBytes < (a.untimed P).maxBytes) :=
      hlt
    have hnil : (a.cancelEvents P).sim.pending = [] := by tauto
    rw [scheduleNextTx_of_not hlt, MeshSimOnOffApplication.scheduleNextTx, if_neg hlt']
    exact untimed_cancelEvents hnil

/-! ### Steps and runs without the clock -/

/-- The application without its clock when `StartSending` is the only pending call. -/
lemma untimed_of_startSending {a : OnOffTimers} {ev : EventId}
    (h : a.sim.pending = [(ev, .startSending)]) :
    a.untimed P =
      { a.untimed P with startStopEvent := some .startSending, sendEvent := false } := by
  unfold untimed
  rw [h]
  rfl

/-- The application without its clock when nothing is pending. -/
lemma untimed_of_nil {a : OnOffTimers} (h : a.sim.pending = []) :
    a.untimed P = { a.untimed P with startStopEvent := none, sendEvent := false } := by
  unfold untimed
  rw [h]
  rfl

/-- The application without its clock when `StopSending` is the only pending call. -/
lemma untimed_of_stopSending {a : OnOffTimers} {ev : EventId}
    (h : a.sim.pending = [(ev, .stopSending)]) :
    a.untimed P = { a.untimed P with startStopEvent := some .stopSending, sendEvent := false } := by
  unfold untimed
  rw [h]
  rfl

/-- The application without its clock in an on period. -/
lemma On.untimed {a : OnOffTimers} {due : ℕ} (h : On a due) :
    a.untimed P = { a.untimed P with startStopEvent := some .stopSending, sendEvent := true } := by
  obtain ⟨ev, ev', -, -, -, hpending⟩ := h
  have hmem : ∀ call, call ∈ a.sim.pending.map Prod.snd ↔
      call ∈ [Call.sendPacket, Call.stopSending] :=
    fun call => (hpending.map Prod.snd).mem_iff
  simp only [OnOffTimers.untimed, hmem]
  rfl

/-- What `SendPacket` does to the members. -/
lemma sendPacket_of_socket {a : MeshSimOnOffApplication} (h : a.socket = true) :
    a.sendPacket =
      some (({ a with
        seqNumber := a.createPacket.1.seqNumber
        totBytes := u64 (a.totBytes + a.pktSize) } : MeshSimOnOffApplication).scheduleNextTx,
        a.createPacket.2) := by
  rw [MeshSimOnOffApplication.sendPacket, if_pos h]
  obtain ⟨sockDgram, _⟩ := a
  cases sockDgram <;> rfl

/-- **A step, without the clock**, is a step of the application without its clock. -/
lemma untimed_step {a a' : OnOffTimers} {s : CbrSource.State}
    (h : Simulates P a s) {i : Step} (hen : Enabled (.ok a) i) {evs : List Event}
    (hstep : step P (.ok a) i = (.ok a', evs)) :
    (a.untimed P).step i.untimed = some (a'.untimed P, evs.map Event.packet) := by
  cases i with
  | startApplication t off =>
    let b : OnOffTimers := { a with
      phase := .running
      sim := a.sim.advance t
      socket := true
      cbrRateFailSafe := P.cbrRate }
    have hb : b.sim.pending = [] := h.pending_of_created hen.1
    cases hstep
    rw [startApplication, untimed_scheduleStartEvent,
      untimed_cancelEvents (a := b) (pending_cancelEvents_of_nil hb)]
    rfl
  | stopApplication t =>
    let b : OnOffTimers := { a with phase := .stopped, sim := a.sim.advance t }
    have hb : (b.cancelEvents P).sim.pending = [] := by
      rw [OnOffTimers.pending_cancelEvents]
      have hnil : (a.cancelEvents P).sim.pending = [] := h.pending_cancelEvents
      rwa [OnOffTimers.pending_cancelEvents] at hnil
    cases hstep
    rw [stopApplication, untimed_cancelEvents (a := b) hb]
    rfl
  | startSending ev on =>
    have hnext : a.sim.IsNext ev .startSending := hen
    obtain ⟨-, -, hmax, hoff⟩ := h.off_of_isNext hnext
    let b : OnOffTimers := { a with sim := a.sim.expire ev, lastStartTime := ev.time }
    have hb : b.sim.pending = [] := hoff.expire hnext
    have hlt : P.maxBytes = 0 ∨ b.totBytes < P.maxBytes :=
      (lt_iff_not_exhausted h.totBytes).mpr hmax
    have hnot : Call.startSending ∉ (b.scheduleNextTx P).sim.pending.map Prod.snd := by
      rw [scheduleNextTx_of_lt hlt, mem_calls_schedule, hb]
      decide
    have huntimed : b.untimed P = { a.untimed P with startStopEvent := none } := by
      obtain ⟨e, -, -, hpending⟩ := hoff
      rw [untimed_of_nil hb, untimed_of_startSending hpending]
      rfl
    have hstep' : step P (.ok a) (.startSending ev on) =
        (.ok ((b.scheduleNextTx P).scheduleStopEvent on), []) := rfl
    rw [hstep'] at hstep
    cases hstep
    rw [untimed_scheduleStopEvent on hnot, untimed_scheduleNextTx (by tauto), huntimed]
    obtain ⟨e, -, -, hpending⟩ := hoff
    rw [untimed_of_startSending hpending]
    rfl
  | stopSending ev off =>
    have hnext : a.sim.IsNext ev .stopSending := hen
    obtain ⟨last, due, hmode⟩ := exists_sending_of_isNext h hnext (by decide)
    obtain ⟨-, -, -, hon⟩ := h.sending last due hmode
    obtain ⟨e, hsend, hexpire⟩ := hon.expire_stopSending hnext
    let b : OnOffTimers := { a with sim := a.sim.expire ev }
    cases hstep
    rw [stopSending, untimed_scheduleStartEvent,
      untimed_cancelEvents (a := b) (pending_cancelEvents_of_sendPacket hsend hexpire), hon.untimed]
    rfl
  | sendPacket ev =>
    have hnext : a.sim.IsNext ev .sendPacket := hen
    obtain ⟨last, due, hmode⟩ := exists_sending_of_isNext h hnext (by decide)
    obtain ⟨hphase, hmax, -, hon⟩ := h.sending last due hmode
    obtain ⟨-, hsend, e', hne, hstop, hexpire⟩ := hon.expire_sendPacket hnext
    obtain ⟨hsocket, -⟩ := h.started (by rw [hphase]; decide)
    let b : OnOffTimers := { a with sim := a.sim.expire ev }
    have hb : b.untimed P = { a.untimed P with sendEvent := false } := by
      rw [untimed_of_stopSending (a := b) hexpire, hon.untimed]
      rfl
    have hlimit : P.maxBytes = 0 ∨ (a.afterPacket P ev).totBytes < P.maxBytes ∨
        ((a.afterPacket P ev).cancelEvents P).sim.pending = [] :=
      Or.inr (Or.inr (pending_cancelEvents_of_stopSending hne hsend hstop hexpire))
    rw [step_sendPacket hon hsocket hnext] at hstep
    cases hstep
    rw [untimed_scheduleNextTx hlimit, Step.untimed, MeshSimOnOffApplication.step, hon.untimed,
      if_pos rfl]
    have hsend' : MeshSimOnOffApplication.sendPacket (b.untimed P) =
        some (((a.afterPacket P ev).untimed P).scheduleNextTx, (a.nextPacket P ev).2) := by
      have hsocket' : (b.untimed P).socket = true := hsocket
      rw [sendPacket_of_socket hsocket']
      rfl
    rw [hb] at hsend'
    have hsame : ({ a.untimed P with startStopEvent := some .stopSending, sendEvent := false } :
        MeshSimOnOffApplication) = { a.untimed P with sendEvent := false } := by
      rw [hon.untimed]
    dsimp only
    rw [hsame, hsend']
    rfl

/-- One more step of an application without its clock. -/
lemma run_concat_untimed {a a' a'' : MeshSimOnOffApplication} {events : List OnOffEvent}
    {event : OnOffEvent} {sent sent' : List Packet} (h : a.run events = some (a', sent))
    (hstep : a'.step event = some (a'', sent')) :
    a.run (events ++ [event]) = some (a'', sent ++ sent') := by
  induction events generalizing a sent with
  | nil =>
    obtain ⟨rfl, rfl⟩ := Prod.mk.inj (Option.some.inj h)
    rw [List.nil_append, MeshSimOnOffApplication.run, hstep]
    simp [MeshSimOnOffApplication.run]
  | cons e events ih =>
    rw [MeshSimOnOffApplication.run] at h
    rw [List.cons_append, MeshSimOnOffApplication.run]
    cases hfirst : a.step e with
    | none =>
      rw [hfirst] at h
      cases h
    | some r =>
      rw [hfirst] at h
      obtain ⟨r', hrest, heq⟩ := Option.map_eq_some_iff.mp h
      obtain ⟨rfl, rfl⟩ := Prod.mk.inj heq
      dsimp only
      rw [ih hrest, Option.map_some, List.append_assoc]

/-- **The timers refine the application without its clock.** Every run with the clock, with the
times left out, is a run of the application without its clock, which ends in the same members and
hands the same packets to the socket. -/
theorem untimed_run (hP : P.Bounded) (htrunc : P.source.Truncates) {steps : List Step}
    (hf : Feasible P steps) :
    ∃ a evs, run P steps = (.ok a, evs) ∧
      (MeshSimOnOffApplication.init P.sockDgram P.pktSize P.maxBytes).run
        (steps.map Step.untimed) = some (a.untimed P, evs.map Event.packet) := by
  induction steps using List.reverseRecOn with
  | nil => exact ⟨init, [], rfl, rfl⟩
  | append_singleton steps i ih =>
    obtain ⟨hbefore, hen⟩ := (Mealy.feasible_concat_iff _).mp hf
    obtain ⟨a, evs, hrun, huntimed⟩ := ih hbefore
    obtain ⟨a₁, evs₁, s, hrun₁, hs⟩ := simulated_run hP htrunc hbefore
    obtain ⟨ha, rfl⟩ := Prod.mk.inj (hrun.symm.trans hrun₁)
    cases ha
    have hst : (Mealy.run (step P) (.ok init) steps).1 = .ok a := congrArg Prod.fst hrun
    rw [hst] at hen
    obtain ⟨a', evs', s', hstep, -, -⟩ := hs.step hP htrunc hst hen
    refine ⟨a', evs ++ evs', ?_, ?_⟩
    · have hevs : (Mealy.run (step P) (.ok init) steps).2 = evs := congrArg Prod.snd hrun
      unfold run
      rw [Mealy.run_concat, hst, hevs, hstep]
    · rw [List.map_append, List.map_append]
      exact run_concat_untimed huntimed (untimed_step hs.simulates hen hstep)

/-- The example of the documentation. -/
theorem untimed_run_documented :
    ∃ a evs, run (documented 0) documentedSteps = (.ok a, evs) ∧
      (MeshSimOnOffApplication.init true 125 0).run
        [.startApplication, .startSending, .stopSending, .startSending, .sendPacket] =
          some (a.untimed (documented 0), evs.map Event.packet) :=
  untimed_run (bounded_documented (by decide)) (truncates_documented 0)
    (show Feasible (documented 0) documentedSteps by decide +kernel)

end OnOffTimers

end MeshSim
