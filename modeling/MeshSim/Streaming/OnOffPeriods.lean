import MeshSim.Foundation.CbrSource
import MeshSim.Streaming.OnOffTimers

/-!
# On and off periods

The streaming sender with its timers is a source of a constant bit rate that is resumed by
`StartSending` and interrupted by `StopSending` and `StopApplication`.  `Simulates` ties the members
of the application and its pending calls to the state of the source, and `simulates_step` says that
each step of the application is one of the moves of the source.

From this follow the invariants of runs: which calls are pending (`timers_run`), how many packets
are sent in the on periods (`rate_run`), and that the byte limit is kept (`maxBytes_run`).
-/

namespace MeshSim

open MachineInt

namespace OnOffParams

/-- The source that the application stands for. -/
def source (P : OnOffParams) : CbrSource where
  packetBits := P.pktSize * 8
  rate := P.cbrRate
  timeOf := P.txTime
  bitsIn := P.bitsIn

/-- The attributes are so small that no counter wraps around. -/
structure Bounded (P : OnOffParams) : Prop where
  /-- The bits of a packet fit into a `uint32_t`. -/
  bits_lt : P.pktSize * 8 < 2 ^ 32
  /-- A packet behind the byte limit fits into a `uint64_t`. -/
  bytes_lt : P.maxBytes + P.pktSize ≤ 2 ^ 64

/-- The byte limit is reached after a number of packets. -/
def Exhausted (P : OnOffParams) (n : ℕ) : Prop := P.maxBytes ≠ 0 ∧ P.maxBytes ≤ n * P.pktSize

instance (P : OnOffParams) (n : ℕ) : Decidable (P.Exhausted n) := by
  unfold Exhausted
  infer_instance

end OnOffParams

namespace OnOffTimers

variable {P : OnOffParams}

/-- The attributes of the example in the documentation of the class: packets of 1000 bits at 500
bits a second, with a byte limit. -/
def documented (maxBytes : ℕ) : OnOffParams where
  pktSize := 125
  maxBytes := maxBytes
  cbrRate := 500
  txTime := fun bits => bits * 10 ^ 9 / 500
  bitsIn := fun delta => delta * 500 / 10 ^ 9

/-- The run of the example: an on period from three to four seconds, and another one from 5.5
seconds on, in which the first packet is sent at 6.5 seconds. -/
def documentedSteps : List Step :=
  [.startApplication 0 3000000000, .startSending ⟨3000000000, 0⟩ 1000000000,
    .stopSending ⟨4000000000, 2⟩ 1500000000, .startSending ⟨5500000000, 3⟩ 10000000000,
    .sendPacket ⟨6500000000, 4⟩]

/-- The attributes of the example are small. -/
lemma bounded_documented {maxBytes : ℕ} (h : maxBytes ≤ 2 ^ 63) :
    (documented maxBytes).Bounded where
  bits_lt := show 125 * 8 < 2 ^ 32 by decide
  bytes_lt := (Nat.add_le_add_right h 125).trans (by decide)

/-- Rounding down loses at most one unit. -/
lemma le_succ_div_mul (m : ℕ) {n : ℕ} (h : 0 < n) : m ≤ (m / n + 1) * n :=
  (Nat.lt_mul_of_div_lt (Nat.lt_succ_self _) h).le

/-- The conversions of the example round down. -/
lemma truncates_documented (maxBytes : ℕ) : (documented maxBytes).source.Truncates where
  timeOf_le := fun b => Nat.div_mul_le_self (b * 10 ^ 9) 500
  le_timeOf := fun b => le_succ_div_mul (b * 10 ^ 9) (by decide : 0 < 500)
  bitsIn_le := fun d => Nat.div_mul_le_self (d * 500) (10 ^ 9)
  le_bitsIn := fun d => le_succ_div_mul (d * 500) (by decide : 0 < 10 ^ 9)

/-! ### Canceling and scheduling -/

/-- What `CancelEvents` leaves alone. -/
structure SameButCanceled (a a' : OnOffTimers) : Prop where
  /-- The phase stays. -/
  phase : a'.phase = a.phase
  /-- The clock stays. -/
  now : a'.sim.now = a.sim.now
  /-- The next handle stays. -/
  nextUid : a'.sim.nextUid = a.sim.nextUid
  /-- The socket stays. -/
  socket : a'.socket = a.socket
  /-- The bytes sent stay. -/
  totBytes : a'.totBytes = a.totBytes
  /-- The sequence number stays. -/
  seqNumber : a'.seqNumber = a.seqNumber
  /-- The handle of the next packet stays. -/
  sendEvent : a'.sendEvent = a.sendEvent

/-- Canceling leaves alone everything but the pending calls and the residual bits. -/
lemma sameButCanceled_cancelEvents (a : OnOffTimers) : SameButCanceled a (a.cancelEvents P) := by
  unfold cancelEvents addResidualBits
  split <;> exact ⟨rfl, rfl, rfl, rfl, rfl, rfl, rfl⟩

/-- Behind `CancelEvents` the rate is the one that was used last. -/
@[simp] lemma cbrRateFailSafe_cancelEvents (a : OnOffTimers) :
    (a.cancelEvents P).cbrRateFailSafe = P.cbrRate := rfl

/-- `CancelEvents` cancels both events. -/
lemma pending_cancelEvents (a : OnOffTimers) :
    (a.cancelEvents P).sim.pending =
      ((a.sim.cancel a.sendEvent).cancel a.startStopEvent).pending := by
  unfold cancelEvents addResidualBits
  split <;> rfl

/-- The residual bits stay when no packet is waited for. -/
lemma residualBits_cancelEvents_of_not {a : OnOffTimers} (h : ¬a.sim.IsRunning a.sendEvent) :
    (a.cancelEvents P).residualBits = a.residualBits := by
  unfold cancelEvents addResidualBits
  rw [if_neg fun hand => h hand.1]

/-- The bits of the time that a packet has been waited for are added to the residual ones. -/
lemma residualBits_cancelEvents {a : OnOffTimers} (h : a.sim.IsRunning a.sendEvent)
    (hrate : a.cbrRateFailSafe = P.cbrRate) :
    (a.cancelEvents P).residualBits =
      u32 (a.residualBits + P.bitsIn (a.sim.now - a.lastStartTime)) := by
  unfold cancelEvents addResidualBits
  rw [if_pos ⟨h, hrate⟩]

/-- While the byte limit is not reached, the next packet is scheduled. -/
lemma scheduleNextTx_of_lt {a : OnOffTimers} (h : P.maxBytes = 0 ∨ a.totBytes < P.maxBytes) :
    a.scheduleNextTx P =
      { a with
        sim := a.sim.schedule (P.txTime (a.bits P)) .sendPacket
        sendEvent := some (a.sim.nextId (P.txTime (a.bits P))) } :=
  if_pos h

/-- When the byte limit is reached, the application is stopped. -/
lemma scheduleNextTx_of_not {a : OnOffTimers} (h : ¬(P.maxBytes = 0 ∨ a.totBytes < P.maxBytes)) :
    a.scheduleNextTx P = a.cancelEvents P :=
  if_neg h

/-- Without a wrap-around the bits until the next packet are those of a packet but for the residual
ones. -/
lemma bits_eq (hP : P.Bounded) {a : OnOffTimers} (h : a.residualBits ≤ P.pktSize * 8) :
    a.bits P = P.pktSize * 8 - a.residualBits := by
  have hlt := hP.bits_lt
  unfold bits
  have hbits : u32 ((P.pktSize : ℤ) * 8) = P.pktSize * 8 := by
    have hcast := u32_natCast hlt
    push_cast at hcast
    exact hcast
  rw [hbits, ← Nat.cast_sub h]
  exact u32_natCast (by omega)

/-! ### Modes -/

/-- In an off period, `StartSending` is the only pending call. -/
def Off (a : OnOffTimers) : Prop :=
  ∃ ev, a.startStopEvent = some ev ∧ a.sendEvent ≠ some ev ∧ a.sim.pending = [(ev, .startSending)]

/-- In an on period, `SendPacket` and `StopSending` are pending. -/
def On (a : OnOffTimers) (due : ℕ) : Prop :=
  ∃ ev ev', a.sendEvent = some ev ∧ a.startStopEvent = some ev' ∧ ev.time = due ∧
    a.sim.pending.Perm [(ev, .sendPacket), (ev', .stopSending)]

/-- In an off period no packet is waited for. -/
lemma Off.not_isRunning {a : OnOffTimers} (h : Off a) : ¬a.sim.IsRunning a.sendEvent := by
  obtain ⟨ev, -, hne, hpending⟩ := h
  refine Agenda.not_isRunning_of_forall_ne fun e he => ?_
  rw [hpending, List.mem_singleton] at he
  rw [he]
  exact hne

/-- In an on period a packet is waited for. -/
lemma On.isRunning {a : OnOffTimers} {due : ℕ} (h : On a due) : a.sim.IsRunning a.sendEvent := by
  obtain ⟨ev, ev', hsend, -, -, hpending⟩ := h
  exact ⟨(ev, .sendPacket), hpending.symm.subset List.mem_cons_self, hsend⟩

/-- Without pending calls nothing is pending behind `CancelEvents`. -/
lemma pending_cancelEvents_of_nil {a : OnOffTimers} (h : a.sim.pending = []) :
    (a.cancelEvents P).sim.pending = [] := by
  rw [pending_cancelEvents]
  exact Agenda.pending_cancel_of_nil (Agenda.pending_cancel_of_nil h _) _

/-- In an off period nothing is pending behind `CancelEvents`. -/
lemma Off.pending_cancelEvents {a : OnOffTimers} (h : Off a) :
    (a.cancelEvents P).sim.pending = [] := by
  obtain ⟨ev, hstart, hne, hpending⟩ := h
  rw [OnOffTimers.pending_cancelEvents, hstart]
  refine Agenda.pending_cancel_of_singleton (c := .startSending) ?_
  rw [Agenda.pending_cancel, hpending, List.filter_cons_of_pos (by simpa using hne),
    List.filter_nil]

/-- In an on period nothing is pending behind `CancelEvents`. -/
lemma On.pending_cancelEvents {a : OnOffTimers} {due : ℕ} (h : On a due) :
    (a.cancelEvents P).sim.pending = [] := by
  obtain ⟨ev, ev', hsend, hstop, -, hpending⟩ := h
  rw [OnOffTimers.pending_cancelEvents, hstop, hsend]
  exact Agenda.pending_cancel_of_singleton (Agenda.pending_cancel_of_perm hpending)

/-- `StartSending` is executed in an off period, and nothing is left pending. -/
lemma Off.expire {a : OnOffTimers} (h : Off a) {ev : EventId} {call : Call}
    (hnext : a.sim.IsNext ev call) : (a.sim.expire ev).pending = [] := by
  obtain ⟨e, -, -, hpending⟩ := h
  have hmem := hnext.1
  rw [hpending, List.mem_singleton] at hmem
  obtain ⟨rfl, -⟩ := Prod.mk.inj hmem
  exact Agenda.pending_expire_of_singleton hpending

/-- `StopSending` is executed in an on period, and the next packet is left pending. -/
lemma On.expire_stopSending {a : OnOffTimers} {due : ℕ} (h : On a due) {ev : EventId}
    (hnext : a.sim.IsNext ev .stopSending) :
    ∃ e, a.sendEvent = some e ∧ (a.sim.expire ev).pending = [(e, .sendPacket)] := by
  obtain ⟨e, e', hsend, -, -, hpending⟩ := h
  have hev : ev = e' := by
    have hmem := hpending.subset hnext.1
    simpa using hmem
  subst hev
  exact ⟨e, hsend, Agenda.pending_expire_of_perm (hpending.trans (List.Perm.swap _ _ _))⟩

/-- `SendPacket` is executed in an on period, and `StopSending` is left pending. -/
lemma On.expire_sendPacket {a : OnOffTimers} {due : ℕ} (h : On a due) {ev : EventId}
    (hnext : a.sim.IsNext ev .sendPacket) :
    ev.time = due ∧ a.sendEvent = some ev ∧ ∃ e', ev ≠ e' ∧ a.startStopEvent = some e' ∧
      (a.sim.expire ev).pending = [(e', .stopSending)] := by
  obtain ⟨e, e', hsend, hstop, hdue, hpending⟩ := h
  have hev : ev = e := by
    have hmem := hpending.subset hnext.1
    simpa using hmem
  subst hev
  exact ⟨hdue, hsend, e', Agenda.ne_of_perm hpending, hstop,
    Agenda.pending_expire_of_perm hpending⟩

/-- Behind `StopSending` only the next packet is canceled. -/
lemma pending_cancelEvents_of_sendPacket {a : OnOffTimers} {e : EventId}
    (hsend : a.sendEvent = some e) (hpending : a.sim.pending = [(e, .sendPacket)]) :
    (a.cancelEvents P).sim.pending = [] := by
  rw [pending_cancelEvents, hsend]
  exact Agenda.pending_cancel_of_nil (Agenda.pending_cancel_of_singleton hpending) _

/-- Behind the last packet only `StopSending` is canceled. -/
lemma pending_cancelEvents_of_stopSending {a : OnOffTimers} {e e' : EventId} (hne : e ≠ e')
    (hsend : a.sendEvent = some e) (hstop : a.startStopEvent = some e')
    (hpending : a.sim.pending = [(e', .stopSending)]) :
    (a.cancelEvents P).sim.pending = [] := by
  rw [pending_cancelEvents, hstop]
  refine Agenda.pending_cancel_of_singleton (c := .stopSending) ?_
  rw [Agenda.pending_cancel, hpending, hsend, List.filter_cons_of_pos (by simpa using hne),
    List.filter_nil]

/-- Behind `ScheduleStartEvent` there is an off period, if nothing was pending. -/
lemma off_scheduleStartEvent {a : OnOffTimers} (h : a.sim.pending = [])
    (huid : ∀ ev ∈ a.sendEvent, ev.uid < a.sim.nextUid) (offInterval : ℕ) :
    Off (a.scheduleStartEvent offInterval) := by
  refine ⟨a.sim.nextId offInterval, rfl, fun heq => ?_, ?_⟩
  · exact a.sim.ne_nextId (huid _ heq) offInterval rfl
  · rw [scheduleStartEvent, Agenda.pending_schedule, h, List.nil_append]

/-- In an on period `StopSending` is pending. -/
lemma On.isOn {a : OnOffTimers} {due : ℕ} (h : On a due) : a.isOn = true := by
  obtain ⟨ev, ev', -, -, -, hpending⟩ := h
  have hmem : (ev', Call.stopSending) ∈ a.sim.pending :=
    hpending.symm.subset (List.mem_cons_of_mem _ List.mem_cons_self)
  exact decide_eq_true (List.mem_map.mpr ⟨_, hmem, rfl⟩)

/-- In an off period `StopSending` is not pending. -/
lemma Off.isOn {a : OnOffTimers} (h : Off a) : a.isOn = false := by
  obtain ⟨ev, -, -, hpending⟩ := h
  rw [OnOffTimers.isOn, hpending]
  rfl

/-- Without pending calls there is no on period. -/
lemma isOn_of_nil {a : OnOffTimers} (h : a.sim.pending = []) : a.isOn = false := by
  rw [isOn, h]
  rfl

/-! ### The source that the application stands for -/

/-- **The simulation relation** between the application and a source. -/
structure Simulates (P : OnOffParams) (a : OnOffTimers) (s : CbrSource.State) : Prop where
  /-- The clocks agree. -/
  now : a.sim.now = s.now
  /-- The residual bits agree. -/
  residual : a.residualBits = s.residual
  /-- The handle of the next packet is older than the next one. -/
  uid_lt : ∀ ev ∈ a.sendEvent, ev.uid < a.sim.nextUid
  /-- No call is due in the past. -/
  punctual : a.sim.Punctual
  /-- `StartApplication` has set the socket and the rate. -/
  started : a.phase ≠ .created → a.socket = true ∧ a.cbrRateFailSafe = P.cbrRate
  /-- Before `StartApplication` nothing is sent. -/
  created : a.phase = .created → s.sent = 0
  /-- The bytes sent are counted when there is a limit. -/
  totBytes : P.maxBytes ≠ 0 → a.totBytes = s.sent * P.pktSize
  /-- A paused source is in an off period, or nothing is pending. -/
  paused : s.mode = .paused → (a.phase = .running ∧ ¬P.Exhausted s.sent ∧ Off a) ∨
    (a.sim.pending = [] ∧ (a.phase = .running → P.Exhausted s.sent))
  /-- A source that is sending is in an on period. -/
  sending : ∀ last due, s.mode = .sending last due →
    a.phase = .running ∧ ¬P.Exhausted s.sent ∧ a.lastStartTime = last ∧ On a due

/-- The application is constructed as a source that has not done anything. -/
lemma simulates_init : Simulates P init CbrSource.start where
  now := rfl
  residual := rfl
  uid_lt := fun _ h => nomatch h
  punctual := Agenda.punctual_empty
  started := fun h => absurd rfl h
  created := fun _ => rfl
  totBytes := fun _ => by simp [init, CbrSource.start]
  paused := fun _ => Or.inr ⟨rfl, fun h => nomatch h⟩
  sending := fun _ _ h => nomatch h

/-- Before `StartApplication` nothing is pending. -/
lemma Simulates.pending_of_created {a : OnOffTimers} {s : CbrSource.State} (h : Simulates P a s)
    (hphase : a.phase = .created) : a.sim.pending = [] := by
  cases hmode : s.mode with
  | paused =>
    rcases h.paused hmode with ⟨hrunning, -⟩ | ⟨hnil, -⟩
    · cases hphase.symm.trans hrunning
    · exact hnil
  | sending last due => cases hphase.symm.trans (h.sending last due hmode).1

/-- Nothing is pending behind `CancelEvents`. -/
lemma Simulates.pending_cancelEvents {a : OnOffTimers} {s : CbrSource.State}
    (h : Simulates P a s) : (a.cancelEvents P).sim.pending = [] := by
  cases hmode : s.mode with
  | paused =>
    rcases h.paused hmode with ⟨-, -, hoff⟩ | ⟨hnil, -⟩
    · exact hoff.pending_cancelEvents
    · exact pending_cancelEvents_of_nil hnil
  | sending last due => exact (h.sending last due hmode).2.2.2.pending_cancelEvents

/-- `StartSending` is executed while the byte limit is not reached, in an off period. -/
lemma Simulates.off_of_isNext {a : OnOffTimers} {s : CbrSource.State} (h : Simulates P a s)
    {ev : EventId} (hnext : a.sim.IsNext ev .startSending) :
    s.mode = .paused ∧ a.phase = .running ∧ ¬P.Exhausted s.sent ∧ Off a := by
  cases hmode : s.mode with
  | sending last due =>
    -- in an on period the pending calls are others
    obtain ⟨-, -, -, e, e', -, -, -, hpending⟩ := h.sending last due hmode
    have hmem := hpending.subset hnext.1
    simp at hmem
  | paused =>
    rcases h.paused hmode with ⟨hphase, hmax, hoff⟩ | ⟨hnil, -⟩
    · exact ⟨rfl, hphase, hmax, hoff⟩
    · have hmem := hnext.1
      rw [hnil] at hmem
      exact absurd hmem List.not_mem_nil

/-- In an off period, or without pending calls, only `StartSending` can be executed. -/
lemma exists_sending_of_isNext {a : OnOffTimers} {s : CbrSource.State} (h : Simulates P a s)
    {ev : EventId} {call : Call} (hnext : a.sim.IsNext ev call) (hcall : call ≠ .startSending) :
    ∃ last due, s.mode = .sending last due := by
  cases hmode : s.mode with
  | sending last due => exact ⟨last, due, rfl⟩
  | paused =>
    have hmem := hnext.1
    rcases h.paused hmode with ⟨-, -, e, -, -, hpending⟩ | ⟨hnil, -⟩
    · rw [hpending, List.mem_singleton] at hmem
      exact absurd (Prod.mk.inj hmem).2 hcall
    · rw [hnil] at hmem
      exact absurd hmem List.not_mem_nil

/-- What is known of a step of the application: it is one of the moves of the source. -/
structure Stepped (P : OnOffParams) (a : OnOffTimers) (i : Step) (s : CbrSource.State)
    (a' : OnOffTimers) (evs : List Event) (s' : CbrSource.State) : Prop where
  /-- The step of the application. -/
  step : step P (.ok a) i = (.ok a', evs)
  /-- The moves of the source. -/
  moves : Relation.ReflTransGen (CbrSource.Move P.source) s s'
  /-- The states behind it are related. -/
  simulates : Simulates P a' s'
  /-- The packets sent are counted. -/
  sent : s'.sent = s.sent + evs.length
  /-- At most one packet is sent, and none when the byte limit is reached. -/
  sends : evs = [] ∨ evs.length = 1 ∧ ¬P.Exhausted s.sent
  /-- The time in on periods is counted. -/
  onTime : s'.onTime = s.onTime + onDuring (.ok a, i)
  /-- The interruptions are counted. -/
  interruptions : s'.interruptions ≤ s.interruptions + if i.interrupts then 1 else 0

/-- The next packet is scheduled while the byte limit is not reached. -/
lemma lt_iff_not_exhausted {tot n : ℕ} (h : P.maxBytes ≠ 0 → tot = n * P.pktSize) :
    (P.maxBytes = 0 ∨ tot < P.maxBytes) ↔ ¬P.Exhausted n := by
  unfold OnOffParams.Exhausted
  by_cases hmax : P.maxBytes = 0
  · simp [hmax]
  · rw [h hmax]
    simp [hmax]

/-- An off period begins. -/
lemma simulates_scheduleStartEvent {b : OnOffTimers} {s : CbrSource.State}
    (hpending : b.sim.pending = []) (hphase : b.phase = .running)
    (huid : ∀ ev ∈ b.sendEvent, ev.uid < b.sim.nextUid) (hnow : b.sim.now = s.now)
    (hres : b.residualBits = s.residual)
    (hstarted : b.socket = true ∧ b.cbrRateFailSafe = P.cbrRate)
    (htot : P.maxBytes ≠ 0 → b.totBytes = s.sent * P.pktSize) (hmax : ¬P.Exhausted s.sent)
    (hmode : s.mode = .paused) (offInterval : ℕ) :
    Simulates P (b.scheduleStartEvent offInterval) s where
  now := hnow
  residual := hres
  uid_lt := fun ev hev => (huid ev hev).trans (Nat.lt_succ_self _)
  punctual := (Agenda.punctual_of_nil hpending).schedule _ _
  started := fun _ => hstarted
  created := fun h => nomatch hphase.symm.trans h
  totBytes := htot
  paused := fun _ => Or.inl ⟨hphase, hmax, off_scheduleStartEvent hpending huid offInterval⟩
  sending := fun _ _ h => nomatch hmode.symm.trans h

/-- Nothing is pending any longer. -/
lemma simulates_of_nil {b : OnOffTimers} {s : CbrSource.State} (hpending : b.sim.pending = [])
    (hphase : b.phase ≠ .created) (hmax : b.phase = .running → P.Exhausted s.sent)
    (huid : ∀ ev ∈ b.sendEvent, ev.uid < b.sim.nextUid) (hnow : b.sim.now = s.now)
    (hres : b.residualBits = s.residual)
    (hstarted : b.socket = true ∧ b.cbrRateFailSafe = P.cbrRate)
    (htot : P.maxBytes ≠ 0 → b.totBytes = s.sent * P.pktSize) (hmode : s.mode = .paused) :
    Simulates P b s where
  now := hnow
  residual := hres
  uid_lt := huid
  punctual := Agenda.punctual_of_nil hpending
  started := fun _ => hstarted
  created := fun h => absurd h hphase
  totBytes := htot
  paused := fun _ => Or.inr ⟨hpending, hmax⟩
  sending := fun _ _ h => nomatch hmode.symm.trans h

/-- `StartApplication` begins an off period. -/
lemma stepped_startApplication {a : OnOffTimers} {s : CbrSource.State} (h : Simulates P a s)
    {t offInterval : ℕ} (hen : Enabled (.ok a) (.startApplication t offInterval)) :
    ∃ a' evs s', Stepped P a (.startApplication t offInterval) s a' evs s' := by
  obtain ⟨hphase, hreach⟩ := hen
  have hpending := h.pending_of_created hphase
  have hmode : s.mode = .paused := by
    cases hmode : s.mode with
    | paused => rfl
    | sending last due => cases hphase.symm.trans (h.sending last due hmode).1
  let b : OnOffTimers := { a with
    phase := .running
    sim := a.sim.advance t
    socket := true
    cbrRateFailSafe := P.cbrRate }
  have hsame : SameButCanceled b (b.cancelEvents P) := sameButCanceled_cancelEvents b
  have hres : (b.cancelEvents P).residualBits = s.residual :=
    (residualBits_cancelEvents_of_not (a := b) (Agenda.not_isRunning_of_nil hpending _)).trans
      h.residual
  have hzero := h.created hphase
  refine ⟨_, _, { s with now := t }, rfl, ?_, ?_, rfl, .inl rfl, ?_, Nat.le_add_right _ _⟩
  · exact .single (.rest s t hmode (h.now ▸ hreach.1))
  · refine simulates_scheduleStartEvent (b := b.cancelEvents P) (s := { s with now := t }) ?_
      hsame.phase ?_ hsame.now hres ⟨hsame.socket, rfl⟩ ?_ ?_ hmode offInterval
    · exact pending_cancelEvents_of_nil hpending
    · rw [hsame.sendEvent, hsame.nextUid]
      exact h.uid_lt
    · rw [hsame.totBytes]
      exact h.totBytes
    · dsimp only
      rw [hzero]
      simp [OnOffParams.Exhausted]
  · simp [onDuring, isOn_of_nil hpending]

/-- A step reaches its time, and the packet that is waited for is not due before. -/
lemma moves_wait {a : OnOffTimers} {s : CbrSource.State} (h : Simulates P a s) {last due t : ℕ}
    (hmode : s.mode = .sending last due) (hnow : a.sim.now ≤ t)
    (hle : ∀ e ∈ a.sim.pending, t ≤ e.1.time) :
    CbrSource.Move P.source s { s with now := t, onTime := s.onTime + (t - s.now) } := by
  obtain ⟨-, -, -, ev, ev', -, -, hdue, hpending⟩ := h.sending last due hmode
  refine .wait s t last due hmode (h.now ▸ hnow) ?_
  rw [← hdue]
  exact hle (ev, .sendPacket) (hpending.symm.subset List.mem_cons_self)

/-- When a packet is no longer waited for, the residual bits are those of the source. -/
lemma residualBits_interrupt (hP : P.Bounded) (htrunc : P.source.Truncates) {b : OnOffTimers}
    {s : CbrSource.State} (hacc : CbrSource.Accounted P.source s) {last due : ℕ}
    (hmode : s.mode = .sending last due) (hnow : b.sim.now = s.now)
    (hres : b.residualBits = s.residual) (hlast : b.lastStartTime = last)
    (hrate : b.cbrRateFailSafe = P.cbrRate) (hrunning : b.sim.IsRunning b.sendEvent) :
    (b.cancelEvents P).residualBits = s.residual + P.bitsIn (s.now - last) := by
  have hin : P.bitsIn (s.now - last) ≤ P.pktSize * 8 - s.residual := hacc.bitsIn_le htrunc hmode
  have hle : s.residual ≤ P.pktSize * 8 := hacc.residual_le
  have hlt := hP.bits_lt
  rw [residualBits_cancelEvents hrunning hrate, hnow, hres, hlast, ← Nat.cast_add]
  exact u32_natCast (by omega)

/-- `StopApplication` leaves nothing pending. -/
lemma stepped_stopApplication (hP : P.Bounded) (htrunc : P.source.Truncates) {a : OnOffTimers}
    {s : CbrSource.State} (h : Simulates P a s) (hacc : CbrSource.Accounted P.source s) {t : ℕ}
    (hen : Enabled (.ok a) (.stopApplication t)) :
    ∃ a' evs s', Stepped P a (.stopApplication t) s a' evs s' := by
  obtain ⟨hphase, hreach⟩ := hen
  have hstarted := h.started (by rw [hphase]; decide)
  let b : OnOffTimers := { a with phase := .stopped, sim := a.sim.advance t }
  have hsame : SameButCanceled b (b.cancelEvents P) := sameButCanceled_cancelEvents b
  have huid : ∀ ev ∈ (b.cancelEvents P).sendEvent, ev.uid < (b.cancelEvents P).sim.nextUid := by
    rw [hsame.sendEvent, hsame.nextUid]
    exact h.uid_lt
  have hstopped : (b.cancelEvents P).phase = .stopped := hsame.phase
  have hneither : (b.cancelEvents P).phase ≠ .created := by
    rw [hstopped]
    decide
  have hmax : (b.cancelEvents P).phase = .running → P.Exhausted s.sent :=
    fun hrunning => nomatch hstopped.symm.trans hrunning
  have hsocket : (b.cancelEvents P).socket = true ∧
      (b.cancelEvents P).cbrRateFailSafe = P.cbrRate := ⟨hsame.socket.trans hstarted.1, rfl⟩
  have htot : P.maxBytes ≠ 0 → (b.cancelEvents P).totBytes = s.sent * P.pktSize := by
    rw [hsame.totBytes]
    exact h.totBytes
  cases hmode : s.mode with
  | paused =>
    have hnot : ¬b.sim.IsRunning b.sendEvent ∧ (b.cancelEvents P).sim.pending = [] ∧
        a.isOn = false := by
      rcases h.paused hmode with ⟨-, -, hoff⟩ | ⟨hnil, -⟩
      · exact ⟨hoff.not_isRunning, Off.pending_cancelEvents (a := b) hoff, hoff.isOn⟩
      · exact ⟨Agenda.not_isRunning_of_nil hnil _, pending_cancelEvents_of_nil hnil,
          isOn_of_nil hnil⟩
    obtain ⟨hnotrunning, hnil, hison⟩ := hnot
    have hres : (b.cancelEvents P).residualBits = s.residual :=
      (residualBits_cancelEvents_of_not hnotrunning).trans h.residual
    refine ⟨_, _, { s with now := t }, rfl, ?_, ?_, rfl, .inl rfl, ?_, Nat.le_add_right _ _⟩
    · exact .single (.rest s t hmode (h.now ▸ hreach.1))
    · exact simulates_of_nil hnil hneither hmax huid hsame.now hres hsocket htot hmode
    · simp [onDuring, hison]
  | sending last due =>
    obtain ⟨-, -, hlast, hon⟩ := h.sending last due hmode
    have hwait := moves_wait h hmode hreach.1 hreach.2
    have hres := residualBits_interrupt (b := b) hP htrunc (hacc.move htrunc hwait) hmode rfl
      h.residual hlast hstarted.2 hon.isRunning
    have hmove := CbrSource.Move.interrupt (C := P.source)
      { s with now := t, onTime := s.onTime + (t - s.now) } last due hmode
    refine ⟨_, _, _, rfl, .tail (.single hwait) hmove, ?_, rfl, .inl rfl, ?_, le_rfl⟩
    · exact simulates_of_nil (On.pending_cancelEvents (a := b) hon) hneither hmax huid hsame.now
        hres hsocket htot rfl
    · simp [onDuring, hon.isOn, Step.time, h.now]

/-- Behind `ScheduleNextTx` and another call that is pending, there is an on period. -/
lemma simulates_sending (hP : P.Bounded) {b a' : OnOffTimers} {s : CbrSource.State} {ev' : EventId}
    (hphase : b.phase = .running) (hnow : b.sim.now = s.now) (hres : b.residualBits = s.residual)
    (hle : s.residual ≤ P.pktSize * 8) (hlast : b.lastStartTime = s.now)
    (hstarted : b.socket = true ∧ b.cbrRateFailSafe = P.cbrRate)
    (htot : P.maxBytes ≠ 0 → b.totBytes = s.sent * P.pktSize) (hmax : ¬P.Exhausted s.sent)
    (hmode : s.mode = .sending s.now (s.now + P.txTime (P.pktSize * 8 - s.residual)))
    (ha' : ∃ sim startStopEvent, a' =
      { b with
        sim := sim
        startStopEvent := startStopEvent
        sendEvent := some (b.sim.nextId (P.txTime (b.bits P))) })
    (hevent : a'.startStopEvent = some ev')
    (hsim : a'.sim.now = b.sim.now ∧ b.sim.nextUid < a'.sim.nextUid ∧ a'.sim.Punctual)
    (hpending : a'.sim.pending.Perm
      [(b.sim.nextId (P.txTime (b.bits P)), .sendPacket), (ev', .stopSending)]) :
    Simulates P a' s := by
  obtain ⟨sim, startStopEvent, rfl⟩ := ha'
  have hbits : b.bits P = P.pktSize * 8 - s.residual := by
    rw [← hres] at hle ⊢
    exact bits_eq hP hle
  exact {
    now := hsim.1.trans hnow
    residual := hres
    uid_lt := by
      rintro _ ⟨⟩
      exact hsim.2.1
    punctual := hsim.2.2
    started := fun _ => hstarted
    created := fun h => nomatch hphase.symm.trans h
    totBytes := htot
    paused := fun h => nomatch hmode.symm.trans h
    sending := by
      intro last due h
      obtain ⟨rfl, rfl⟩ := CbrSource.Mode.sending.inj (hmode.symm.trans h)
      refine ⟨hphase, hmax, hlast, _, ev', rfl, hevent, ?_, hpending⟩
      rw [← hnow, ← hbits]
      rfl }

/-- `StartSending` resumes the source. -/
lemma stepped_startSending (hP : P.Bounded) {a : OnOffTimers} {s : CbrSource.State}
    (h : Simulates P a s) (hacc : CbrSource.Accounted P.source s) {ev : EventId} {onInterval : ℕ}
    (hen : Enabled (.ok a) (.startSending ev onInterval)) :
    ∃ a' evs s', Stepped P a (.startSending ev onInterval) s a' evs s' := by
  have hnext : a.sim.IsNext ev .startSending := hen
  obtain ⟨hmode, hphase, hmax, hoff⟩ := h.off_of_isNext hnext
  have hexpire := hoff.expire hnext
  let b : OnOffTimers := { a with sim := a.sim.expire ev, lastStartTime := ev.time }
  have hstep : step P (.ok a) (.startSending ev onInterval) =
      (.ok ((b.scheduleNextTx P).scheduleStopEvent onInterval), []) := rfl
  rw [scheduleNextTx_of_lt (a := b) ((lt_iff_not_exhausted h.totBytes).mpr hmax)] at hstep
  have hrest := CbrSource.Move.rest (C := P.source) s ev.time hmode
    (h.now ▸ h.punctual.le_of_isNext hnext)
  have hresume := CbrSource.Move.resume (C := P.source) { s with now := ev.time } hmode
  refine ⟨_, _, _, hstep, .tail (.single hrest) hresume, ?_, rfl, .inl rfl, ?_, le_rfl⟩
  · refine simulates_sending hP (b := b) hphase rfl h.residual hacc.residual_le rfl
      (h.started (by rw [hphase]; decide)) h.totBytes hmax rfl ⟨_, _, rfl⟩ rfl ⟨rfl, ?_, ?_⟩ ?_
    · exact (Nat.lt_succ_self b.sim.nextUid).trans (Nat.lt_succ_self _)
    · exact ((Agenda.punctual_of_nil hexpire).schedule _ _).schedule _ _
    · rw [scheduleStopEvent, Agenda.pending_schedule, Agenda.pending_schedule]
      have hb : b.sim.pending = [] := hexpire
      rw [hb, List.nil_append]
      exact List.Perm.refl _
  · simp [onDuring, hoff.isOn]

/-- `StopSending` interrupts the source. -/
lemma stepped_stopSending (hP : P.Bounded) (htrunc : P.source.Truncates) {a : OnOffTimers}
    {s : CbrSource.State} (h : Simulates P a s) (hacc : CbrSource.Accounted P.source s)
    {ev : EventId} {offInterval : ℕ} (hen : Enabled (.ok a) (.stopSending ev offInterval)) :
    ∃ a' evs s', Stepped P a (.stopSending ev offInterval) s a' evs s' := by
  have hnext : a.sim.IsNext ev .stopSending := hen
  obtain ⟨last, due, hmode⟩ := exists_sending_of_isNext h hnext (by decide)
  obtain ⟨hphase, hmax, hlast, hon⟩ := h.sending last due hmode
  have hstarted := h.started (by rw [hphase]; decide)
  let b : OnOffTimers := { a with sim := a.sim.expire ev }
  have hsame : SameButCanceled b (b.cancelEvents P) := sameButCanceled_cancelEvents b
  -- the packet that is waited for is the only pending call
  obtain ⟨e, hsend, hexpire⟩ := hon.expire_stopSending hnext
  have hrunning : b.sim.IsRunning b.sendEvent :=
    ⟨(e, .sendPacket), by rw [hexpire]; exact List.mem_singleton_self _, hsend⟩
  have hnil : (b.cancelEvents P).sim.pending = [] :=
    pending_cancelEvents_of_sendPacket hsend hexpire
  have hwait := moves_wait h hmode (h.punctual.le_of_isNext hnext) fun _ he => hnext.le he
  have hmove := CbrSource.Move.interrupt (C := P.source)
    { s with now := ev.time, onTime := s.onTime + (ev.time - s.now) } last due hmode
  have hres := residualBits_interrupt (b := b) hP htrunc (hacc.move htrunc hwait) hmode rfl
    h.residual hlast hstarted.2 hrunning
  refine ⟨_, _, _, rfl, .tail (.single hwait) hmove, ?_, rfl, .inl rfl, ?_, le_rfl⟩
  · refine simulates_scheduleStartEvent (b := b.cancelEvents P) hnil (hsame.phase.trans hphase) ?_
      hsame.now hres ⟨hsame.socket.trans hstarted.1, rfl⟩ ?_ ?_ rfl offInterval
    · rw [hsame.sendEvent, hsame.nextUid]
      exact h.uid_lt
    · rw [hsame.totBytes]
      exact h.totBytes
    · exact hmax
  · simp [onDuring, hon.isOn, Step.time, h.now]

/-- The bytes of one more packet are counted. -/
lemma totBytes_succ (hP : P.Bounded) {tot n : ℕ} (htot : P.maxBytes ≠ 0 → tot = n * P.pktSize)
    (hmax : ¬P.Exhausted n) (hne : P.maxBytes ≠ 0) :
    u64 ((tot : ℤ) + P.pktSize) = (n + 1) * P.pktSize := by
  have hlt : n * P.pktSize < P.maxBytes := not_le.mp fun hle => hmax ⟨hne, hle⟩
  have hbytes := hP.bytes_lt
  rw [htot hne, ← Nat.cast_add, u64_of_lt (by omega), Nat.succ_mul]

/-- The packet that an execution of `SendPacket` sends. -/
def nextPacket (P : OnOffParams) (a : OnOffTimers) (ev : EventId) :
    MeshSimOnOffApplication × Packet :=
  ({ a with sim := a.sim.expire ev }.untimed P).createPacket

/-- The application behind a packet that is sent, in front of `ScheduleNextTx`. -/
def afterPacket (P : OnOffParams) (a : OnOffTimers) (ev : EventId) : OnOffTimers :=
  { a with
    sim := a.sim.expire ev
    seqNumber := (a.nextPacket P ev).1.seqNumber
    totBytes := u64 (a.totBytes + P.pktSize)
    lastStartTime := ev.time
    residualBits := 0 }

/-- When `SendPacket` is executed, its event is expired. -/
lemma not_isRunning_expire {a : OnOffTimers} {due : ℕ} (hon : On a due) {ev : EventId}
    (hnext : a.sim.IsNext ev .sendPacket) : ¬(a.sim.expire ev).IsRunning a.sendEvent := by
  obtain ⟨-, hsend, e', hne, -, hexpire⟩ := hon.expire_sendPacket hnext
  refine Agenda.not_isRunning_of_forall_ne fun e he => ?_
  rw [hexpire, List.mem_singleton] at he
  rw [he, hsend]
  exact fun heq => hne (Option.some.inj heq)

/-- In an on period, `SendPacket` sends a packet. -/
lemma step_sendPacket {a : OnOffTimers} {due : ℕ} (hon : On a due) (hsocket : a.socket = true)
    {ev : EventId} (hnext : a.sim.IsNext ev .sendPacket) :
    step P (.ok a) (.sendPacket ev) =
      (.ok ((a.afterPacket P ev).scheduleNextTx P), [.send ev.time (a.nextPacket P ev).2]) := by
  rw [step, sendPacket, if_neg (not_isRunning_expire hon hnext), if_pos hsocket]
  rfl

/-- `SendPacket` is a move of the source, which goes on while the byte limit is not reached. -/
lemma stepped_sendPacket (hP : P.Bounded) {a : OnOffTimers} {s : CbrSource.State}
    (h : Simulates P a s) {ev : EventId} (hen : Enabled (.ok a) (.sendPacket ev)) :
    ∃ a' evs s', Stepped P a (.sendPacket ev) s a' evs s' := by
  have hnext : a.sim.IsNext ev .sendPacket := hen
  obtain ⟨last, due, hmode⟩ := exists_sending_of_isNext h hnext (by decide)
  obtain ⟨hphase, hmax, hlast, hon⟩ := h.sending last due hmode
  have hstarted := h.started (by rw [hphase]; decide)
  -- `StopSending` is the only pending call
  obtain ⟨hdue, hsend, e', hne, hstop, hexpire⟩ := hon.expire_sendPacket hnext
  have hnot := not_isRunning_expire hon hnext
  let b : OnOffTimers := a.afterPacket P ev
  have hstep : step P (.ok a) (.sendPacket ev) =
      (.ok (b.scheduleNextTx P), [.send ev.time (a.nextPacket P ev).2]) :=
    step_sendPacket hon hstarted.1 hnext
  have htot : P.maxBytes ≠ 0 → b.totBytes = (s.sent + 1) * P.pktSize :=
    totBytes_succ hP h.totBytes hmax
  have hwait := moves_wait h hmode (h.punctual.le_of_isNext hnext) fun _ he => hnext.le he
  subst hdue
  by_cases hmax' : P.Exhausted (s.sent + 1)
  · -- the byte limit is reached, and everything is canceled
    rw [scheduleNextTx_of_not fun hlt => (lt_iff_not_exhausted htot).mp hlt hmax'] at hstep
    have hsame : SameButCanceled b (b.cancelEvents P) := sameButCanceled_cancelEvents b
    have hnil : (b.cancelEvents P).sim.pending = [] :=
      pending_cancelEvents_of_stopSending hne hsend hstop hexpire
    have hres : (b.cancelEvents P).residualBits = 0 := residualBits_cancelEvents_of_not hnot
    have hmove := CbrSource.Move.finish (C := P.source)
      { s with now := ev.time, onTime := s.onTime + (ev.time - s.now) } last hmode
    refine ⟨_, _, _, hstep, .tail (.single hwait) hmove, ?_, rfl, .inr ⟨rfl, hmax⟩, ?_, le_rfl⟩
    · refine simulates_of_nil hnil ?_ (fun _ => hmax') ?_ hsame.now hres
        ⟨hsame.socket.trans hstarted.1, rfl⟩ ?_ rfl
      · have hb : b.phase = .running := hphase
        rw [hsame.phase, hb]
        decide
      · rw [hsame.sendEvent, hsame.nextUid]
        exact h.uid_lt
      · rw [hsame.totBytes]
        exact htot
    · simp [onDuring, hon.isOn, Step.time, h.now]
  · rw [scheduleNextTx_of_lt ((lt_iff_not_exhausted htot).mpr hmax')] at hstep
    have hmove := CbrSource.Move.send (C := P.source)
      { s with now := ev.time, onTime := s.onTime + (ev.time - s.now) } last hmode
    have hpunctual := (Agenda.Punctual.expire hnext).schedule (P.txTime (b.bits P)) .sendPacket
    refine ⟨_, _, _, hstep, .tail (.single hwait) hmove, ?_, rfl, .inr ⟨rfl, hmax⟩, ?_, le_rfl⟩
    · refine simulates_sending hP (b := b) hphase rfl rfl (Nat.zero_le _) rfl hstarted htot hmax'
        rfl ⟨_, _, rfl⟩ hstop ⟨rfl, Nat.lt_succ_self _, hpunctual⟩ ?_
      rw [Agenda.pending_schedule]
      have hb : b.sim.pending = [(e', .stopSending)] := hexpire
      rw [hb]
      exact List.Perm.swap _ _ _
    · simp [onDuring, hon.isOn, Step.time, h.now]

/-- **Every step of the application is one of the moves of the source.** -/
theorem simulates_step (hP : P.Bounded) (htrunc : P.source.Truncates) {a : OnOffTimers}
    {s : CbrSource.State} (h : Simulates P a s) (hacc : CbrSource.Accounted P.source s) {i : Step}
    (hen : Enabled (.ok a) i) : ∃ a' evs s', Stepped P a i s a' evs s' := by
  cases i with
  | startApplication t off => exact stepped_startApplication h hen
  | stopApplication t => exact stepped_stopApplication hP htrunc h hacc hen
  | startSending ev on => exact stepped_startSending hP h hacc hen
  | stopSending ev off => exact stepped_stopSending hP htrunc h hacc hen
  | sendPacket ev => exact stepped_sendPacket hP h hen

/-! ### Runs -/

/-- One more step lasts as long as it takes while the application is on. -/
lemma onTime_concat (steps : List Step) (i : Step) :
    onTime P (steps ++ [i]) = onTime P steps + onDuring ((run P steps).1, i) := by
  rw [onTime, Mealy.trace_concat, List.map_append, List.sum_append, List.map_singleton,
    List.sum_singleton]
  rfl

/-- What is known of a run: no fault ends it, and it stands for a reachable state of the source. -/
structure Simulated (P : OnOffParams) (steps : List Step) (a : OnOffTimers) (evs : List Event)
    (s : CbrSource.State) : Prop where
  /-- The source reaches the state. -/
  reachable : CbrSource.Reachable P.source s
  /-- The states are related. -/
  simulates : Simulates P a s
  /-- The packets sent are counted. -/
  sent : s.sent = evs.length
  /-- The time in on periods is counted. -/
  onTime : s.onTime = onTime P steps
  /-- The interruptions are counted. -/
  interruptions : s.interruptions ≤ steps.countP Step.interrupts
  /-- The byte limit is exceeded by less than a packet. -/
  bytes_lt : P.maxBytes ≠ 0 → evs.length * P.pktSize < P.maxBytes + P.pktSize

/-- One more step of a run. -/
lemma Simulated.step (hP : P.Bounded) (htrunc : P.source.Truncates) {steps : List Step} {i : Step}
    {a : OnOffTimers} {evs : List Event} {s : CbrSource.State} (h : Simulated P steps a evs s)
    (hrun : (run P steps).1 = .ok a) (hen : Enabled (.ok a) i) :
    ∃ a' evs' s', OnOffTimers.step P (.ok a) i = (.ok a', evs') ∧
      Simulated P (steps ++ [i]) a' (evs ++ evs') s' ∧
      (evs' = [] ∨ ¬P.Exhausted evs.length) := by
  obtain ⟨a', evs', s', hstep⟩ := simulates_step hP htrunc h.simulates
    (h.reachable.accounted htrunc) hen
  have hreachable := h.reachable.trans hstep.moves
  refine ⟨a', evs', s', hstep.step, ⟨hreachable, hstep.simulates, ?_, ?_, ?_, ?_⟩, ?_⟩
  · rw [hstep.sent, h.sent, List.length_append]
  · rw [hstep.onTime, h.onTime, onTime_concat, hrun]
  · rw [List.countP_append, List.countP_singleton]
    exact hstep.interruptions.trans (Nat.add_le_add_right h.interruptions _)
  · intro hmax
    rw [List.length_append]
    rcases hstep.sends with rfl | ⟨hone, hnot⟩
    · exact h.bytes_lt hmax
    · have hlt : evs.length * P.pktSize < P.maxBytes := by
        rw [h.sent] at hnot
        exact not_le.mp fun hle => hnot ⟨hmax, hle⟩
      rw [hone, Nat.succ_mul]
      exact Nat.add_lt_add_right hlt _
  · rcases hstep.sends with rfl | ⟨-, hnot⟩
    · exact Or.inl rfl
    · rw [h.sent] at hnot
      exact Or.inr hnot

/-- **Every run of the application is a run of the source.** -/
theorem simulated_run (hP : P.Bounded) (htrunc : P.source.Truncates) {steps : List Step}
    (hf : Feasible P steps) :
    ∃ a evs s, run P steps = (.ok a, evs) ∧ Simulated P steps a evs s := by
  have hinv := Mealy.Feasible.run_invariant hf
    (I := fun is st evs => ∃ a s, st = .ok a ∧ Simulated P is a evs s) ?_ ?_
  · obtain ⟨a, s, ha, hs⟩ := hinv
    exact ⟨a, _, s, Prod.ext ha rfl, hs⟩
  · refine ⟨init, CbrSource.start, rfl, .refl, simulates_init, rfl, rfl, le_rfl, fun hmax => ?_⟩
    rw [List.length_nil, Nat.zero_mul]
    exact Nat.add_pos_left (Nat.pos_of_ne_zero hmax) _
  · rintro is i - hen ⟨a, s, ha, hs⟩
    have hrun : (run P is).1 = .ok a := ha
    rw [ha] at hen ⊢
    obtain ⟨a', evs', s', hstep, hs', -⟩ := hs.step hP htrunc hrun hen
    rw [hstep]
    exact ⟨a', s', rfl, hs'⟩

/-- **The timers of a streaming sender.** No run ends with a fault.  Between `StartApplication` and
`StopApplication`, while the byte limit is not reached, there is either an off period, in which
`StartSending` is the only pending call, or an on period, in which one `SendPacket` and one
`StopSending` are pending; otherwise nothing is pending.  The residual bits are never more than
those of a packet, so that the subtraction in `ScheduleNextTx` does not wrap around. -/
theorem timers_run (hP : P.Bounded) (htrunc : P.source.Truncates) {steps : List Step}
    (hf : Feasible P steps) :
    ∃ a evs, run P steps = (.ok a, evs) ∧
      (a.phase = .running → ¬P.Exhausted evs.length → Off a ∨ ∃ due, On a due) ∧
      (a.phase ≠ .running ∨ P.Exhausted evs.length → a.sim.pending = []) ∧
      a.residualBits ≤ P.pktSize * 8 := by
  obtain ⟨a, evs, s, hrun, h⟩ := simulated_run hP htrunc hf
  have hsim := h.simulates
  refine ⟨a, evs, hrun, ?_⟩
  rw [← h.sent]
  refine ⟨fun hphase hmax => ?_, fun hor => ?_, ?_⟩
  · cases hmode : s.mode with
    | paused =>
      rcases hsim.paused hmode with ⟨-, -, hoff⟩ | ⟨-, hexhausted⟩
      · exact Or.inl hoff
      · exact absurd (hexhausted hphase) hmax
    | sending last due => exact Or.inr ⟨due, (hsim.sending last due hmode).2.2.2⟩
  · cases hmode : s.mode with
    | paused =>
      rcases hsim.paused hmode with ⟨hphase, hmax, -⟩ | ⟨hnil, -⟩
      · exact absurd hor (not_or.mpr ⟨not_not.mpr hphase, hmax⟩)
      · exact hnil
    | sending last due =>
      obtain ⟨hphase, hmax, -⟩ := hsim.sending last due hmode
      exact absurd hor (not_or.mpr ⟨not_not.mpr hphase, hmax⟩)
  · rw [hsim.residual]
    exact (h.reachable.accounted htrunc).residual_le

/-- The example of the documentation. -/
theorem timers_run_documented :
    ∃ a evs, run (documented 0) documentedSteps = (.ok a, evs) ∧
      (a.phase = .running → ¬(documented 0).Exhausted evs.length → Off a ∨ ∃ due, On a due) ∧
      (a.phase ≠ .running ∨ (documented 0).Exhausted evs.length → a.sim.pending = []) ∧
      a.residualBits ≤ 125 * 8 :=
  timers_run (bounded_documented (by decide)) (truncates_documented 0)
    (show Feasible (documented 0) documentedSteps by decide +kernel)

/-- **The rate of a streaming sender.** In every run the packets sent take at most the time of the
on periods at the configured rate, but for a nanosecond each; and the time of the on periods went
into these packets, but for the one that is waited for and a bit at the end of each period. -/
theorem rate_run (hP : P.Bounded) (htrunc : P.source.Truncates) {steps : List Step}
    (hf : Feasible P steps) :
    let sent := (run P steps).2.length
    sent * (P.pktSize * 8) * 10 ^ 9 ≤ (onTime P steps + sent) * P.cbrRate ∧
      onTime P steps * P.cbrRate ≤
        ((sent + 1) * (P.pktSize * 8) + steps.countP Step.interrupts) * 10 ^ 9 := by
  obtain ⟨a, evs, s, hrun, h⟩ := simulated_run hP htrunc hf
  rw [hrun]
  dsimp only
  have hupper := h.reachable.sent_le htrunc
  have hlower := h.reachable.le_sent htrunc
  rw [← h.onTime, ← h.sent]
  refine ⟨hupper, hlower.trans ?_⟩
  gcongr
  · exact le_rfl
  · exact h.interruptions

/-- The example of the documentation: two seconds of on periods, and a packet that takes them. -/
theorem rate_run_documented :
    1 * (125 * 8) * 10 ^ 9 ≤ (2000000000 + 1) * 500 ∧
      2000000000 * 500 ≤ ((1 + 1) * (125 * 8) + 1) * 10 ^ 9 := by
  have hsent : (run (documented 0) documentedSteps).2.length = 1 := by decide +kernel
  have htime : onTime (documented 0) documentedSteps = 2000000000 := by decide +kernel
  have hcount : documentedSteps.countP Step.interrupts = 1 := by decide +kernel
  have hrate := rate_run (bounded_documented (by decide)) (truncates_documented 0)
    (show Feasible (documented 0) documentedSteps by decide +kernel)
  rw [hsent, htime, hcount] at hrate
  exact hrate

/-- Behind the byte limit nothing is sent any longer. -/
lemma silent_of_exhausted (hP : P.Bounded) (htrunc : P.source.Truncates) {steps more : List Step}
    (hf : Feasible P (steps ++ more)) (h : P.Exhausted (run P steps).2.length) :
    (run P (steps ++ more)).2 = (run P steps).2 := by
  induction more using List.reverseRecOn with
  | nil => rw [List.append_nil]
  | append_singleton more i ih =>
    rw [← List.append_assoc] at hf ⊢
    obtain ⟨hbefore, hen⟩ := (Mealy.feasible_concat_iff _).mp hf
    have hsame := ih hbefore
    obtain ⟨a, evs, s, hrun, hs⟩ := simulated_run hP htrunc hbefore
    have hst : (run P (steps ++ more)).1 = .ok a := congrArg Prod.fst hrun
    have hen' : Enabled (.ok a) i := by
      have hst' : (Mealy.run (step P) (.ok init) (steps ++ more)).1 = .ok a := hst
      rwa [hst'] at hen
    obtain ⟨a', evs', s', hstep, -, hsilent⟩ := hs.step hP htrunc hst hen'
    have hnil : evs' = [] := by
      rcases hsilent with hnil | hnot
      · exact hnil
      · rw [hrun] at hsame
        rw [← hsame] at h
        exact absurd h hnot
    have hconcat : (run P (steps ++ more ++ [i])).2 = (run P (steps ++ more)).2 ++ evs' := by
      unfold run at hst ⊢
      rw [Mealy.run_concat, hst, hstep]
    rw [hconcat, hnil, List.append_nil, hsame]

/-- **The byte limit of a streaming sender.** In every run with a byte limit the packets sent exceed
it by less than a packet, and once they have reached it nothing is sent any longer, however the run
continues. -/
theorem maxBytes_run (hP : P.Bounded) (htrunc : P.source.Truncates) (hmax : P.maxBytes ≠ 0)
    {steps more : List Step} (hf : Feasible P (steps ++ more)) :
    (run P steps).2.length * P.pktSize < P.maxBytes + P.pktSize ∧
      (P.maxBytes ≤ (run P steps).2.length * P.pktSize →
        (run P (steps ++ more)).2 = (run P steps).2) := by
  obtain ⟨a, evs, s, hrun, h⟩ :=
    simulated_run hP htrunc (Mealy.Feasible.of_isPrefix hf (List.prefix_append _ _))
  refine ⟨?_, fun hle => silent_of_exhausted hP htrunc hf ⟨hmax, hle⟩⟩
  rw [hrun]
  exact h.bytes_lt hmax

/-- The example of the documentation with a limit of one packet, and `StopApplication` behind it. -/
theorem maxBytes_run_documented :
    (run (documented 100) documentedSteps).2.length * 125 < 100 + 125 ∧
      (100 ≤ (run (documented 100) documentedSteps).2.length * 125 →
        (run (documented 100) (documentedSteps ++ [.stopApplication 8000000000])).2 =
          (run (documented 100) documentedSteps).2) :=
  maxBytes_run (bounded_documented (by decide)) (truncates_documented 100) (by decide)
    (show Feasible (documented 100) (documentedSteps ++ [.stopApplication 8000000000]) by
      decide +kernel)

end OnOffTimers

end MeshSim
