import MeshSim.Proxy.Forwarding
import MeshSim.Rq.EncoderApplication

/-!
# Stopping

What the proxies send after `StopApplication`.  The base class closes the sockets and knows nothing
of the events that the subclasses have scheduled, so the timers expire as before.  The encoder then
finds no socket to read from, but needs none for a repair packet; the timed proxy empties its store.
Hence the encoder is quiet exactly when it is stopped among the source symbols of a block, and the
timed proxy exactly when it is stopped with an empty store.
-/

namespace MeshSim

/-! ### The encoder -/

namespace RqEncoder

variable {n : ℕ}

/-- Without a socket to read from, no slot is readable and nothing happens among the source symbols
of a block. -/
lemma sendPacket_of_no_socket (P : RqParams) {e : RqEncoder n} {c : SendCall n}
    (hsock : ∀ slot, c.rxAvailable slot = none) (hesi : e.esi < P.kval) :
    ∃ next, sendPacket P e c = ({ e with nextRxSlot := next }, []) := by
  have hread : ∀ slot, readable P c slot = false := by
    intro slot
    unfold readable
    rw [hsock slot]
  unfold sendPacket
  split
  · exact ⟨e.nextRxSlot, rfl⟩
  · rcases scan_spec (readable P c) e.nextRxSlot n e.nextRxSlot (distance_le _ _) with
      ⟨slot, hslot, -⟩ | hscan
    · rw [hread slot] at hslot
      cases hslot
    · rw [hscan]
      exact ⟨e.nextRxSlot, rfl⟩

/-- Behind the source symbols of a block a repair packet is sent, when there is room. -/
lemma sent_sendPacket_of_kval_le (P : RqParams) {e : RqEncoder n} {c : SendCall n}
    (hroom : MachineInt.u32 (P.tval + RqHeader.minSerializedSize + n * 4) ≤ c.txAvailable)
    (hesi : P.kval ≤ e.esi) : (sendPacket P e c).2.filterMap Event.sent? ≠ [] := by
  unfold sendPacket
  rw [if_neg (not_lt.mpr hroom), if_neg (not_lt.mpr hesi)]
  unfold sendCreated
  dsimp only
  split <;> exact List.cons_ne_nil _ _

end RqEncoder

namespace RqEncoderApplication

variable {n : ℕ}

/-- From a state on, no packet is handed to the TX socket, and the symbol and block counters and the
bytes sent stay what they are. -/
def Quiet (P : RqParams) (nextTime : ℕ) (a : RqEncoderApplication n) : Prop :=
  ∀ rest, Mealy.Feasible (step P nextTime) Enabled a rest →
    (Mealy.run (step P nextTime) a rest).2.filterMap RqEncoder.Event.sent? = [] ∧
      (Mealy.run (step P nextTime) a rest).1.encoder.esi = a.encoder.esi ∧
      (Mealy.run (step P nextTime) a rest).1.encoder.sbid = a.encoder.sbid ∧
      (Mealy.run (step P nextTime) a rest).1.encoder.txTotal = a.encoder.txTotal

/-- A stopped encoder without sockets that has moved on in its round robin only. -/
structure Silenced (a a' : RqEncoderApplication n) : Prop where
  /-- The application is stopped. -/
  phase : a'.phase = .stopped
  /-- There is no socket. -/
  acceptedSocks : ∀ slot, a'.acceptedSocks slot = []
  /-- The encoder is the same but for the slot to probe next. -/
  encoder : ∃ next, a'.encoder = { a.encoder with nextRxSlot := next }

/-- A silenced encoder stays silenced and sends nothing, among the source symbols of a block. -/
lemma Silenced.step (P : RqParams) (nextTime : ℕ) {a a' : RqEncoderApplication n}
    (h : Silenced a a') (hesi : a.encoder.esi < P.kval) {i : Step n} (henabled : Enabled a' i) :
    Silenced a (step P nextTime a' i).1 ∧ (RqEncoderApplication.step P nextTime a' i).2 = [] := by
  have hphase := h.phase
  cases i with
  | startApplication t answers => exact absurd (hphase.symm.trans henabled.1) (by decide)
  | handleAccept t slot sock => exact absurd (hphase.symm.trans henabled.1) (by decide)
  | stopApplication t => exact absurd (hphase.symm.trans henabled.1) (by decide)
  | sendPacket ev answers =>
    obtain ⟨next, hencoder⟩ := h.encoder
    obtain ⟨next', hsend⟩ := RqEncoder.sendPacket_of_no_socket P (e := a'.encoder)
      (c := sendCall { a' with sim := a'.sim.expire ev } answers)
      (fun slot => by simp [sendCall, h.acceptedSocks slot]) (by rw [hencoder]; exact hesi)
    have hstep : RqEncoderApplication.step P nextTime a' (.sendPacket ev answers) =
        ({ a' with
          sim := (a'.sim.expire ev).schedule nextTime
          encoder := { a'.encoder with nextRxSlot := next' } }, []) := by
      change ({ a' with sim := _, encoder := _ }, _) = _
      rw [hsend]
    rw [hstep]
    exact ⟨⟨hphase, h.acceptedSocks, next', by rw [hencoder]⟩, rfl⟩

/-- An encoder that is stopped among the source symbols of a block is quiet. -/
theorem quiet_of_lt (P : RqParams) (nextTime : ℕ) {a : RqEncoderApplication n}
    (hphase : a.phase = .stopped) (hsocks : ∀ slot, a.acceptedSocks slot = [])
    (hesi : a.encoder.esi < P.kval) : Quiet P nextTime a := by
  intro rest hrest
  have hinv := Mealy.Feasible.run_invariant hrest
    (I := fun _ a' evs => Silenced a a' ∧ evs = [])
    ⟨⟨hphase, hsocks, a.encoder.nextRxSlot, rfl⟩, rfl⟩ ?_
  · obtain ⟨⟨-, -, next, hencoder⟩, hevs⟩ := hinv
    rw [hevs, hencoder]
    exact ⟨rfl, rfl, rfl, rfl⟩
  · rintro is i - henabled ⟨hsilenced, hevs⟩
    obtain ⟨hsilenced', hevs'⟩ := hsilenced.step P nextTime hesi henabled
    exact ⟨hsilenced', by rw [hevs, hevs', List.append_nil]⟩

/-- Answers that leave room for every packet. -/
def roomy : SocketAnswers where
  txAvailable := 2 ^ 32 - 1
  rxAvailable := fun _ => 0
  recv := fun _ => []

/-- An encoder with a pending timer that is stopped behind the source symbols of a block is not
quiet. -/
theorem not_quiet_of_le (P : RqParams) (nextTime : ℕ) {a : RqEncoderApplication n} {ev : EventId}
    (hpending : a.sim.pending = [ev]) (hesi : P.kval ≤ a.encoder.esi) : ¬ Quiet P nextTime a := by
  intro hquiet
  have hnext : a.sim.IsNext ev := by
    unfold EventQueue.IsNext
    simp [hpending]
  have hfeasible : Mealy.Feasible (step P nextTime) Enabled a [.sendPacket ev roomy] := by
    rw [Mealy.feasible_cons_iff]
    exact ⟨hnext, Mealy.feasible_nil _ _ _⟩
  obtain ⟨hsent, -⟩ := hquiet _ hfeasible
  refine RqEncoder.sent_sendPacket_of_kval_le P
    (c := sendCall { a with sim := a.sim.expire ev } roomy) ?_ hesi ?_
  · have hlt := MachineInt.u32_lt (P.tval + RqHeader.minSerializedSize + n * 4)
    exact Nat.le_pred_of_lt hlt
  · simpa [Mealy.run_cons, step, sendPacket] using hsent

/-- **When a stopped encoder is quiet**: exactly when it is stopped among the source symbols of a
block. -/
theorem quiet_iff (P : RqParams) (nextTime : ℕ) [NeZero n] {steps : List (Step n)} {t : ℕ}
    (hf : Feasible P nextTime (steps ++ [.stopApplication t])) :
    Quiet P nextTime (run P nextTime (steps ++ [.stopApplication t])).1 ↔
      (run P nextTime steps).1.encoder.esi < P.kval := by
  obtain ⟨hsteps, henabled⟩ := (Mealy.feasible_concat_iff _).mp hf
  have hstop : (run P nextTime (steps ++ [.stopApplication t])).1 =
      (step P nextTime (run P nextTime steps).1 (.stopApplication t)).1 := by
    unfold run
    rw [Mealy.run_concat]
  rw [hstop]
  constructor
  · intro hquiet
    by_contra hesi
    have hphase : (run P nextTime steps).1.phase ≠ .created := by
      have hrunning : (run P nextTime steps).1.phase = .running := henabled.1
      rw [hrunning]
      decide
    obtain ⟨ev, hpending⟩ := exists_pending_eq P nextTime hsteps hphase
    exact not_quiet_of_le P nextTime
      (a := (step P nextTime (run P nextTime steps).1 (.stopApplication t)).1) hpending
      (not_lt.mp hesi) hquiet
  · intro hesi
    exact quiet_of_lt P nextTime rfl (fun _ => rfl) hesi

end RqEncoderApplication

/-! ### The timed proxy -/

namespace TimedProxy

variable {P : TimedProxyParams}

/-- From a state on, no packet is handed to the TX socket, and the bytes sent stay what they are. -/
def Quiet (P : TimedProxyParams) (p : TimedProxy) : Prop :=
  ∀ rest, Mealy.Feasible (step P) Enabled (.ok p) rest →
    sends (Mealy.run (step P) (.ok p) rest).2 = [] ∧
      ∀ p', (Mealy.run (step P) (.ok p) rest).1 = .ok p' → p'.txTotal = p.txTotal

/-- Nothing can happen to a stopped proxy without a timer. -/
lemma quiet_of_pending_eq_nil {p : TimedProxy} (hphase : p.phase = .stopped)
    (hpending : p.sim.pending = []) : Quiet P p := by
  intro rest hrest
  cases rest with
  | nil =>
    refine ⟨rfl, ?_⟩
    rintro p' ⟨⟩
    rfl
  | cons i rest =>
    obtain ⟨henabled, -⟩ := (Mealy.feasible_cons_iff _).mp hrest
    cases i with
    | startApplication t => exact absurd (hphase.symm.trans henabled.1) (by decide)
    | handleRead t slot packets => exact absurd (hphase.symm.trans henabled.1) (by decide)
    | stopApplication t => exact absurd (hphase.symm.trans henabled.1) (by decide)
    | sendNextPacket ev =>
      have hmem := henabled.1
      rw [hpending] at hmem
      exact absurd hmem List.not_mem_nil

/-- A timer with a packet to send sends it, whatever comes next. -/
lemma not_quiet_of_pending {p : TimedProxy} {ev : EventId} (hpending : p.sim.pending = [ev])
    (hstore : p.packetStore ≠ []) : ¬ Quiet P p := by
  intro hquiet
  have hnext : p.sim.IsNext ev := by
    unfold EventQueue.IsNext
    simp [hpending]
  have hfeasible : Mealy.Feasible (step P) Enabled (.ok p) [.sendNextPacket ev] := by
    rw [Mealy.feasible_cons_iff]
    exact ⟨hnext, Mealy.feasible_nil _ _ _⟩
  obtain ⟨hsends, -⟩ := hquiet _ hfeasible
  have hexpired : (p.sim.expire ev).IsExpired p.sendEv :=
    EventQueue.isExpired_of_pending_eq_nil (EventQueue.pending_expire_of_singleton hpending) _
  obtain ⟨packet, rest, hcons⟩ := List.exists_cons_of_ne_nil hstore
  obtain ⟨s, hsend⟩ := sendNextPacket_eq (P := P) (p := { p with sim := p.sim.expire ev }) hexpired
    hcons
  rw [Mealy.run_cons, Mealy.run_nil, List.append_nil] at hsends
  change sends (sendNextPacket P { p with sim := p.sim.expire ev }).2 = [] at hsends
  rw [hsend] at hsends
  exact List.cons_ne_nil _ _ hsends

/-- **When a stopped proxy is quiet**: exactly when it is stopped with an empty store. -/
theorem quiet_iff {steps : List Step} {t : ℕ} (hf : Feasible P (steps ++ [.stopApplication t]))
    {p : TimedProxy} {evs : List Event}
    (hrun : run P (steps ++ [.stopApplication t]) = (.ok p, evs)) :
    Quiet P p ↔ p.packetStore = [] := by
  have hphase : p.phase = .stopped := by
    obtain ⟨p₀, _, _, -, ht⟩ := exists_transition hf hrun
    cases ht
    rfl
  rcases oneTimer_run hf hrun with ⟨hnil, hpending⟩ | ⟨hne, ev, hpending⟩
  · exact iff_of_true (quiet_of_pending_eq_nil hphase hpending) hnil
  · exact iff_of_false (not_quiet_of_pending hpending hne) hne

end TimedProxy

/-! ### Both -/

/-- **When nothing is sent after the stop.**  An encoder that is stopped at any point of any run
sends nothing afterwards, and leaves its counters, exactly when it is stopped among the source
symbols of a block (`RqEncoderApplication.quiet_iff`); a timed proxy sends nothing afterwards
exactly when it is stopped with an empty store (`TimedProxy.quiet_iff`). -/
theorem quiet_after_stop_iff (n : ℕ) [NeZero n] :
    (∀ (P : RqParams) (nextTime : ℕ) (steps : List (RqEncoderApplication.Step n)) (t : ℕ),
      RqEncoderApplication.Feasible P nextTime (steps ++ [.stopApplication t]) →
      (RqEncoderApplication.Quiet P nextTime
          (RqEncoderApplication.run P nextTime (steps ++ [.stopApplication t])).1 ↔
        (RqEncoderApplication.run P nextTime steps).1.encoder.esi < P.kval)) ∧
    ∀ (P : TimedProxyParams) (steps : List TimedProxy.Step) (t : ℕ) (p : TimedProxy)
      (evs : List TimedProxy.Event), TimedProxy.Feasible P (steps ++ [.stopApplication t]) →
      TimedProxy.run P (steps ++ [.stopApplication t]) = (.ok p, evs) →
      (TimedProxy.Quiet P p ↔ p.packetStore = []) := by
  constructor
  · intro P nextTime steps t hf
    exact RqEncoderApplication.quiet_iff P nextTime hf
  · intro P steps t p evs hf hrun
    exact TimedProxy.quiet_iff hf hrun

/-- One source symbol and one repair symbol a block, of one byte each. -/
def onePlusOne : RqParams where
  kval := 1
  nval := 2
  tval := 1

/-- Sockets that leave room for every packet and hold a symbol. -/
def symbolReady : RqEncoderApplication.SocketAnswers where
  txAvailable := 2 ^ 32 - 1
  rxAvailable := fun _ => 1
  recv := fun _ => [7]

/-- The encoder accepts a connection and sends the source symbol of its first block. -/
def sourceSent : List (RqEncoderApplication.Step 1) :=
  [.startApplication 0 symbolReady, .handleAccept 3 0 0, .sendPacket ⟨10, 0⟩ symbolReady]

/-- The timed proxy receives two packets and sends the first. -/
def firstSent : List TimedProxy.Step :=
  [.startApplication 0, .handleRead 0 0 [[1], [2]], .sendNextPacket ⟨0, 0⟩]

/-- Stopped before the source symbol, and behind the last packet, both are quiet. -/
theorem quiet_after_stop_iff_early :
    RqEncoderApplication.Quiet onePlusOne 10 (RqEncoderApplication.run onePlusOne 10
        ([.startApplication 0 symbolReady, .stopApplication 5] :
          List (RqEncoderApplication.Step 1))).1 ∧
      ∃ p evs, TimedProxy.run .defaults
          (firstSent ++ [.sendNextPacket ⟨0, 1⟩, .stopApplication 5]) = (.ok p, evs) ∧
        TimedProxy.Quiet .defaults p := by
  have hrun : TimedProxy.run .defaults
      ((firstSent ++ [.sendNextPacket ⟨0, 1⟩]) ++ [.stopApplication 5]) =
        (.ok _, _) := rfl
  obtain ⟨hencoder, hproxy⟩ := quiet_after_stop_iff 1
  refine ⟨(hencoder onePlusOne 10 [.startApplication 0 symbolReady] 5 ?_).mpr ?_, _, _, hrun,
    (hproxy .defaults _ 5 _ _ ?_ hrun).mpr rfl⟩
  · decide +kernel
  · decide +kernel
  · decide +kernel

/-- An encoder that is stopped behind the source symbol of a block goes on to send the repair
symbol, and a timed proxy that is stopped with a packet in its store goes on to send it. -/
theorem not_quiet_after_stop :
    (¬ ∀ (n : ℕ) [NeZero n] (P : RqParams) (nextTime : ℕ)
        (steps : List (RqEncoderApplication.Step n)) (t : ℕ),
        RqEncoderApplication.Feasible P nextTime (steps ++ [.stopApplication t]) →
        RqEncoderApplication.Quiet P nextTime
          (RqEncoderApplication.run P nextTime (steps ++ [.stopApplication t])).1) ∧
      ¬ ∀ (P : TimedProxyParams) (steps : List TimedProxy.Step) (t : ℕ) (p : TimedProxy)
        (evs : List TimedProxy.Event), TimedProxy.Feasible P (steps ++ [.stopApplication t]) →
        TimedProxy.run P (steps ++ [.stopApplication t]) = (.ok p, evs) → TimedProxy.Quiet P p := by
  constructor
  · intro hclaim
    have hquiet := hclaim 1 onePlusOne 10 sourceSent 15 (by decide +kernel)
      [.sendPacket ⟨20, 1⟩ symbolReady] (by decide +kernel)
    exact absurd (congrArg List.length hquiet.1) (by decide +kernel)
  · intro hclaim
    have hquiet := hclaim .defaults firstSent 0 _ _ (by decide +kernel) rfl
      [.sendNextPacket ⟨0, 1⟩] (by decide +kernel)
    exact absurd (congrArg List.length hquiet.1) (by decide +kernel)

end MeshSim
