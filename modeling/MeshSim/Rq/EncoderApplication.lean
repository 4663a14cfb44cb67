import MeshSim.Foundation.EventQueue
import MeshSim.Rq.Encoder

/-!
# The encoder and its timer

The encoder as an application of the simulation: the send timer that `SendPacket` schedules anew at
every expiry, the sockets accepted on the RX slots, and `StopApplication`, which `ns3_apps` has in
`proxy-base.cc` for every proxy.

A run is a sequence of steps, of which `StartApplication` and the expiries of the timer come with
the answers of the sockets.  `exists_run_encoder_eq` says that the encoder inside the application
does what it does by itself, along the same expiries.
-/

namespace MeshSim

variable {n : ℕ}

/-- `RqEncoder` with the members of `ProxyBase` it rests on, for `n` RX slots in use, and the events
it has scheduled. -/
structure RqEncoderApplication (n : ℕ) where
  /-- Whether the application is started and stopped. -/
  phase : Phase
  /-- The clock, and the pending `SendPacket` events. -/
  sim : EventQueue
  /-- `m_rxSlots[i].accepted_socks`, where sockets are numbered. -/
  acceptedSocks : Fin n → List ℕ
  /-- The members of `RqEncoder`. -/
  encoder : RqEncoder n

namespace RqEncoderApplication

/-- What the sockets answer. -/
structure SocketAnswers where
  /-- `m_txSlots[0].sock->GetTxAvailable ()`. -/
  txAvailable : ℕ
  /-- `GetRxAvailable ()` of an accepted socket. -/
  rxAvailable : ℕ → ℕ
  /-- What `Recv (m_rqtval, 0)` on an accepted socket returns. -/
  recv : ℕ → Packet

/-- The steps of a run. -/
inductive Step (n : ℕ) where
  /-- The simulator calls `StartApplication`. -/
  | startApplication (time : ℕ) (answers : SocketAnswers)
  /-- The listening socket of a slot calls `HandleAccept` with a new socket. -/
  | handleAccept (time : ℕ) (slot : Fin n) (sock : ℕ)
  /-- The simulator executes a scheduled `SendPacket`. -/
  | sendPacket (ev : EventId) (answers : SocketAnswers)
  /-- The simulator calls `StopApplication`. -/
  | stopApplication (time : ℕ)

/-- The application before it is started. -/
def init (n : ℕ) [NeZero n] : RqEncoderApplication n where
  phase := .created
  sim := .empty
  acceptedSocks := fun _ => []
  encoder := RqEncoder.init n

/-- The answers as the scan sees them, which addresses the first accepted socket of every slot. -/
def sendCall (a : RqEncoderApplication n) (answers : SocketAnswers) : SendCall n where
  txAvailable := answers.txAvailable
  rxAvailable := fun slot => (a.acceptedSocks slot).head?.map answers.rxAvailable
  recv := fun slot => match (a.acceptedSocks slot).head? with
    | none => []
    | some sock => answers.recv sock

/-- `SendPacket`, which schedules its next expiry before anything else.  The delay
`Seconds (m_rqtval * 8.0 / double (m_sendingRate.GetBitRate ()))` in nanoseconds is `nextTime`. -/
def sendPacket (P : RqParams) (nextTime : ℕ) (a : RqEncoderApplication n)
    (answers : SocketAnswers) : RqEncoderApplication n × List (RqEncoder.Event n) :=
  let r := a.encoder.sendPacket P (a.sendCall answers)
  ({ a with sim := a.sim.schedule nextTime, encoder := r.1 }, r.2)

/-- One step.  `StopApplication` closes the accepted sockets and forgets them. -/
def step (P : RqParams) (nextTime : ℕ) (a : RqEncoderApplication n) :
    Step n → RqEncoderApplication n × List (RqEncoder.Event n)
  | .startApplication t answers =>
    sendPacket P nextTime { a with phase := .running, sim := a.sim.advance t } answers
  | .handleAccept t slot sock =>
    ({ a with
      sim := a.sim.advance t
      acceptedSocks :=
        Function.update a.acceptedSocks slot (a.acceptedSocks slot ++ [sock]) }, [])
  | .sendPacket ev answers => sendPacket P nextTime { a with sim := a.sim.expire ev } answers
  | .stopApplication t =>
    ({ a with phase := .stopped, sim := a.sim.advance t, acceptedSocks := fun _ => [] }, [])

/-- What may happen next: the simulator starts and stops the application once and executes the
events in the order of their times, and connections are accepted while the sockets are open. -/
def Enabled (a : RqEncoderApplication n) : Step n → Prop
  | .startApplication t _ => a.phase = .created ∧ a.sim.Reaches t
  | .handleAccept t _ _ => a.phase = .running ∧ a.sim.Reaches t
  | .sendPacket ev _ => a.sim.IsNext ev
  | .stopApplication t => a.phase = .running ∧ a.sim.Reaches t

instance (a : RqEncoderApplication n) : (i : Step n) → Decidable (Enabled a i)
  | .startApplication t _ => inferInstanceAs (Decidable (a.phase = .created ∧ a.sim.Reaches t))
  | .handleAccept t _ _ => inferInstanceAs (Decidable (a.phase = .running ∧ a.sim.Reaches t))
  | .sendPacket ev _ => inferInstanceAs (Decidable (a.sim.IsNext ev))
  | .stopApplication t => inferInstanceAs (Decidable (a.phase = .running ∧ a.sim.Reaches t))

/-- The run of an application along a list of steps. -/
def run (P : RqParams) (nextTime : ℕ) [NeZero n] (steps : List (Step n)) :
    RqEncoderApplication n × List (RqEncoder.Event n) :=
  Mealy.run (step P nextTime) (init n) steps

/-- The lists of steps that a simulation may take. -/
def Feasible (P : RqParams) (nextTime : ℕ) [NeZero n] (steps : List (Step n)) : Prop :=
  Mealy.Feasible (step P nextTime) Enabled (init n) steps

instance (P : RqParams) (nextTime : ℕ) [NeZero n] (steps : List (Step n)) :
    Decidable (Feasible P nextTime steps) :=
  inferInstanceAs (Decidable (Mealy.Feasible (step P nextTime) Enabled (init n) steps))

/-- **The application runs the encoder**: there are expiries along which the encoder by itself
reaches the same state and does the same to the outside. -/
theorem exists_run_encoder_eq (P : RqParams) (nextTime : ℕ) [NeZero n] (steps : List (Step n)) :
    ∃ calls, RqEncoder.run P calls =
      ((run P nextTime steps).1.encoder, (run P nextTime steps).2) := by
  refine Mealy.run_invariant (step P nextTime) (s := init n)
    (I := fun _ a evs => ∃ calls, RqEncoder.run P calls = (a.encoder, evs)) steps ⟨[], rfl⟩ ?_
  rintro is i - ⟨calls, hcalls⟩
  generalize (Mealy.run (step P nextTime) (init n) is) = r at hcalls ⊢
  have hsend : ∀ a answers, a.encoder = r.1.encoder → ∃ calls', RqEncoder.run P calls' =
      ((sendPacket P nextTime a answers).1.encoder,
        r.2 ++ (sendPacket P nextTime a answers).2) := by
    intro a answers ha
    refine ⟨calls ++ [a.sendCall answers], ?_⟩
    unfold RqEncoder.run at hcalls ⊢
    rw [Mealy.run_concat, hcalls]
    unfold sendPacket
    rw [ha]
  cases i with
  | startApplication t answers => exact hsend _ answers rfl
  | handleAccept t slot sock => exact ⟨calls, by rw [hcalls]; simp [step]⟩
  | sendPacket ev answers => exact hsend _ answers rfl
  | stopApplication t => exact ⟨calls, by rw [hcalls]; simp [step]⟩

/-- A running or stopped application has its timer. -/
theorem exists_pending_eq (P : RqParams) (nextTime : ℕ) [NeZero n] {steps : List (Step n)}
    (hf : Feasible P nextTime steps) (hphase : (run P nextTime steps).1.phase ≠ .created) :
    ∃ ev, (run P nextTime steps).1.sim.pending = [ev] := by
  have hinv := Mealy.Feasible.run_invariant hf
    (I := fun _ a _ => a.phase = .created ∧ a.sim.pending = [] ∨
      a.phase ≠ .created ∧ ∃ ev, a.sim.pending = [ev]) (Or.inl ⟨rfl, rfl⟩) ?_
  · rcases hinv with ⟨hcreated, -⟩ | ⟨-, hpending⟩
    · exact absurd hcreated hphase
    · exact hpending
  · intro is i _ henabled hI
    generalize (Mealy.run (step P nextTime) (init n) is).1 = a at henabled hI ⊢
    right
    cases i with
    | startApplication t answers =>
      rcases hI with ⟨-, hnil⟩ | ⟨hne, -⟩
      · exact ⟨by simp [step, sendPacket], _,
          EventQueue.pending_schedule_of_eq_nil (q := a.sim.advance t) hnil nextTime⟩
      · exact absurd henabled.1 hne
    | handleAccept t slot sock =>
      rcases hI with ⟨hcreated, -⟩ | hI
      · exact absurd (hcreated.symm.trans henabled.1) (by decide)
      · exact hI
    | sendPacket ev answers =>
      rcases hI with ⟨-, hnil⟩ | ⟨hne, e, he⟩
      · have hmem := henabled.1
        rw [hnil] at hmem
        exact absurd hmem List.not_mem_nil
      · have hmem := henabled.1
        rw [he, List.mem_singleton] at hmem
        subst hmem
        exact ⟨hne, _, EventQueue.pending_schedule_of_eq_nil
          (EventQueue.pending_expire_of_singleton he) nextTime⟩
    | stopApplication t =>
      rcases hI with ⟨hcreated, -⟩ | ⟨-, hpending⟩
      · exact absurd (hcreated.symm.trans henabled.1) (by decide)
      · exact ⟨by simp [step], hpending⟩

end RqEncoderApplication

end MeshSim
