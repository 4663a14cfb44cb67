import MeshSim.Rq.Header

/-!
# The streaming sender

`ns3_apps/onoff-application.cc`: the application that alternates between on and off periods and
sends a packet at a constant rate while it is on.

A run is a sequence of events: the calls from the simulator, and the expiry of a timer that is
pending.  The times between them, the data rate, the residual bits that carry over from one on
period to the next, and the addresses are not part of the model: they decide when a timer expires,
never what is handed to the socket.  Creating the socket succeeds.
-/

namespace MeshSim

open MachineInt

/-- What `m_startStopEvent` calls when it expires. -/
inductive StartStop where
  /-- `StartSending`. -/
  | startSending
  /-- `StopSending`. -/
  | stopSending
deriving DecidableEq, Repr

/-- The members of `MeshSimOnOffApplication`. -/
structure MeshSimOnOffApplication where
  /-- Whether the sockets of `m_tid` are of type `NS3_SOCK_DGRAM`. -/
  sockDgram : Bool
  /-- `m_pktSize`. -/
  pktSize : ℕ
  /-- `m_maxBytes`, where zero means that there is no limit. -/
  maxBytes : ℕ
  /-- Whether `m_socket` is set. -/
  socket : Bool
  /-- `m_totBytes`, a `uint64_t`. -/
  totBytes : ℕ
  /-- `m_seqNumber`, a `uint64_t`. -/
  seqNumber : ℕ
  /-- `m_startStopEvent`, if it is pending. -/
  startStopEvent : Option StartStop
  /-- Whether `m_sendEvent` is pending. -/
  sendEvent : Bool
deriving DecidableEq

/-- The events that drive the application. -/
inductive OnOffEvent where
  /-- The simulator calls `StartApplication`. -/
  | startApplication
  /-- The simulator calls `StopApplication`. -/
  | stopApplication
  /-- The simulator calls `DoDispose`. -/
  | doDispose
  /-- `m_startStopEvent` expires and calls `StartSending`. -/
  | startSending
  /-- `m_startStopEvent` expires and calls `StopSending`. -/
  | stopSending
  /-- `m_sendEvent` expires and calls `SendPacket`. -/
  | sendPacket
deriving DecidableEq, Repr

namespace MeshSimOnOffApplication

/-- The constructor, behind which the attributes are set. -/
def init (sockDgram : Bool) (pktSize maxBytes : ℕ) : MeshSimOnOffApplication where
  sockDgram := sockDgram
  pktSize := pktSize
  maxBytes := maxBytes
  socket := false
  totBytes := 0
  seqNumber := 0
  startStopEvent := none
  sendEvent := false

/-- `CancelEvents`. -/
def cancelEvents (a : MeshSimOnOffApplication) : MeshSimOnOffApplication :=
  { a with sendEvent := false, startStopEvent := none }

/-- `DoDispose`. -/
def doDispose (a : MeshSimOnOffApplication) : MeshSimOnOffApplication :=
  { a.cancelEvents with socket := false }

/-- `ScheduleStartEvent`. -/
def scheduleStartEvent (a : MeshSimOnOffApplication) : MeshSimOnOffApplication :=
  { a with startStopEvent := some .startSending }

/-- `ScheduleStopEvent`. -/
def scheduleStopEvent (a : MeshSimOnOffApplication) : MeshSimOnOffApplication :=
  { a with startStopEvent := some .stopSending }

/-- `StartApplication`. -/
def startApplication (a : MeshSimOnOffApplication) : MeshSimOnOffApplication :=
  ({ a with socket := true }).cancelEvents.scheduleStartEvent

/-- `StopApplication`: the socket is closed, but stays set. -/
def stopApplication (a : MeshSimOnOffApplication) : MeshSimOnOffApplication := a.cancelEvents

/-- `ScheduleNextTx`. -/
def scheduleNextTx (a : MeshSimOnOffApplication) : MeshSimOnOffApplication :=
  if a.maxBytes = 0 ∨ a.totBytes < a.maxBytes then { a with sendEvent := true }
  else a.stopApplication

/-- `StartSending`. -/
def startSending (a : MeshSimOnOffApplication) : MeshSimOnOffApplication :=
  a.scheduleNextTx.scheduleStopEvent

/-- `StopSending`. -/
def stopSending (a : MeshSimOnOffApplication) : MeshSimOnOffApplication :=
  a.cancelEvents.scheduleStartEvent

/-- The packet that `SendPacket` creates, and the application behind the branch that adds the
header. -/
def createPacket (a : MeshSimOnOffApplication) : MeshSimOnOffApplication × Packet :=
  let packet := List.replicate a.pktSize 0
  if a.sockDgram then
    let hdr := RqHeader.ofSeqno a.seqNumber
    ({ a with seqNumber := u64 (a.seqNumber + 1) }, hdr.serialize ++ packet)
  else (a, packet)

/-- `SendPacket`, with the packet handed to the socket.  Without a socket it has no result. -/
def sendPacket (a : MeshSimOnOffApplication) : Option (MeshSimOnOffApplication × Packet) :=
  if a.socket then
    let r := a.createPacket
    let a := { r.1 with totBytes := u64 (r.1.totBytes + r.1.pktSize) }
    some (a.scheduleNextTx, r.2)
  else none

/-- One event, with the packets handed to the socket.  A timer expires only when it is pending. -/
def step (a : MeshSimOnOffApplication) :
    OnOffEvent → Option (MeshSimOnOffApplication × List Packet)
  | .startApplication => some (a.startApplication, [])
  | .stopApplication => some (a.stopApplication, [])
  | .doDispose => some (a.doDispose, [])
  | .startSending =>
    if a.startStopEvent = some .startSending then
      some (({ a with startStopEvent := none }).startSending, [])
    else none
  | .stopSending =>
    if a.startStopEvent = some .stopSending then
      some (({ a with startStopEvent := none }).stopSending, [])
    else none
  | .sendPacket =>
    if a.sendEvent then
      (sendPacket { a with sendEvent := false }).map fun r => (r.1, [r.2])
    else none

/-- A run, with the packets handed to the socket. -/
def run (a : MeshSimOnOffApplication) :
    List OnOffEvent → Option (MeshSimOnOffApplication × List Packet)
  | [] => some (a, [])
  | event :: events =>
    match a.step event with
    | none => none
    | some (a', sent) => (a'.run events).map fun r => (r.1, sent ++ r.2)

/-! ### What an event does -/

/-- The attributes, the socket and the counter, which scheduling leaves alone. -/
structure SameCounter (a a' : MeshSimOnOffApplication) : Prop where
  /-- The type of the sockets stays. -/
  sockDgram : a'.sockDgram = a.sockDgram
  /-- The packet size stays. -/
  pktSize : a'.pktSize = a.pktSize
  /-- The sequence number of the next packet stays. -/
  seqNumber : a'.seqNumber = a.seqNumber

/-- Scheduling the next packet leaves the counter alone. -/
lemma sameCounter_scheduleNextTx (a : MeshSimOnOffApplication) :
    SameCounter a a.scheduleNextTx := by
  unfold scheduleNextTx
  split <;> exact ⟨rfl, rfl, rfl⟩

/-- Creating a packet does not look at the timer. -/
lemma createPacket_sendEvent (a : MeshSimOnOffApplication) (pending : Bool) :
    createPacket { a with sendEvent := pending } =
      ({ a.createPacket.1 with sendEvent := pending }, a.createPacket.2) := by
  obtain ⟨sockDgram, _⟩ := a
  cases sockDgram <;> rfl

/-- **What one event does.** Only `SendPacket` hands over a packet and counts it. -/
lemma step_cases {a a' : MeshSimOnOffApplication} {event : OnOffEvent} {sent : List Packet}
    (h : a.step event = some (a', sent)) :
    (event ≠ .sendPacket ∧ sent = [] ∧ SameCounter a a') ∨
      (event = .sendPacket ∧ sent = [a.createPacket.2] ∧ SameCounter a.createPacket.1 a') := by
  cases event with
  | startApplication =>
    obtain ⟨rfl, rfl⟩ := Prod.mk.inj (Option.some.inj h)
    exact Or.inl ⟨by decide, rfl, rfl, rfl, rfl⟩
  | stopApplication =>
    obtain ⟨rfl, rfl⟩ := Prod.mk.inj (Option.some.inj h)
    exact Or.inl ⟨by decide, rfl, rfl, rfl, rfl⟩
  | doDispose =>
    obtain ⟨rfl, rfl⟩ := Prod.mk.inj (Option.some.inj h)
    exact Or.inl ⟨by decide, rfl, rfl, rfl, rfl⟩
  | startSending =>
    rw [step] at h
    split at h
    · obtain ⟨rfl, rfl⟩ := Prod.mk.inj (Option.some.inj h)
      have hsame := sameCounter_scheduleNextTx { a with startStopEvent := none }
      exact Or.inl ⟨by decide, rfl, hsame.sockDgram, hsame.pktSize, hsame.seqNumber⟩
    · cases h
  | stopSending =>
    rw [step] at h
    split at h
    · obtain ⟨rfl, rfl⟩ := Prod.mk.inj (Option.some.inj h)
      exact Or.inl ⟨by decide, rfl, rfl, rfl, rfl⟩
    · cases h
  | sendPacket =>
    rw [step] at h
    split at h
    · obtain ⟨r, hr, heq⟩ := Option.map_eq_some_iff.mp h
      obtain ⟨rfl, rfl⟩ := Prod.mk.inj heq
      rw [sendPacket] at hr
      split at hr
      · obtain rfl := Option.some.inj hr
        rw [createPacket_sendEvent]
        have hsame := sameCounter_scheduleNextTx
          { a.createPacket.1 with
              sendEvent := false
              totBytes := u64 (a.createPacket.1.totBytes + a.createPacket.1.pktSize) }
        exact Or.inr ⟨rfl, rfl, hsame.sockDgram, hsame.pktSize, hsame.seqNumber⟩
      · cases hr
    · cases h

/-! ### Runs over a datagram socket -/

/-- The packets of a datagram sender: the constructor of the header drops the sequence number. -/
def headedPacket (pktSize : ℕ) : Packet :=
  (RqHeader.ofSeqno 0).serialize ++ List.replicate pktSize 0

/-- Creating a packet over a datagram socket. -/
lemma createPacket_of_dgram {a : MeshSimOnOffApplication} (h : a.sockDgram = true) :
    a.createPacket = ({ a with seqNumber := u64 (a.seqNumber + 1) }, headedPacket a.pktSize) := by
  rw [createPacket, if_pos h]
  rfl

/-- **All packets of a run are the same**, although the sender counts them. -/
theorem run_sent {a a' : MeshSimOnOffApplication} {events : List OnOffEvent} {sent : List Packet}
    (hdgram : a.sockDgram = true) (h : a.run events = some (a', sent)) :
    sent = List.replicate (events.count .sendPacket) (headedPacket a.pktSize) ∧
      u64 a'.seqNumber = u64 (a.seqNumber + sent.length) := by
  induction events generalizing a sent with
  | nil =>
    obtain ⟨rfl, rfl⟩ := Prod.mk.inj (Option.some.inj h)
    exact ⟨rfl, rfl⟩
  | cons event events ih =>
    rw [run] at h
    split at h
    · cases h
    · rename_i a₁ sent₁ hstep
      obtain ⟨⟨a₂, sent₂⟩, hrest, heq⟩ := Option.map_eq_some_iff.mp h
      obtain ⟨rfl, rfl⟩ := Prod.mk.inj heq
      rcases step_cases hstep with ⟨hevent, rfl, hsame⟩ | ⟨rfl, rfl, hsame⟩
      · obtain ⟨hsent, hseq⟩ := ih (hsame.sockDgram.trans hdgram) hrest
        rw [List.count_cons_of_ne hevent, ← hsame.pktSize, ← hsame.seqNumber]
        exact ⟨hsent, hseq⟩
      · rw [createPacket_of_dgram hdgram] at hsame ⊢
        obtain ⟨hsent, hseq⟩ := ih (hsame.sockDgram.trans hdgram) hrest
        rw [hsame.pktSize] at hsent
        refine ⟨?_, ?_⟩
        · rw [List.count_cons_self, List.replicate_succ, hsent]
          rfl
        · rw [hseq, hsame.seqNumber, List.length_append, List.length_singleton]
          push_cast
          rw [u64_add_u64, add_assoc]

end MeshSimOnOffApplication

end MeshSim
