import MeshSim.Foundation.EventQueue
import MeshSim.Foundation.Mealy
import MeshSim.Foundation.SliceSchedule
import MeshSim.Rq.Encoder

/-!
# The timed proxy

`ns3_apps/timed-proxy.cc`: the application that forwards the packets it receives, in their order and
at a configured rate, but only within the time slices assigned to it.

Times are nanoseconds since the start of the simulation.  They are never negative, and the model
lets them grow without the bound of `int64_t`, which is 292 years.  A run is a sequence of steps:
the calls from the simulator, the arrival of packets at an RX socket, and the execution of a
scheduled `SendNextPacket`.  Where the program leaves what C++ defines, or one of its assertions
fails, the run ends with a `Fault`.

The proxy has a TX socket in slot 0, whose `Send` does not call back into the proxy.  Source
addresses are not part of the model: they are passed on to the Rx trace, and nothing depends on
them.
-/

namespace MeshSim

open MachineInt

/-- The attributes of `TimedProxy`.  The attribute checkers admit every `uint32_t`. -/
structure TimedProxyParams where
  /-- `m_cbRate`, in bits a second. -/
  cbRate : ℕ := 5000000
  /-- `m_nSliceWidthMS`, the width of a time slice. -/
  sliceWidthMS : ℕ := 20
  /-- `m_nSliceTaperMS`, the time at the end of a slice where sending is off. -/
  sliceTaperMS : ℕ := 2
  /-- `m_nSlices`, the number of slices of a cycle. -/
  nSlices : ℕ := 1
  /-- `m_ActiveMap`, the bitmap of the slices that are used to send. -/
  activeMap : ℕ := 0xffff
  /-- What `Seconds (GetSize () * 8.0 / double (m_cbRate.GetBitRate ()))` makes of a packet size,
  in nanoseconds.  How the floating-point expression rounds is left open. -/
  txDuration : ℕ → ℕ
  /-- The checker of `SliceWidthMS`. -/
  sliceWidthMS_lt : sliceWidthMS < 2 ^ 32 := by decide
  /-- The checker of `SliceTaperMS`. -/
  sliceTaperMS_lt : sliceTaperMS < 2 ^ 32 := by decide
  /-- The checker of `nSlices`. -/
  nSlices_lt : nSlices < 2 ^ 32 := by decide
  /-- The checker of `ActiveMap`. -/
  activeMap_lt : activeMap < 2 ^ 32 := by decide

/-- The default attributes, with transmission durations rounded down to nanoseconds. -/
def TimedProxyParams.defaults : TimedProxyParams where
  txDuration := fun size => size * 8 * 1000000000 / 5000000

/-- The members of `TimedProxy`, and the events it has scheduled. -/
structure TimedProxy where
  /-- Whether the application is started and stopped. -/
  phase : Phase
  /-- The clock, and the pending `SendNextPacket` events. -/
  sim : EventQueue
  /-- `m_sendEv`, which holds no event before the first one is scheduled. -/
  sendEv : Option EventId
  /-- `m_txEndTime`. -/
  txEndTime : ℕ
  /-- `m_packetStore`. -/
  packetStore : List Packet
  /-- `m_rxSlots[i].total`, a `uint64_t`. -/
  rxTotal : Fin RqEncoder.rxSlotCount → ℕ
  /-- `m_txSlots[0].total`, a `uint64_t`. -/
  txTotal : ℕ

namespace TimedProxy

/-- What ends a simulation. -/
inductive Fault where
  /-- A division by zero, or a remainder. -/
  | divisionByZero
  /-- A `uint32_t` is shifted by its width or more. -/
  | shiftRange
  /-- A loop does not end. -/
  | endlessLoop
  /-- `Simulator::Schedule` is called with a negative delay. -/
  | negativeDelay
  /-- An `NS_ASSERT` fails. -/
  | assertion
deriving DecidableEq, Repr

/-- What the proxy does to the outside. -/
inductive Event where
  /-- A packet was taken from a slot and reported on the Rx trace. -/
  | rxTrace (slot : Fin RqEncoder.rxSlotCount) (pkt : Packet)
  /-- A packet was handed to the TX socket, at a time. -/
  | send (time : ℕ) (pkt : Packet)
deriving DecidableEq

/-- The steps of a run. -/
inductive Step where
  /-- The simulator calls `StartApplication`. -/
  | startApplication (time : ℕ)
  /-- A socket of a slot calls `HandleRead`, and holds some packets. -/
  | handleRead (time : ℕ) (slot : Fin RqEncoder.rxSlotCount) (packets : List Packet)
  /-- The simulator executes a scheduled `SendNextPacket`. -/
  | sendNextPacket (ev : EventId)
  /-- The simulator calls `StopApplication`. -/
  | stopApplication (time : ℕ)
deriving DecidableEq

instance : NeZero RqEncoder.rxSlotCount := ⟨by decide⟩

/-- The nanoseconds of a millisecond. -/
def nsPerMS : ℕ := 1000000

/-- The constructor. -/
def init : TimedProxy where
  phase := .created
  sim := .empty
  sendEv := none
  txEndTime := 0
  packetStore := []
  rxTotal := fun _ => 0
  txTotal := 0

/-! ### The next transmission opportunity -/

/-- `(1u << (slot % m_nSlices)) & m_ActiveMap`, as a condition. -/
def testSlot (P : TimedProxyParams) (slot : ℕ) : Except Fault Bool :=
  if P.nSlices = 0 then .error .divisionByZero
  else if 32 ≤ slot % P.nSlices then .error .shiftRange
  else .ok (decide ((1 <<< (slot % P.nSlices)) &&& P.activeMap ≠ 0))

/-- The do-while loop behind `slot`.  The first argument bounds the number of iterations;
`findSlot_spec` shows that `m_nSlices` of them are enough, and `findSlot_endless` that the loop goes
on for ever when they are not. -/
def findSlot (P : TimedProxyParams) : ℕ → ℕ → Except Fault ℕ
  | 0, _ => .error .endlessLoop
  | fuel + 1, slot =>
    match testSlot P (slot + 1) with
    | .error f => .error f
    | .ok true => .ok (slot + 1)
    | .ok false => findSlot P fuel (slot + 1)

/-- `GetNextTxTime`. -/
def getNextTxTime (P : TimedProxyParams) (txEndTime now : ℕ) : Except Fault ℕ :=
  let min_t := max txEndTime now
  let min := min_t / nsPerMS
  if P.sliceWidthMS = 0 then .error .divisionByZero
  else
    let slot := min / P.sliceWidthMS
    let slot_taper := (min + P.sliceTaperMS) / P.sliceWidthMS
    match testSlot P slot with
    | .error f => .error f
    | .ok active =>
      if active = true ∧ slot = slot_taper then .ok min_t
      else
        match findSlot P P.nSlices slot with
        | .error f => .error f
        | .ok slot => .ok (slot * P.sliceWidthMS * nsPerMS)

/-! ### Steps -/

/-- `SendNextPacket` is scheduled with the delay `txtime - Simulator::Now ()`, and `m_sendEv` is set
to the event. -/
def arm (p : TimedProxy) (txtime : ℕ) : TimedProxy :=
  { p with
    sim := p.sim.schedule (txtime - p.sim.now)
    sendEv := some (p.sim.nextId (txtime - p.sim.now)) }

/-- `SendNextPacket` is scheduled for the next transmission opportunity, which is returned with the
state. -/
def scheduleNext (P : TimedProxyParams) (p : TimedProxy) : Except Fault (TimedProxy × ℕ) :=
  match getNextTxTime P p.txEndTime p.sim.now with
  | .error f => .error f
  | .ok txtime =>
    if txtime < p.sim.now then .error .negativeDelay else .ok (p.arm txtime, txtime)

/-- The packet counts in the bytes received in its slot. -/
def countRx (slot : Fin RqEncoder.rxSlotCount) (rxTotal : Fin RqEncoder.rxSlotCount → ℕ)
    (packet : Packet) : Fin RqEncoder.rxSlotCount → ℕ :=
  Function.update rxTotal slot (u64 (rxTotal slot + i32 packet.length))

/-- One iteration of the loop of `HandleRead`, with the packet that `RecvFrom` returns. -/
def receive (P : TimedProxyParams) (slot : Fin RqEncoder.rxSlotCount) :
    Except Fault TimedProxy → Packet → Except Fault TimedProxy × List Event
  | .error f, _ => (.error f, [])
  | .ok p, packet =>
    let p := { p with rxTotal := countRx slot p.rxTotal packet }
    if p.packetStore = [] then
      match scheduleNext P p with
      | .error f => (.error f, [.rxTrace slot packet])
      | .ok (p, _) => (.ok { p with packetStore := p.packetStore ++ [packet] },
          [.rxTrace slot packet])
    else (.ok { p with packetStore := p.packetStore ++ [packet] }, [.rxTrace slot packet])

/-- `HandleRead`. -/
def handleRead (P : TimedProxyParams) (p : TimedProxy) (slot : Fin RqEncoder.rxSlotCount)
    (packets : List Packet) : Except Fault TimedProxy × List Event :=
  Mealy.run (receive P slot) (.ok p) packets

/-- `SendNextPacket`. -/
def sendNextPacket (P : TimedProxyParams) (p : TimedProxy) : Except Fault TimedProxy × List Event :=
  if ¬ p.sim.IsExpired p.sendEv then (.error .assertion, [])
  else
    match p.packetStore with
    | [] => (.error .assertion, [])
    | packet :: rest =>
      let p := { p with
        packetStore := rest
        txTotal := u64 (p.txTotal + i32 packet.length) }
      if rest = [] then (.ok p, [.send p.sim.now packet])
      else
        match scheduleNext P p with
        | .error f => (.error f, [.send p.sim.now packet])
        | .ok (p, nextTime) => (.ok { p with txEndTime := nextTime + P.txDuration packet.length },
            [.send p.sim.now packet])

/-- One step.  `StopApplication` closes the sockets, so that no packet arrives afterwards, and
leaves the members and the scheduled events. -/
def step (P : TimedProxyParams) :
    Except Fault TimedProxy → Step → Except Fault TimedProxy × List Event
  | .error f, _ => (.error f, [])
  | .ok p, .startApplication t => (.ok { p with phase := .running, sim := p.sim.advance t }, [])
  | .ok p, .handleRead t slot packets =>
    handleRead P { p with sim := p.sim.advance t } slot packets
  | .ok p, .sendNextPacket ev => sendNextPacket P { p with sim := p.sim.expire ev }
  | .ok p, .stopApplication t => (.ok { p with phase := .stopped, sim := p.sim.advance t }, [])

/-- What may happen next: the simulator starts and stops the application once and executes the
events in the order of their times, and packets arrive while the sockets are open. -/
def Enabled : Except Fault TimedProxy → Step → Prop
  | .error _, _ => False
  | .ok p, .startApplication t => p.phase = .created ∧ p.sim.Reaches t
  | .ok p, .handleRead t _ _ => p.phase = .running ∧ p.sim.Reaches t
  | .ok p, .sendNextPacket ev => p.sim.IsNext ev
  | .ok p, .stopApplication t => p.phase = .running ∧ p.sim.Reaches t

instance (s : Except Fault TimedProxy) (i : Step) : Decidable (Enabled s i) :=
  match s, i with
  | .error _, _ => inferInstanceAs (Decidable False)
  | .ok p, .startApplication t => inferInstanceAs (Decidable (p.phase = .created ∧ p.sim.Reaches t))
  | .ok p, .handleRead t _ _ => inferInstanceAs (Decidable (p.phase = .running ∧ p.sim.Reaches t))
  | .ok p, .sendNextPacket ev => inferInstanceAs (Decidable (p.sim.IsNext ev))
  | .ok p, .stopApplication t => inferInstanceAs (Decidable (p.phase = .running ∧ p.sim.Reaches t))

/-- The run of a proxy along a list of steps. -/
def run (P : TimedProxyParams) (steps : List Step) : Except Fault TimedProxy × List Event :=
  Mealy.run (step P) (.ok init) steps

/-- The lists of steps that a simulation may take. -/
def Feasible (P : TimedProxyParams) (steps : List Step) : Prop :=
  Mealy.Feasible (step P) Enabled (.ok init) steps

instance (P : TimedProxyParams) (steps : List Step) : Decidable (Feasible P steps) :=
  inferInstanceAs (Decidable (Mealy.Feasible (step P) Enabled (.ok init) steps))

end TimedProxy

end MeshSim
