import MeshSim.Foundation.Agenda
import MeshSim.Foundation.Mealy
import MeshSim.Streaming.OnOffApplication

/-!
# The timers of the streaming sender

`ns3_apps/onoff-application.cc` with its clock: on and off periods alternate, and in an on period
packets are sent at a constant rate.  What is left of the time until the next packet at the end of
an on period carries over to the next one, as a number of bits (`m_residualBits`).

Times are nanoseconds since the start of the simulation.  The lengths of the periods are drawn from
random variables, so that they are arguments of the steps that draw them.  The attributes do not
change during a run, and creating the socket succeeds.  Where an assertion fails or a null pointer
is dereferenced, the run ends with a `Fault`.
-/

namespace MeshSim

open MachineInt

/-- The attributes of `MeshSimOnOffApplication`, and the arithmetic of its data rate. -/
structure OnOffParams where
  /-- Whether the sockets of `m_tid` are of type `NS3_SOCK_DGRAM`. -/
  sockDgram : Bool := true
  /-- `m_pktSize`. -/
  pktSize : ℕ := 512
  /-- `m_maxBytes`, where zero means that there is no limit. -/
  maxBytes : ℕ := 0
  /-- `m_cbrRate`, in bits a second. -/
  cbrRate : ℕ := 500000
  /-- What `Seconds (bits / static_cast<double>(m_cbrRate.GetBitRate ()))` makes of a number of
  bits, in nanoseconds. -/
  txTime : ℕ → ℕ
  /-- What `(delta.To (Time::S) * m_cbrRate.GetBitRate ()).GetHigh ()` makes of a duration in
  nanoseconds. -/
  bitsIn : ℕ → ℕ

/-- The default attributes, with both conversions rounded down. -/
def OnOffParams.defaults : OnOffParams where
  txTime := fun bits => bits * 10 ^ 9 / 500000
  bitsIn := fun delta => delta * 500000 / 10 ^ 9

namespace OnOffTimers

/-- What a scheduled event calls. -/
inductive Call where
  /-- `StartSending`. -/
  | startSending
  /-- `StopSending`. -/
  | stopSending
  /-- `SendPacket`. -/
  | sendPacket
deriving DecidableEq, Repr

/-- What ends a simulation. -/
inductive Fault where
  /-- An `NS_ASSERT` fails. -/
  | assertion
  /-- A method is called on a socket that does not exist. -/
  | nullPointer
deriving DecidableEq, Repr

/-- What the application does to the outside. -/
inductive Event where
  /-- A packet was handed to the socket, at a time. -/
  | send (time : ℕ) (packet : Packet)
deriving DecidableEq

/-- The steps of a run. -/
inductive Step where
  /-- The simulator calls `StartApplication`, and the length of an off period is drawn. -/
  | startApplication (time offInterval : ℕ)
  /-- The simulator calls `StopApplication`. -/
  | stopApplication (time : ℕ)
  /-- The simulator executes a scheduled `StartSending`, and the length of an on period is drawn. -/
  | startSending (ev : EventId) (onInterval : ℕ)
  /-- The simulator executes a scheduled `StopSending`, and the length of an off period is drawn. -/
  | stopSending (ev : EventId) (offInterval : ℕ)
  /-- The simulator executes a scheduled `SendPacket`. -/
  | sendPacket (ev : EventId)
deriving DecidableEq

end OnOffTimers

/-- The members of `MeshSimOnOffApplication`, and the events it has scheduled. -/
structure OnOffTimers where
  /-- Whether the application is started and stopped. -/
  phase : Phase
  /-- The clock, and the pending calls. -/
  sim : Agenda OnOffTimers.Call
  /-- Whether `m_socket` is set. -/
  socket : Bool
  /-- `m_totBytes`, a `uint64_t`. -/
  totBytes : ℕ
  /-- `m_seqNumber`, a `uint64_t`. -/
  seqNumber : ℕ
  /-- `m_residualBits`, a `uint32_t`. -/
  residualBits : ℕ
  /-- `m_lastStartTime`. -/
  lastStartTime : ℕ
  /-- `m_cbrRateFailSafe`. -/
  cbrRateFailSafe : ℕ
  /-- `m_startStopEvent`, which holds no event before the first one is scheduled. -/
  startStopEvent : Option EventId
  /-- `m_sendEvent`, which holds no event before the first one is scheduled. -/
  sendEvent : Option EventId

namespace OnOffTimers

variable (P : OnOffParams)

/-- The constructor. -/
def init : OnOffTimers where
  phase := .created
  sim := .empty
  socket := false
  totBytes := 0
  seqNumber := 0
  residualBits := 0
  lastStartTime := 0
  cbrRateFailSafe := 0
  startStopEvent := none
  sendEvent := none

/-- The part of `CancelEvents` that adds up the residual bits. -/
def addResidualBits (a : OnOffTimers) : OnOffTimers :=
  if a.sim.IsRunning a.sendEvent ∧ a.cbrRateFailSafe = P.cbrRate then
    { a with residualBits := u32 (a.residualBits + P.bitsIn (a.sim.now - a.lastStartTime)) }
  else a

/-- `CancelEvents`. -/
def cancelEvents (a : OnOffTimers) : OnOffTimers :=
  let a := a.addResidualBits P
  { a with
    cbrRateFailSafe := P.cbrRate
    sim := (a.sim.cancel a.sendEvent).cancel a.startStopEvent }

/-- `ScheduleStartEvent`. -/
def scheduleStartEvent (offInterval : ℕ) (a : OnOffTimers) : OnOffTimers :=
  { a with
    sim := a.sim.schedule offInterval .startSending
    startStopEvent := some (a.sim.nextId offInterval) }

/-- `ScheduleStopEvent`. -/
def scheduleStopEvent (onInterval : ℕ) (a : OnOffTimers) : OnOffTimers :=
  { a with
    sim := a.sim.schedule onInterval .stopSending
    startStopEvent := some (a.sim.nextId onInterval) }

/-- `StartApplication`. -/
def startApplication (offInterval : ℕ) (a : OnOffTimers) : OnOffTimers :=
  (cancelEvents P { a with
    socket := true
    cbrRateFailSafe := P.cbrRate }).scheduleStartEvent offInterval

/-- `StopApplication`: the socket is closed, but stays set. -/
def stopApplication (a : OnOffTimers) : OnOffTimers := a.cancelEvents P

/-- The bits until the next packet, a `uint32_t`. -/
def bits (a : OnOffTimers) : ℕ := u32 (u32 (P.pktSize * 8) - a.residualBits)

/-- `ScheduleNextTx`. -/
def scheduleNextTx (a : OnOffTimers) : OnOffTimers :=
  if P.maxBytes = 0 ∨ a.totBytes < P.maxBytes then
    { a with
      sim := a.sim.schedule (P.txTime (a.bits P)) .sendPacket
      sendEvent := some (a.sim.nextId (P.txTime (a.bits P))) }
  else a.stopApplication P

/-- `StartSending`. -/
def startSending (onInterval : ℕ) (a : OnOffTimers) : OnOffTimers :=
  (scheduleNextTx P { a with lastStartTime := a.sim.now }).scheduleStopEvent onInterval

/-- `StopSending`. -/
def stopSending (offInterval : ℕ) (a : OnOffTimers) : OnOffTimers :=
  (a.cancelEvents P).scheduleStartEvent offInterval

/-- The application without its clock, where it is told apart which calls are pending. -/
def untimed (a : OnOffTimers) : MeshSimOnOffApplication where
  sockDgram := P.sockDgram
  pktSize := P.pktSize
  maxBytes := P.maxBytes
  socket := a.socket
  totBytes := a.totBytes
  seqNumber := a.seqNumber
  startStopEvent :=
    if Call.startSending ∈ a.sim.pending.map Prod.snd then some .startSending
    else if Call.stopSending ∈ a.sim.pending.map Prod.snd then some .stopSending
    else none
  sendEvent := decide (Call.sendPacket ∈ a.sim.pending.map Prod.snd)

/-- `SendPacket`. -/
def sendPacket (a : OnOffTimers) : Except Fault OnOffTimers × List Event :=
  if a.sim.IsRunning a.sendEvent then (.error .assertion, [])
  else if a.socket then
    let r := (a.untimed P).createPacket
    let a := { a with
      seqNumber := r.1.seqNumber
      totBytes := u64 (a.totBytes + P.pktSize)
      lastStartTime := a.sim.now
      residualBits := 0 }
    (.ok (a.scheduleNextTx P), [.send a.sim.now r.2])
  else (.error .nullPointer, [])

/-- One step. -/
def step : Except Fault OnOffTimers → Step → Except Fault OnOffTimers × List Event
  | .error f, _ => (.error f, [])
  | .ok a, .startApplication t off =>
    (.ok (startApplication P off { a with phase := .running, sim := a.sim.advance t }), [])
  | .ok a, .stopApplication t =>
    (.ok (stopApplication P { a with phase := .stopped, sim := a.sim.advance t }), [])
  | .ok a, .startSending ev on => (.ok (startSending P on { a with sim := a.sim.expire ev }), [])
  | .ok a, .stopSending ev off => (.ok (stopSending P off { a with sim := a.sim.expire ev }), [])
  | .ok a, .sendPacket ev => sendPacket P { a with sim := a.sim.expire ev }

/-- What may happen next: the simulator starts and stops the application once, and executes the
scheduled calls in the order of their times. -/
def Enabled : Except Fault OnOffTimers → Step → Prop
  | .error _, _ => False
  | .ok a, .startApplication t _ => a.phase = .created ∧ a.sim.Reaches t
  | .ok a, .stopApplication t => a.phase = .running ∧ a.sim.Reaches t
  | .ok a, .startSending ev _ => a.sim.IsNext ev .startSending
  | .ok a, .stopSending ev _ => a.sim.IsNext ev .stopSending
  | .ok a, .sendPacket ev => a.sim.IsNext ev .sendPacket

instance (s : Except Fault OnOffTimers) (i : Step) : Decidable (Enabled s i) :=
  match s, i with
  | .error _, _ => inferInstanceAs (Decidable False)
  | .ok a, .startApplication t _ =>
    inferInstanceAs (Decidable (a.phase = .created ∧ a.sim.Reaches t))
  | .ok a, .stopApplication t => inferInstanceAs (Decidable (a.phase = .running ∧ a.sim.Reaches t))
  | .ok a, .startSending ev _ => inferInstanceAs (Decidable (a.sim.IsNext ev .startSending))
  | .ok a, .stopSending ev _ => inferInstanceAs (Decidable (a.sim.IsNext ev .stopSending))
  | .ok a, .sendPacket ev => inferInstanceAs (Decidable (a.sim.IsNext ev .sendPacket))

/-- The time of a step. -/
def Step.time : Step → ℕ
  | .startApplication time _ => time
  | .stopApplication time => time
  | .startSending ev _ => ev.time
  | .stopSending ev _ => ev.time
  | .sendPacket ev => ev.time

/-- Whether a step may end an on period. -/
def Step.interrupts : Step → Bool
  | .stopApplication _ => true
  | .stopSending _ _ => true
  | _ => false

/-- An application is in an on period when `StopSending` is pending. -/
def isOn (a : OnOffTimers) : Bool := decide (Call.stopSending ∈ a.sim.pending.map Prod.snd)

/-- The time that passes in an on period before a step. -/
def onDuring : Except Fault OnOffTimers × Step → ℕ
  | (.error _, _) => 0
  | (.ok a, i) => if a.isOn then i.time - a.sim.now else 0

/-- The run of an application along a list of steps. -/
def run (steps : List Step) : Except Fault OnOffTimers × List Event :=
  Mealy.run (step P) (.ok init) steps

/-- The lists of steps that a simulation may take. -/
def Feasible (steps : List Step) : Prop := Mealy.Feasible (step P) Enabled (.ok init) steps

instance (steps : List Step) : Decidable (Feasible P steps) :=
  inferInstanceAs (Decidable (Mealy.Feasible (step P) Enabled (.ok init) steps))

/-- The length of the on periods of a run. -/
def onTime (steps : List Step) : ℕ :=
  ((Mealy.trace (step P) (.ok init) steps).map onDuring).sum

end OnOffTimers

end MeshSim
