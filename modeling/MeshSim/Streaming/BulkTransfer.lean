import MeshSim.ResultsDb.RxTables
import MeshSim.Streaming.BulkSendApplication
import MeshSim.Streaming.PacketSink

/-!
# A bulk transfer

A bulk sender, a packet sink and the byte counts of the sink, connected by a stream socket: the
network keeps the bytes that it has accepted from the sender, and hands them over to the sink in
pieces of any size, at any time.  The steps of the sender and of the sink may be interleaved in
every way.

Each run of the system is a run of the sender and a run of the sink (`Projects`), between which no
byte is lost or made up.  So the sink has the whole of the data exactly when the sender has closed
the connection and no byte is on its way (`bulk_transfer`), the transfer cannot get stuck
(`bulk_transfer_completes`), and the results database shows it (`bulk_transfer_recorded`).
-/

namespace MeshSim

/-- A sender, a sink, and what lies between them. -/
structure BulkTransfer where
  /-- The sender. -/
  sender : MeshSimBulkSendApplication
  /-- The number of bytes that the network has accepted and the sink has not read. -/
  waiting : ℕ
  /-- The sink. -/
  sink : MeshSimPacketSink
  /-- `rx_byte_count` of the callback at the trace source of the sink. -/
  rxByteCount : ℤ
deriving DecidableEq, Repr

/-- A step of the sender, or of the sink at some time. -/
inductive TransferStep where
  /-- An event at the sender. -/
  | sender (i : BulkStep)
  /-- An event at the sink, and the time in microseconds. -/
  | sink (timeUs : ℕ) (i : SinkStep)
deriving DecidableEq, Repr

/-- What can be observed. -/
inductive TransferEvent where
  /-- An action of the sender. -/
  | sender (action : BulkAction)
  /-- An action of the sink. -/
  | sink (action : SinkAction)
  /-- A line of the byte counts. -/
  | log (count : ByteCount)
deriving DecidableEq, Repr

namespace MeshSimPacketSink

/-- The sizes of the packets traced. -/
def traced (actions : List SinkAction) : List ℕ :=
  actions.filterMap fun
    | .rxTrace size => some size
    | _ => none

end MeshSimPacketSink

namespace BulkTransfer

open MeshSimPacketSink

/-- The start. -/
def init (sockStream : Bool) (sendSize maxBytes : ℕ) : BulkTransfer where
  sender := .init sockStream sendSize maxBytes
  waiting := 0
  sink := .init
  rxByteCount := 0

/-- The packets traced at a time. -/
def arrivalsAt (timeUs : ℕ) (actions : List SinkAction) : List Arrival :=
  (traced actions).map fun size => (timeUs, size)

/-- One step.  The sink reads no more bytes than are waiting. -/
def step (t : BulkTransfer) : TransferStep → Option (BulkTransfer × List TransferEvent)
  | .sender i =>
    (t.sender.step i).map fun r =>
      ({ t with sender := r.1, waiting := t.waiting + acceptedBytes r.2 }, r.2.map .sender)
  | .sink timeUs i =>
    let r := t.sink.step i
    let arrivals := arrivalsAt timeUs r.2
    if AppRxCb.bytes arrivals ≤ t.waiting then
      let c := AppRxCb.runByteCounts t.rxByteCount arrivals
      some
        ({ t with waiting := t.waiting - AppRxCb.bytes arrivals, sink := r.1, rxByteCount := c.1 },
          r.2.map .sink ++ c.2.map .log)
    else none

/-- A run, with what can be observed on the way. -/
def run (t : BulkTransfer) (steps : List TransferStep) :
    Option (BulkTransfer × List TransferEvent) :=
  PartialMealy.run step t steps

/-! ### The parts of a run -/

/-- The steps of the sender. -/
def senderSteps (steps : List TransferStep) : List BulkStep :=
  steps.filterMap fun
    | .sender i => some i
    | .sink _ _ => none

/-- The steps of the sink. -/
def sinkSteps (steps : List TransferStep) : List SinkStep :=
  steps.filterMap fun
    | .sender _ => none
    | .sink _ i => some i

/-- The actions of the sender. -/
def senderActions (events : List TransferEvent) : List BulkAction :=
  events.filterMap fun
    | .sender action => some action
    | _ => none

/-- The actions of the sink. -/
def sinkActions (events : List TransferEvent) : List SinkAction :=
  events.filterMap fun
    | .sink action => some action
    | _ => none

/-- The lines of the log. -/
def logLines (events : List TransferEvent) : List ByteCount :=
  events.filterMap fun
    | .log count => some count
    | _ => none

/-- The packets that the sink reads in a step. -/
def stepArrivals : TransferStep → List Arrival
  | .sink timeUs (.handleRead packets) => (packetsRead packets).map fun size => (timeUs, size)
  | _ => []

/-- The packets that the sink reads. -/
def arrivals (steps : List TransferStep) : List Arrival := steps.flatMap stepArrivals

lemma senderActions_append (events events' : List TransferEvent) :
    senderActions (events ++ events') = senderActions events ++ senderActions events' :=
  List.filterMap_append

lemma sinkActions_append (events events' : List TransferEvent) :
    sinkActions (events ++ events') = sinkActions events ++ sinkActions events' :=
  List.filterMap_append

lemma logLines_append (events events' : List TransferEvent) :
    logLines (events ++ events') = logLines events ++ logLines events' :=
  List.filterMap_append

/-- The parts of what a step of the sender does. -/
lemma parts_sender (actions : List BulkAction) :
    senderActions (actions.map .sender) = actions ∧ sinkActions (actions.map .sender) = [] ∧
      logLines (actions.map .sender) = [] := by
  refine ⟨?_, ?_, ?_⟩
  · rw [senderActions, List.filterMap_map]
    exact List.filterMap_some
  · rw [sinkActions, List.filterMap_map]
    exact List.filterMap_eq_nil_iff.mpr fun _ _ => rfl
  · rw [logLines, List.filterMap_map]
    exact List.filterMap_eq_nil_iff.mpr fun _ _ => rfl

/-- The parts of what a step of the sink does. -/
lemma parts_sink (actions : List SinkAction) (lines : List ByteCount) :
    senderActions (actions.map .sink ++ lines.map .log) = [] ∧
      sinkActions (actions.map .sink ++ lines.map .log) = actions ∧
      logLines (actions.map .sink ++ lines.map .log) = lines := by
  refine ⟨?_, ?_, ?_⟩
  · rw [senderActions_append, senderActions, senderActions, List.filterMap_map, List.filterMap_map]
    simp
  · rw [sinkActions_append, sinkActions, sinkActions, List.filterMap_map, List.filterMap_map]
    simp
  · rw [logLines_append, logLines, logLines, List.filterMap_map, List.filterMap_map]
    simp

/-- The packets traced in a step of the sink are the ones read. -/
lemma arrivalsAt_step (s : MeshSimPacketSink) (timeUs : ℕ) (i : SinkStep) :
    arrivalsAt timeUs (s.step i).2 = stepArrivals (.sink timeUs i) := by
  have htraced : ∀ (packets : List ℕ) (s : MeshSimPacketSink),
      traced (s.handleRead packets).2 = packetsRead packets := by
    intro packets
    induction packets with
    | nil => exact fun _ => rfl
    | cons size packets ih =>
      intro s
      rw [handleRead]
      split
      · rename_i hzero
        rw [hzero]
        rfl
      · rename_i hsize
        rw [packetsRead_cons hsize, ← ih { s with totalRx := MachineInt.u64 (s.totalRx + size) }]
        rfl
  have hclose : ∀ sockets : List ℕ, traced (sockets.map .close) = [] := by
    intro sockets
    rw [traced, List.filterMap_map]
    exact List.filterMap_eq_nil_iff.mpr fun _ _ => rfl
  have hlisten : ∀ b : Bool,
      traced (if b = true then [SinkAction.closeListening] else []) = [] := by
    decide
  cases i with
  | startApplication =>
    rw [MeshSimPacketSink.step]
    split <;> rfl
  | stopApplication =>
    rw [MeshSimPacketSink.step, arrivalsAt, traced, List.filterMap_append]
    have h := hclose s.socketList
    have h' := hlisten s.socket
    rw [traced] at h h'
    rw [h, h']
    rfl
  | handleAccept socket => rfl
  | handleRead packets => rw [MeshSimPacketSink.step, arrivalsAt, htraced, stepArrivals]
  | handlePeer => rfl

/-- A step of the sink, with the packets that are read. -/
lemma step_sink (t : BulkTransfer) (timeUs : ℕ) (i : SinkStep) :
    t.step (.sink timeUs i) =
      if AppRxCb.bytes (stepArrivals (.sink timeUs i)) ≤ t.waiting then
        some
          ({ t with
              waiting := t.waiting - AppRxCb.bytes (stepArrivals (.sink timeUs i))
              sink := (t.sink.step i).1
              rxByteCount :=
                (AppRxCb.runByteCounts t.rxByteCount (stepArrivals (.sink timeUs i))).1 },
            (t.sink.step i).2.map .sink ++
              (AppRxCb.runByteCounts t.rxByteCount (stepArrivals (.sink timeUs i))).2.map .log)
      else none := by
  simp only [step]
  rw [arrivalsAt_step]

/-- What a run of the system is for its parts. -/
structure Projects (sockStream : Bool) (sendSize maxBytes : ℕ) (steps : List TransferStep)
    (t : BulkTransfer) (events : List TransferEvent) : Prop where
  /-- It is a run of the sender. -/
  sender : (MeshSimBulkSendApplication.init sockStream sendSize maxBytes).run (senderSteps steps) =
    some (t.sender, senderActions events)
  /-- It is a run of the sink. -/
  sink : MeshSimPacketSink.init.run (sinkSteps steps) = (t.sink, sinkActions events)
  /-- The callback is called for the packets that the sink reads. -/
  log : AppRxCb.runByteCounts 0 (arrivals steps) = (t.rxByteCount, logLines events)
  /-- No byte is lost or made up. -/
  waiting : acceptedBytes (senderActions events) = t.waiting + AppRxCb.bytes (arrivals steps)

/-- A step of the system is a step of one of its parts. -/
lemma Projects.concat {sockStream : Bool} {sendSize maxBytes : ℕ} {steps : List TransferStep}
    {t t' : BulkTransfer} {before events : List TransferEvent}
    (h : Projects sockStream sendSize maxBytes steps t before) {i : TransferStep}
    (hstep : t.step i = some (t', events)) :
    Projects sockStream sendSize maxBytes (steps ++ [i]) t' (before ++ events) := by
  cases i with
  | sender i =>
    obtain ⟨⟨a, actions⟩, hsender, heq⟩ := Option.map_eq_some_iff.mp hstep
    obtain ⟨rfl, rfl⟩ := Prod.mk.inj heq
    obtain ⟨hactions, hsink, hlog⟩ := parts_sender actions
    have hsteps : senderSteps (steps ++ [.sender i]) = senderSteps steps ++ [i] :=
      List.filterMap_append
    have hsinks : sinkSteps (steps ++ [.sender i]) = sinkSteps steps := by
      rw [sinkSteps, List.filterMap_append]
      exact List.append_nil _
    have harrivals : arrivals (steps ++ [.sender i]) = arrivals steps := by
      rw [arrivals, List.flatMap_append]
      exact List.append_nil _
    refine ⟨?_, ?_, ?_, ?_⟩
    · rw [hsteps, senderActions_append, hactions]
      exact PartialMealy.run_concat_eq_some_iff.mpr ⟨t.sender, _, _, h.sender, hsender, rfl⟩
    · rw [hsinks, sinkActions_append, hsink, List.append_nil]
      exact h.sink
    · rw [harrivals, logLines_append, hlog, List.append_nil]
      exact h.log
    · rw [harrivals, senderActions_append, hactions, acceptedBytes_append, h.waiting]
      exact Nat.add_right_comm _ _ _
  | sink timeUs i =>
    rw [step_sink] at hstep
    split at hstep
    · rename_i hle
      obtain ⟨rfl, rfl⟩ := Prod.mk.inj (Option.some.inj hstep)
      obtain ⟨hactions, hsink, hlog⟩ := parts_sink (t.sink.step i).2
        (AppRxCb.runByteCounts t.rxByteCount (stepArrivals (.sink timeUs i))).2
      have hsteps : senderSteps (steps ++ [.sink timeUs i]) = senderSteps steps := by
        rw [senderSteps, List.filterMap_append]
        exact List.append_nil _
      have hsinks : sinkSteps (steps ++ [.sink timeUs i]) = sinkSteps steps ++ [i] :=
        List.filterMap_append
      have harrivals : arrivals (steps ++ [.sink timeUs i]) =
          arrivals steps ++ stepArrivals (.sink timeUs i) := by
        rw [arrivals, List.flatMap_append, List.flatMap_cons, List.flatMap_nil, List.append_nil]
        rfl
      refine ⟨?_, ?_, ?_, ?_⟩
      · rw [hsteps, senderActions_append, hactions, List.append_nil]
        exact h.sender
      · have hrun := h.sink
        rw [MeshSimPacketSink.run] at hrun ⊢
        rw [hsinks, Mealy.run_concat, hrun, sinkActions_append, hsink]
      · have hrun := h.log
        rw [AppRxCb.runByteCounts] at hrun ⊢
        rw [harrivals, Mealy.run_append, hrun, logLines_append, hlog]
        rfl
      · rw [harrivals, senderActions_append, hactions, List.append_nil, h.waiting,
          AppRxCb.bytes_append]
        dsimp only
        omega
    · cases hstep

/-- **The parts of a run.** A run of the system is a run of the sender and one of the sink, between
which no byte is lost or made up. -/
theorem projects_run {sockStream : Bool} {sendSize maxBytes : ℕ} {steps : List TransferStep}
    {t : BulkTransfer} {events : List TransferEvent}
    (h : (init sockStream sendSize maxBytes).run steps = some (t, events)) :
    Projects sockStream sendSize maxBytes steps t events := by
  refine PartialMealy.run_invariant (I := Projects sockStream sendSize maxBytes) h
    ⟨rfl, rfl, rfl, rfl⟩ ?_
  intro is i s₁ before s₂ out _ hstep hbefore
  exact hbefore.concat hstep

/-- The bytes of the packets are the ones that the sink reads. -/
lemma bytes_arrivals (steps : List TransferStep) :
    AppRxCb.bytes (arrivals steps) = bytesRead (sinkSteps steps) := by
  have hsum : ∀ (timeUs : ℕ) (sizes : List ℕ),
      AppRxCb.bytes (sizes.map fun size => (timeUs, size)) = sizes.sum := by
    intro timeUs sizes
    rw [AppRxCb.bytes, List.map_map]
    exact congrArg List.sum (List.map_id sizes)
  induction steps with
  | nil => rfl
  | cons i steps ih =>
    have hsplit : arrivals (i :: steps) = stepArrivals i ++ arrivals steps := List.flatMap_cons
    rw [hsplit, AppRxCb.bytes_append, ih]
    cases i with
    | sender i =>
      rw [stepArrivals, AppRxCb.bytes_nil, Nat.zero_add]
      · rfl
      · intro timeUs packets h
        cases h
    | sink timeUs i =>
      have hsinks : sinkSteps (.sink timeUs i :: steps) = [i] ++ sinkSteps steps := rfl
      have hstep : AppRxCb.bytes (stepArrivals (.sink timeUs i)) = bytesRead [i] := by
        cases i with
        | handleRead packets => rw [bytesRead_handleRead, stepArrivals, hsum]
        | _ => rfl
      rw [hsinks, bytesRead_append, hstep]

/-- A sender with a limit of a thousand bytes, and a sink that reads the bytes in two pieces. -/
def thousand : List TransferStep :=
  [.sink 0 .startApplication, .sender (.startApplication []), .sink 100 (.handleAccept 0),
    .sender (.connectionSucceeded [512, -1]), .sink 200 (.handleRead [300]),
    .sender (.dataSend [488]), .sink 300 (.handleRead [700, 0])]

/-- What it leads to. -/
def thousandEnd : BulkTransfer where
  sender := ⟨true, 512, 1000, true, false, 1000⟩
  waiting := 0
  sink := ⟨true, [0], 1000⟩
  rxByteCount := 1000

/-- What is observed. -/
def thousandEvents : List TransferEvent :=
  [.sink .listen, .sender .connect, .sender (.send 512 512), .sender (.txTrace 512),
    .sender (.send 488 (-1)), .sink (.rxTrace 300), .log (200, 300), .sender (.send 488 488),
    .sender (.txTrace 488), .sender .close, .sink (.rxTrace 700), .log (300, 1000)]

lemma run_thousand :
    (init true 512 1000).run thousand = some (thousandEnd, thousandEvents) := by
  decide +kernel

/-! ### Runs -/

section Runs

variable {sockStream : Bool} {sendSize maxBytes : ℕ} {steps : List TransferStep} {t : BulkTransfer}
  {events : List TransferEvent}

/-- The numbers of bytes in a run whose byte limit fits the counters. -/
lemma bytes_run (h : (init sockStream sendSize maxBytes).run steps = some (t, events))
    (hproper : ∀ action ∈ senderActions events, action.Proper) (hpos : 0 < maxBytes)
    (hmax : maxBytes < 2 ^ 63) :
    t.sender.totBytes = acceptedBytes (senderActions events) ∧
      acceptedBytes (senderActions events) ≤ maxBytes ∧
      t.sink.totalRx = AppRxCb.bytes (arrivals steps) ∧
      t.sink.totalRx + t.waiting = t.sender.totBytes := by
  have hparts := projects_run h
  have htotals := MeshSimBulkSendApplication.totals_run hparts.sender hproper (by omega)
  have hle := htotals.le hpos
  have htot := htotals.totBytes (by omega)
  have hwaiting := hparts.waiting
  have hsink := hparts.sink
  have hread : t.sink.totalRx = AppRxCb.bytes (arrivals steps) := by
    have hlt : bytesRead (sinkSteps steps) < 2 ^ 64 := by
      rw [← bytes_arrivals]
      omega
    have hrx := totalRx_run hlt
    rwa [hsink, ← bytes_arrivals] at hrx
  exact ⟨htot, hle, hread, by omega⟩

/-- The sink has all bytes exactly when the sender has closed the connection and no byte is
waiting. -/
lemma all_iff_closed (h : (init sockStream sendSize maxBytes).run steps = some (t, events))
    (hproper : ∀ action ∈ senderActions events, action.Proper) (hpos : 0 < maxBytes)
    (hmax : maxBytes < 2 ^ 63) (hstop : .stopApplication ∉ senderSteps steps)
    (honce : (senderSteps steps).countP BulkStep.connects = 1) :
    t.sink.totalRx = maxBytes ↔ closeCalls (senderActions events) = 1 ∧ t.waiting = 0 := by
  obtain ⟨htot, hle, -, hsum⟩ := bytes_run h hproper hpos hmax
  have hparts := projects_run h
  have hset := MeshSimBulkSendApplication.settled_run hparts.sender hproper hstop honce
  have htotals := MeshSimBulkSendApplication.totals_run hparts.sender hproper (by omega)
  have hcloses := hset.closes
  rw [htotals.attributes.2] at hcloses
  constructor
  · intro hall
    have hdone : t.sender.totBytes = maxBytes := by omega
    rw [hcloses, if_pos ⟨rfl, hdone⟩]
    exact ⟨rfl, by omega⟩
  · rintro ⟨hclosed, hnone⟩
    rw [hclosed] at hcloses
    have hdone : t.sender.totBytes = maxBytes := by
      by_contra hne
      rw [if_neg fun hyes => hne hyes.2] at hcloses
      cases hcloses
    omega

/-- The log has a line for every packet that the sink has read. -/
lemma log_run (h : (init sockStream sendSize maxBytes).run steps = some (t, events))
    (hfits : AppRxCb.Fits (arrivals steps)) :
    t.rxByteCount = AppRxCb.bytes (arrivals steps) ∧
      logLines events = AppRxCb.counts 0 (arrivals steps) := by
  have hlog := (projects_run h).log
  rw [AppRxCb.runByteCounts_eq hfits] at hlog
  obtain ⟨hcount, hlines⟩ := Prod.mk.inj hlog
  exact ⟨hcount.symm, hlines.symm⟩

/-- **A bulk transfer.** In every run in which the times fit the log, with a byte limit that fits
the counters and proper answers of the socket of the sender: no byte is lost or made up, the sink
and the log count the bytes read, and these do not go beyond the limit.  When the connection
succeeds once and the sender is not stopped, the sink has all bytes exactly when the sender has
closed the connection and no byte is waiting. -/
theorem bulk_transfer (h : (init sockStream sendSize maxBytes).run steps = some (t, events))
    (hproper : ∀ action ∈ senderActions events, action.Proper) (hpos : 0 < maxBytes)
    (hmax : maxBytes < 2 ^ 63) (htimes : ∀ a ∈ arrivals steps, a.1 < 2 ^ 63) :
    t.sink.totalRx + t.waiting = t.sender.totBytes ∧ t.sender.totBytes ≤ maxBytes ∧
      t.rxByteCount = t.sink.totalRx ∧ logLines events = AppRxCb.counts 0 (arrivals steps) ∧
      (.stopApplication ∉ senderSteps steps →
        (senderSteps steps).countP BulkStep.connects = 1 →
        (t.sink.totalRx = maxBytes ↔
          closeCalls (senderActions events) = 1 ∧ t.waiting = 0)) := by
  obtain ⟨htot, hle, hread, hsum⟩ := bytes_run h hproper hpos hmax
  obtain ⟨hcount, hlines⟩ := log_run h ⟨htimes, by omega⟩
  exact ⟨hsum, htot ▸ hle, hread ▸ hcount, hlines, all_iff_closed h hproper hpos hmax⟩

/-- The thousand bytes. -/
theorem bulk_transfer_thousand :
    thousandEnd.sink.totalRx + thousandEnd.waiting = thousandEnd.sender.totBytes ∧
      thousandEnd.sender.totBytes ≤ 1000 ∧ thousandEnd.rxByteCount = thousandEnd.sink.totalRx ∧
      logLines thousandEvents = AppRxCb.counts 0 (arrivals thousand) ∧
      (.stopApplication ∉ senderSteps thousand →
        (senderSteps thousand).countP BulkStep.connects = 1 →
        (thousandEnd.sink.totalRx = 1000 ↔
          closeCalls (senderActions thousandEvents) = 1 ∧ thousandEnd.waiting = 0)) :=
  bulk_transfer run_thousand (by decide) (by decide) (by decide) (by decide)

end Runs

/-! ### Progress -/

/-- The sink can read all bytes that are waiting. -/
lemma exists_read (t : BulkTransfer) (timeUs : ℕ) :
    ∃ packets t' events', t.step (.sink timeUs (.handleRead packets)) = some (t', events') ∧
      t'.sender = t.sender ∧ t'.waiting = 0 ∧ senderActions events' = [] := by
  have hread : ∃ packets, (packetsRead packets).sum = t.waiting := by
    by_cases hzero : t.waiting = 0
    · exact ⟨[], hzero.symm⟩
    · refine ⟨[t.waiting], ?_⟩
      rw [packetsRead_cons hzero]
      exact Nat.add_zero _
  obtain ⟨packets, hsum⟩ := hread
  have hbytes : AppRxCb.bytes (stepArrivals (.sink timeUs (.handleRead packets))) = t.waiting := by
    have h := bytes_arrivals [.sink timeUs (.handleRead packets)]
    rw [arrivals, List.flatMap_cons, List.flatMap_nil, List.append_nil] at h
    rw [h, ← hsum]
    exact bytesRead_handleRead packets
  refine ⟨packets, _, _, (step_sink t timeUs _).trans (if_pos hbytes.le), rfl, ?_,
    (parts_sink _ _).1⟩
  dsimp only
  rw [hbytes, Nat.sub_self]

section Runs

variable {sockStream : Bool} {sendSize maxBytes : ℕ} {steps : List TransferStep} {t : BulkTransfer}
  {events : List TransferEvent}

/-- **A bulk transfer cannot get stuck.** Wherever a run has led in which the connection has
succeeded once and the sender has not been stopped, it can go on so that the sink has all bytes: the
sender is told that there is space for all of them, and the sink reads what is waiting. -/
theorem bulk_transfer_completes
    (h : (init sockStream sendSize maxBytes).run steps = some (t, events))
    (hproper : ∀ action ∈ senderActions events, action.Proper) (hpos : 0 < maxBytes)
    (hmax : maxBytes < 2 ^ 63) (hsend : 0 < sendSize) (hsize : sendSize < 2 ^ 32 - 1)
    (hstop : .stopApplication ∉ senderSteps steps)
    (honce : (senderSteps steps).countP BulkStep.connects = 1) (timeUs : ℕ) :
    ∃ answers packets t' events',
      (init sockStream sendSize maxBytes).run
        (steps ++ [.sender (.dataSend answers), .sink timeUs (.handleRead packets)]) =
          some (t', events ++ events') ∧
      (∀ action ∈ senderActions events', action.Proper) ∧ t'.sink.totalRx = maxBytes := by
  have hparts := projects_run h
  have htotals := MeshSimBulkSendApplication.totals_run hparts.sender hproper (by omega)
  have hset := MeshSimBulkSendApplication.settled_run hparts.sender hproper hstop honce
  obtain ⟨hsize', hmax'⟩ := htotals.attributes
  -- the sender sends all bytes, unless it has done so before
  obtain ⟨answers, a, actions, hdata, hactions, hall⟩ :
      ∃ answers a actions, t.sender.step (.dataSend answers) = some (a, actions) ∧
        (∀ action ∈ actions, action.Proper) ∧ maxBytes ≤ a.totBytes := by
    by_cases hconn : t.sender.connected = true
    · obtain ⟨answers, a, actions, hdata, hactions, hall⟩ :=
        MeshSimBulkSendApplication.exists_dataSend hconn (hset.socket rfl) (by omega) (by omega)
          (by omega) (by omega)
      have hattributes := (htotals.step (by omega) hdata hactions).attributes
      exact ⟨answers, a, actions, hdata, hactions, hattributes.2 ▸ hall⟩
    · have hdone : t.sender.totBytes = t.sender.maxBytes := by
        by_contra hne
        exact hconn (hset.connected.mpr ⟨rfl, hne⟩)
      refine ⟨[], t.sender, [], ?_, fun _ hmem => absurd hmem List.not_mem_nil, by omega⟩
      rw [MeshSimBulkSendApplication.step, if_pos (hset.socket rfl),
        MeshSimBulkSendApplication.sendDataIfConnected, if_neg hconn, if_pos rfl]
  -- and the sink reads them
  obtain ⟨packets, t', lines, hread, hsender, hwaiting, hsilent⟩ :=
    exists_read { t with sender := a, waiting := t.waiting + acceptedBytes actions } timeUs
  have hstep : t.step (.sender (.dataSend answers)) =
      some ({ t with sender := a, waiting := t.waiting + acceptedBytes actions },
        actions.map .sender) := by
    rw [step, hdata]
    rfl
  have hrun : (init sockStream sendSize maxBytes).run
      (steps ++ [.sender (.dataSend answers), .sink timeUs (.handleRead packets)]) =
        some (t', events ++ (actions.map .sender ++ lines)) := by
    have hfirst : (init sockStream sendSize maxBytes).run (steps ++ [.sender (.dataSend answers)]) =
        some ({ t with sender := a, waiting := t.waiting + acceptedBytes actions },
          events ++ actions.map .sender) :=
      PartialMealy.run_concat_eq_some_iff.mpr ⟨t, events, _, h, hstep, rfl⟩
    have hsplit : steps ++ [.sender (.dataSend answers), .sink timeUs (.handleRead packets)] =
        (steps ++ [.sender (.dataSend answers)]) ++ [.sink timeUs (.handleRead packets)] := by
      rw [List.append_assoc]
      rfl
    rw [hsplit, ← List.append_assoc]
    exact PartialMealy.run_concat_eq_some_iff.mpr ⟨_, _, lines, hfirst, hread, rfl⟩
  have hnew : senderActions (actions.map .sender ++ lines) = actions := by
    rw [senderActions_append, (parts_sender actions).1, hsilent, List.append_nil]
  refine ⟨answers, packets, t', actions.map .sender ++ lines, hrun, hnew ▸ hactions, ?_⟩
  have hproper' : ∀ action ∈ senderActions (events ++ (actions.map .sender ++ lines)),
      action.Proper := by
    rw [senderActions_append, hnew, List.forall_mem_append]
    exact ⟨hproper, hactions⟩
  obtain ⟨htot, hle, -, hsum⟩ := bytes_run hrun hproper' hpos hmax
  have hsender' : t'.sender.totBytes = a.totBytes := by rw [hsender]
  omega

/-- The thousand bytes, when the sender has not sent any of them. -/
theorem bulk_transfer_completes_thousand :
    ∃ answers packets t' events',
      (init true 512 1000).run
        ([.sender (.startApplication []), .sender (.connectionSucceeded [-1])] ++
          [.sender (.dataSend answers), .sink 100 (.handleRead packets)]) =
          some (t', [.sender .connect, .sender (.send 512 (-1))] ++ events') ∧
      (∀ action ∈ senderActions events', action.Proper) ∧ t'.sink.totalRx = 1000 := by
  have h : (init true 512 1000).run
      [.sender (.startApplication []), .sender (.connectionSucceeded [-1])] =
        some (⟨⟨true, 512, 1000, true, true, 0⟩, 0, .init, 0⟩,
          [.sender .connect, .sender (.send 512 (-1))]) := by
    decide
  exact bulk_transfer_completes h (by decide) (by decide) (by decide) (by decide) (by decide)
    (by decide) (by decide) 100

/-! ### The results database -/

/-- **The row of a bulk transfer.** Let the log of the sink, behind the header of its trace file, be
read by `createresultsdb`.  When the sink has read something, the row of the log has the number of
bytes read in `max_bytes_recv`; so it has the byte limit there exactly when the sender has closed
the connection and no byte is waiting. -/
theorem bulk_transfer_recorded {R : Type} [Zero R] [Mul R] [Div R] [IntCast R] [OfNat R 8]
    [OfNat R 8000000] {std : List ℤ → R} {orderByTime : List RateBins.Sample → List RateBins.Sample}
    (hperm : ∀ samples, (orderByTime samples).Perm samples)
    (hsorted : ∀ samples, (orderByTime samples).Pairwise fun a b => a.1 ≤ b.1)
    (h : (init sockStream sendSize maxBytes).run steps = some (t, events))
    (hproper : ∀ action ∈ senderActions events, action.Proper) (hpos : 0 < maxBytes)
    (hmax : maxBytes < 2 ^ 63) (htimes : ∀ a ∈ arrivals steps, a.1 < 2 ^ 63)
    (hclock : (arrivals steps).Pairwise fun a b => a.1 ≤ b.1) (hread : arrivals steps ≠ [])
    {header : List (List Char)} (hheader : ∀ l ∈ header, PythonText.OneLine l ∧ l.head? = some '#')
    (id : ℕ) :
    ∃ samples row,
      createTraceAppRxSamplesTable [(id, (header.flatMap fun l => l ++ ['\n']) ++
        (logLines events).flatMap ByteCount.text)] = some samples ∧
      createTraceAppRxSummariesTable std orderByTime samples [id] = some [row] ∧
      row.maxBytesRecv = some (t.sink.totalRx : ℤ) ∧
      (.stopApplication ∉ senderSteps steps →
        (senderSteps steps).countP BulkStep.connects = 1 →
        (row.maxBytesRecv = some (maxBytes : ℤ) ↔
          closeCalls (senderActions events) = 1 ∧ t.waiting = 0)) := by
  obtain ⟨htot, hle, hbytes, hsum⟩ := bytes_run h hproper hpos hmax
  have hfits : AppRxCb.Fits (arrivals steps) := ⟨htimes, by omega⟩
  obtain ⟨-, hlines⟩ := log_run h hfits
  obtain ⟨log, hid, hheader', harrivals⟩ : ∃ log : RxLog,
      log.id = id ∧ log.header = header ∧ log.arrivals = arrivals steps :=
    ⟨⟨_, _, _⟩, rfl, rfl, rfl⟩
  have hlog : log.Written :=
    ⟨hheader' ▸ hheader, harrivals ▸ hfits, harrivals ▸ hclock⟩
  have htext := createTraceAppRxSamplesTable_text (List.forall_mem_singleton.mpr hlog)
  rw [List.map_singleton, RxLog.text, harrivals, AppRxCb.runByteCounts_eq hfits, ← hlines, hid,
    hheader'] at htext
  have hsamples : samplesOf ([log].flatMap RxLog.samples) log.id =
      AppRxCb.counts 0 log.arrivals := by
    have hids : ([log].map RxLog.id).Nodup := List.nodup_singleton _
    exact samplesOf_flatMap hids List.mem_cons_self
  obtain ⟨row, hrow, hsummed⟩ := summedUp_of_samplesOf std hperm hsorted hlog hsamples
  have hmaxBytes : row.maxBytesRecv = some (t.sink.totalRx : ℤ) := by
    rw [← harrivals] at hread
    have hfirst := List.head?_eq_some_head hread
    have hlast := List.getLast?_eq_some_getLast hread
    rw [(hsummed.measured _ _ hfirst hlast).bytes.1, hbytes, harrivals]
  refine ⟨_, row, htext, ?_, hmaxBytes, fun hstop honce => ?_⟩
  · rw [createTraceAppRxSummariesTable, List.mapM_cons, List.mapM_nil, ← hid, hrow]
    rfl
  · rw [hmaxBytes, ← all_iff_closed h hproper hpos hmax hstop honce, Option.some_inj, Nat.cast_inj]

/-- The thousand bytes, which are received within less than two seconds. -/
theorem bulk_transfer_recorded_thousand :
    ∃ samples row,
      createTraceAppRxSamplesTable [(0, ([['#']].flatMap fun l => l ++ ['\n']) ++
        (logLines thousandEvents).flatMap ByteCount.text)] = some samples ∧
      createTraceAppRxSummariesTable (fun _ => (0 : ℚ)) sortByTime samples [0] = some [row] ∧
      row.maxBytesRecv = some (thousandEnd.sink.totalRx : ℤ) ∧
      (.stopApplication ∉ senderSteps thousand →
        (senderSteps thousand).countP BulkStep.connects = 1 →
        (row.maxBytesRecv = some ((1000 : ℕ) : ℤ) ↔
          closeCalls (senderActions thousandEvents) = 1 ∧ thousandEnd.waiting = 0)) := by
  refine bulk_transfer_recorded perm_sortByTime pairwise_sortByTime run_thousand (by decide)
    (by decide) (by decide) (by decide) (by decide) (by decide) ?_ 0
  rw [List.forall_mem_singleton]
  exact ⟨⟨by decide, by decide⟩, rfl⟩

end Runs

end BulkTransfer

end MeshSim
