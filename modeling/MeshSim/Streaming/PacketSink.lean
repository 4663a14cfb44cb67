import MeshSim.Foundation.MachineInt
import MeshSim.Foundation.Mealy

/-!
# The packet sink

`ns3_apps/packet-sink.cc`: the application that reads what its sockets have received, counts the
bytes and calls the trace source for every packet.

The sockets are outside of the program.  A call of `HandleRead` has the sizes of the packets that
the socket would return as an argument; an empty packet stands for the end of the stream, behind
which nothing is read.  Binding the socket succeeds, and the local address is no multicast address.
-/

namespace MeshSim

open MachineInt

/-- The members of `MeshSimPacketSink`. -/
structure MeshSimPacketSink where
  /-- Whether `m_socket`, the listening socket, is set. -/
  socket : Bool
  /-- `m_socketList`: the accepted sockets, by number. -/
  socketList : List ℕ
  /-- `m_totalRx`, a `uint64_t`. -/
  totalRx : ℕ
deriving DecidableEq, Repr

/-- What the sink does to its sockets and its trace sources. -/
inductive SinkAction where
  /-- `Listen` on the listening socket. -/
  | listen
  /-- `Close` on the listening socket. -/
  | closeListening
  /-- `Close` on an accepted socket. -/
  | close (socket : ℕ)
  /-- `m_rxTrace` and `m_rxTraceWithAddresses` with a packet of some size. -/
  | rxTrace (size : ℕ)
deriving DecidableEq, Repr

/-- The events that drive the sink. -/
inductive SinkStep where
  /-- The simulator calls `StartApplication`. -/
  | startApplication
  /-- The simulator calls `StopApplication`. -/
  | stopApplication
  /-- The listening socket calls `HandleAccept`. -/
  | handleAccept (socket : ℕ)
  /-- A socket calls `HandleRead`. -/
  | handleRead (packets : List ℕ)
  /-- A socket calls `HandlePeerClose` or `HandlePeerError`. -/
  | handlePeer
deriving DecidableEq, Repr

namespace MeshSimPacketSink

/-- The constructor. -/
def init : MeshSimPacketSink where
  socket := false
  socketList := []
  totalRx := 0

/-- The loop of `HandleRead`. -/
def handleRead : List ℕ → MeshSimPacketSink → MeshSimPacketSink × List SinkAction
  | [], s => (s, [])
  | size :: packets, s =>
    -- the end of the stream
    if size = 0 then (s, [])
    else
      let r := handleRead packets { s with totalRx := u64 (s.totalRx + size) }
      (r.1, .rxTrace size :: r.2)

/-- One step. -/
def step (s : MeshSimPacketSink) : SinkStep → MeshSimPacketSink × List SinkAction
  | .startApplication => if s.socket then (s, []) else ({ s with socket := true }, [.listen])
  | .stopApplication =>
    ({ s with socketList := [] },
      s.socketList.map .close ++ if s.socket then [.closeListening] else [])
  | .handleAccept socket => ({ s with socketList := s.socketList ++ [socket] }, [])
  | .handleRead packets => s.handleRead packets
  | .handlePeer => (s, [])

/-- A run, with what the sink does on the way. -/
def run (s : MeshSimPacketSink) (steps : List SinkStep) : MeshSimPacketSink × List SinkAction :=
  Mealy.run step s steps

/-! ### What is read -/

/-- The packets that `HandleRead` reads: those in front of the end of the stream. -/
def packetsRead (packets : List ℕ) : List ℕ := packets.takeWhile fun size => size ≠ 0

@[simp] lemma packetsRead_nil : packetsRead [] = [] := rfl

@[simp] lemma packetsRead_zero (packets : List ℕ) : packetsRead (0 :: packets) = [] := rfl

lemma packetsRead_cons {size : ℕ} (h : size ≠ 0) (packets : List ℕ) :
    packetsRead (size :: packets) = size :: packetsRead packets := by
  rw [packetsRead, List.takeWhile_cons_of_pos (by simpa using h)]
  rfl

/-- **What `HandleRead` does**: every packet in front of the end of the stream is traced, and
counted. -/
theorem handleRead_eq (packets : List ℕ) {s : MeshSimPacketSink}
    (hlt : s.totalRx + (packetsRead packets).sum < 2 ^ 64) :
    s.handleRead packets = ({ s with totalRx := s.totalRx + (packetsRead packets).sum },
      (packetsRead packets).map .rxTrace) := by
  induction packets generalizing s with
  | nil => rfl
  | cons size packets ih =>
    by_cases hzero : size = 0
    · subst hzero
      rfl
    · rw [packetsRead_cons hzero, List.sum_cons, ← Nat.add_assoc] at hlt
      have htotal : u64 ((s.totalRx : ℤ) + size) = s.totalRx + size := by
        rw [← Nat.cast_add]
        exact u64_of_lt ((Nat.le_add_right _ _).trans_lt hlt)
      rw [handleRead, if_neg hzero]
      dsimp only
      rw [htotal, ih hlt, packetsRead_cons hzero, List.sum_cons, Nat.add_assoc, List.map_cons]

/-- The bytes that the sink reads. -/
def bytesRead (steps : List SinkStep) : ℕ :=
  (steps.map fun
    | .handleRead packets => (packetsRead packets).sum
    | _ => 0).sum

lemma bytesRead_append (steps steps' : List SinkStep) :
    bytesRead (steps ++ steps') = bytesRead steps + bytesRead steps' := by
  rw [bytesRead, List.map_append, List.sum_append]
  rfl

@[simp] lemma bytesRead_handleRead (packets : List ℕ) :
    bytesRead [.handleRead packets] = (packetsRead packets).sum := Nat.add_zero _

/-- **The counter of the sink.** After every run it is the number of bytes read, unless that does
not fit it. -/
theorem totalRx_run {steps : List SinkStep} (hlt : bytesRead steps < 2 ^ 64) :
    (init.run steps).1.totalRx = bytesRead steps := by
  refine Mealy.run_invariant step
    (I := fun is s _ => bytesRead is < 2 ^ 64 → s.totalRx = bytesRead is) steps
    (fun _ => rfl) ?_ hlt
  intro is i _ ih hlt
  rw [bytesRead_append] at hlt ⊢
  have hbefore := ih ((Nat.le_add_right _ _).trans_lt hlt)
  cases i with
  | startApplication =>
    rw [step, ← hbefore]
    split <;> rfl
  | stopApplication => exact hbefore
  | handleAccept socket => exact hbefore
  | handleRead packets =>
    rw [bytesRead_handleRead, ← hbefore] at hlt ⊢
    rw [step, handleRead_eq packets hlt]
  | handlePeer => exact hbefore

/-! ### The accepted sockets -/

/-- The sockets accepted by some steps. -/
def accepted (steps : List SinkStep) : List ℕ :=
  steps.filterMap fun
    | .handleAccept socket => some socket
    | _ => none

/-- The accepted sockets that are closed by some actions. -/
def closed (actions : List SinkAction) : List ℕ :=
  actions.filterMap fun
    | .close socket => some socket
    | _ => none

/-- Reading closes no socket. -/
lemma handleRead_sockets (packets : List ℕ) (s : MeshSimPacketSink) :
    (s.handleRead packets).1.socketList = s.socketList ∧ closed (s.handleRead packets).2 = [] := by
  induction packets generalizing s with
  | nil => exact ⟨rfl, rfl⟩
  | cons size packets ih =>
    rw [handleRead]
    split
    · exact ⟨rfl, rfl⟩
    · exact ih _

/-- What `StopApplication` closes. -/
lemma closed_map_close (sockets : List ℕ) (actions : List SinkAction) :
    closed (sockets.map .close ++ actions) = sockets ++ closed actions := by
  induction sockets with
  | nil => rfl
  | cons socket sockets ih =>
    rw [List.map_cons, List.cons_append, List.cons_append, ← ih]
    rfl

/-- **No accepted socket is lost.** After every run the sockets closed, in that order, and those
still listed are the ones accepted; so each of them is closed once when the sink is stopped. -/
theorem accepted_run (steps : List SinkStep) :
    accepted steps = closed (init.run steps).2 ++ (init.run steps).1.socketList := by
  refine Mealy.run_invariant step
    (I := fun is s out => accepted is = closed out ++ s.socketList) steps rfl ?_
  intro is i _ hinv
  have happend : ∀ out out' : List SinkAction, closed (out ++ out') = closed out ++ closed out' :=
    fun out out' => List.filterMap_append
  have haccepted : accepted (is ++ [i]) = accepted is ++ accepted [i] := List.filterMap_append
  rw [happend, haccepted, hinv]
  cases i with
  | startApplication =>
    rw [step]
    split <;> simp [accepted, closed]
  | stopApplication =>
    have hlisten : ∀ b : Bool,
        closed (if b = true then [SinkAction.closeListening] else []) = [] := by decide
    rw [step, closed_map_close, hlisten]
    simp [accepted]
  | handleAccept socket => simp [accepted, closed, step]
  | handleRead packets =>
    obtain ⟨hlist, hclosed⟩ := handleRead_sockets packets (Mealy.run step init is).1
    rw [step, hlist, hclosed]
    simp [accepted]
  | handlePeer => simp [accepted, closed, step]

end MeshSimPacketSink

end MeshSim
