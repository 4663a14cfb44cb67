import MeshSim.Foundation.MachineInt
import MeshSim.Foundation.PartialMealy

/-!
# The bulk sender

`ns3_apps/bulk-send-application.cc`: the application that sends as fast as its socket accepts bytes,
until a byte limit is reached, and closes the connection then.

The socket is outside of the program.  A step of the application that calls `Send` has the answers
of the socket as an argument, one for each call; a list of answers that is too short or too long for
the calls that are made has no result, nor has a fatal error or a call on a missing socket.  Binding
and connecting the socket succeed.  All bytes are zero, so that a packet is its size.
-/

namespace MeshSim

open MachineInt

/-- The members of `MeshSimBulkSendApplication`. -/
structure MeshSimBulkSendApplication where
  /-- Whether the sockets of `m_tid` are of type `NS3_SOCK_STREAM` or `NS3_SOCK_SEQPACKET`. -/
  sockStream : Bool
  /-- `m_sendSize`, a `uint32_t`. -/
  sendSize : ℕ
  /-- `m_maxBytes`, a `uint64_t`, where zero means that there is no limit. -/
  maxBytes : ℕ
  /-- Whether `m_socket` is set. -/
  socket : Bool
  /-- `m_connected`. -/
  connected : Bool
  /-- `m_totBytes`, a `uint64_t`. -/
  totBytes : ℕ
deriving DecidableEq, Repr

/-- What the application does to its socket and its trace source. -/
inductive BulkAction where
  /-- `Connect`. -/
  | connect
  /-- `Send` with a packet of some size, and the answer of the socket. -/
  | send (size : ℕ) (actual : ℤ)
  /-- `m_txTrace` with a packet of some size. -/
  | txTrace (size : ℕ)
  /-- `Close`. -/
  | close
deriving DecidableEq, Repr

/-- The events that drive the application. -/
inductive BulkStep where
  /-- The simulator calls `StartApplication`. -/
  | startApplication (answers : List ℤ)
  /-- The simulator calls `StopApplication`. -/
  | stopApplication
  /-- The socket calls `ConnectionSucceeded`. -/
  | connectionSucceeded (answers : List ℤ)
  /-- The socket calls `ConnectionFailed`. -/
  | connectionFailed
  /-- The socket calls `DataSend`: it has freed space. -/
  | dataSend (answers : List ℤ)
  /-- The socket calls `HandleRead`. -/
  | handleRead
deriving DecidableEq, Repr

namespace MeshSimBulkSendApplication

/-- The constructor, behind which the attributes are set. -/
def init (sockStream : Bool) (sendSize maxBytes : ℕ) : MeshSimBulkSendApplication where
  sockStream := sockStream
  sendSize := sendSize
  maxBytes := maxBytes
  socket := false
  connected := false
  totBytes := 0

/-- The condition of the loop of `SendData`. -/
def sendsMore (a : MeshSimBulkSendApplication) : Bool :=
  a.maxBytes = 0 || a.totBytes < a.maxBytes

/-- `toSend`. -/
def toSend (a : MeshSimBulkSendApplication) : ℕ :=
  if 0 < a.maxBytes then min a.sendSize (a.maxBytes - a.totBytes) else a.sendSize

/-- An answer of the socket is added to the total. -/
def count (a : MeshSimBulkSendApplication) (actual : ℤ) : MeshSimBulkSendApplication :=
  if 0 < actual then { a with totBytes := u64 (a.totBytes + actual) } else a

/-- A call of `Send`, and the trace behind it. -/
def sendActions (a : MeshSimBulkSendApplication) (actual : ℤ) : List BulkAction :=
  .send a.toSend actual :: if 0 < actual then [.txTrace a.toSend] else []

/-- The loop of `SendData`. -/
def sendLoop : List ℤ → MeshSimBulkSendApplication →
    Option (MeshSimBulkSendApplication × List BulkAction)
  | [], a => if a.sendsMore then none else some (a, [])
  | actual :: answers, a =>
    if a.sendsMore then
      -- the socket has not accepted the whole packet, and the loop is left
      if u32 actual ≠ a.toSend then
        if answers = [] then some (a.count actual, a.sendActions actual) else none
      else (sendLoop answers (a.count actual)).map fun r => (r.1, a.sendActions actual ++ r.2)
    else none

/-- `SendData`. -/
def sendData (answers : List ℤ) (a : MeshSimBulkSendApplication) :
    Option (MeshSimBulkSendApplication × List BulkAction) :=
  (sendLoop answers a).map fun r =>
    if r.1.totBytes = r.1.maxBytes ∧ r.1.connected = true then
      ({ r.1 with connected := false }, r.2 ++ [.close])
    else r

/-- `SendData`, if the application is connected. -/
def sendDataIfConnected (answers : List ℤ) (a : MeshSimBulkSendApplication) :
    Option (MeshSimBulkSendApplication × List BulkAction) :=
  if a.connected then a.sendData answers
  else if answers = [] then some (a, [])
  else none

/-- One step.  The callbacks are set on the socket, which has to exist. -/
def step (a : MeshSimBulkSendApplication) :
    BulkStep → Option (MeshSimBulkSendApplication × List BulkAction)
  | .startApplication answers =>
    if a.socket then a.sendDataIfConnected answers
    else if a.sockStream then
      (sendDataIfConnected answers { a with socket := true }).map fun r => (r.1, .connect :: r.2)
    else none
  | .stopApplication =>
    if a.socket then some ({ a with connected := false }, [.close]) else some (a, [])
  | .connectionSucceeded answers =>
    if a.socket then sendData answers { a with connected := true } else none
  | .connectionFailed => if a.socket then some (a, []) else none
  | .dataSend answers => if a.socket then a.sendDataIfConnected answers else none
  | .handleRead => if a.socket then some (a, []) else none

/-- A run, with what the application does on the way. -/
def run (a : MeshSimBulkSendApplication) (steps : List BulkStep) :
    Option (MeshSimBulkSendApplication × List BulkAction) :=
  PartialMealy.run step a steps

end MeshSimBulkSendApplication

/-! ### The bytes accepted -/

namespace BulkAction

/-- The bytes that the socket accepts with an action. -/
def accepted : BulkAction → ℕ
  | .send _ actual => actual.toNat
  | _ => 0

/-- A socket accepts at most the packet, and answers -1 when there is an error. -/
def Proper : BulkAction → Prop
  | .send size actual => -1 ≤ actual ∧ actual ≤ size
  | _ => True

instance : DecidablePred Proper := by
  intro action
  cases action <;> unfold Proper <;> infer_instance

end BulkAction

/-- Whether a step is the success of the connection. -/
def BulkStep.connects : BulkStep → Bool
  | .connectionSucceeded _ => true
  | _ => false

/-- The bytes that the socket has accepted. -/
def acceptedBytes (actions : List BulkAction) : ℕ := (actions.map BulkAction.accepted).sum

@[simp] lemma acceptedBytes_nil : acceptedBytes [] = 0 := rfl

@[simp] lemma acceptedBytes_connect_cons (actions : List BulkAction) :
    acceptedBytes (.connect :: actions) = acceptedBytes actions := by
  rw [acceptedBytes, List.map_cons, List.sum_cons]
  exact Nat.zero_add _

@[simp] lemma acceptedBytes_append (actions actions' : List BulkAction) :
    acceptedBytes (actions ++ actions') = acceptedBytes actions + acceptedBytes actions' := by
  rw [acceptedBytes, List.map_append, List.sum_append]
  rfl

/-- How often the connection is closed. -/
def closeCalls (actions : List BulkAction) : ℕ := actions.count .close

@[simp] lemma closeCalls_connect_cons (actions : List BulkAction) :
    closeCalls (.connect :: actions) = closeCalls actions := List.count_cons_of_ne (by decide)

@[simp] lemma closeCalls_append (actions actions' : List BulkAction) :
    closeCalls (actions ++ actions') = closeCalls actions + closeCalls actions' := List.count_append

namespace MeshSimBulkSendApplication

/-! ### The loop of `SendData` -/

/-- The bytes of one call of `Send`. -/
@[simp] lemma acceptedBytes_sendActions (a : MeshSimBulkSendApplication) (actual : ℤ) :
    acceptedBytes (a.sendActions actual) = actual.toNat := by
  unfold sendActions
  split <;> simp [acceptedBytes, BulkAction.accepted]

/-- A call of `Send` does not close the connection. -/
@[simp] lemma closeCalls_sendActions (a : MeshSimBulkSendApplication) (actual : ℤ) :
    closeCalls (a.sendActions actual) = 0 := by
  unfold sendActions
  split <;> rfl

/-- The answer to a call of `Send` is proper when its actions are. -/
lemma proper_of_sendActions {a : MeshSimBulkSendApplication} {actual : ℤ}
    (h : ∀ action ∈ a.sendActions actual, action.Proper) : -1 ≤ actual ∧ actual ≤ a.toSend :=
  h (.send a.toSend actual) List.mem_cons_self

/-- Counting an answer only changes the total. -/
lemma count_eq (a : MeshSimBulkSendApplication) (actual : ℤ) :
    a.count actual = { a with totBytes := (a.count actual).totBytes } := by
  unfold count
  split <;> rfl

/-- An answer is added to the total, without a wrap-around. -/
lemma totBytes_count {a : MeshSimBulkSendApplication} {actual : ℤ}
    (h : a.totBytes + actual.toNat < 2 ^ 64) :
    (a.count actual).totBytes = a.totBytes + actual.toNat := by
  unfold count
  split
  · rename_i hpos
    have hcast : (a.totBytes : ℤ) + actual = ((a.totBytes + actual.toNat : ℕ) : ℤ) := by
      rw [Nat.cast_add, Int.toNat_of_nonneg hpos.le]
    dsimp only
    rw [hcast]
    exact u64_of_lt h
  · rename_i hnot
    rw [Int.toNat_of_nonpos (not_lt.mp hnot), Nat.add_zero]

/-- With a byte limit, a packet does not go beyond it. -/
lemma toSend_le {a : MeshSimBulkSendApplication} (h : 0 < a.maxBytes) :
    a.toSend ≤ a.maxBytes - a.totBytes := by
  rw [toSend, if_pos h]
  exact Nat.min_le_right _ _

/-- What the loop of `SendData` does. -/
structure Sends (a a' : MeshSimBulkSendApplication) (actions : List BulkAction) : Prop where
  /-- Only the total changes. -/
  eq : a' = { a with totBytes := a'.totBytes }
  /-- The connection is not closed. -/
  closes : closeCalls actions = 0
  /-- With a byte limit, the bytes accepted do not go beyond it. -/
  le : 0 < a.maxBytes → a.maxBytes < 2 ^ 64 → a.totBytes ≤ a.maxBytes →
    a.totBytes + acceptedBytes actions ≤ a.maxBytes
  /-- The bytes accepted are added to the total. -/
  totBytes : a.totBytes + acceptedBytes actions < 2 ^ 64 →
    a'.totBytes = a.totBytes + acceptedBytes actions

/-- Not entering the loop. -/
lemma Sends.refl (a : MeshSimBulkSendApplication) : Sends a a [] where
  eq := rfl
  closes := rfl
  le := fun _ _ h => h
  totBytes := fun _ => rfl

/-- One call of `Send`. -/
lemma Sends.one {a : MeshSimBulkSendApplication} {actual : ℤ}
    (h : ∀ action ∈ a.sendActions actual, action.Proper) :
    Sends a (a.count actual) (a.sendActions actual) where
  eq := count_eq a actual
  closes := closeCalls_sendActions a actual
  le := by
    intro hpos _ hle
    have hsize := toSend_le hpos
    obtain ⟨-, hactual⟩ := proper_of_sendActions h
    rw [acceptedBytes_sendActions]
    omega
  totBytes := by
    rw [acceptedBytes_sendActions]
    exact totBytes_count

/-- One call of `Send` behind another. -/
lemma Sends.trans {a a' a'' : MeshSimBulkSendApplication} {actions actions' : List BulkAction}
    (h : Sends a a' actions) (h' : Sends a' a'' actions') :
    Sends a a'' (actions ++ actions') where
  eq := by
    rw [h'.eq, h.eq]
  closes := by
    rw [closeCalls_append, h.closes, h'.closes]
  le := by
    intro hpos hlt hle
    have hmax : a'.maxBytes = a.maxBytes := by rw [h.eq]
    have hfirst := h.le hpos hlt hle
    have htot := h.totBytes (hfirst.trans_lt hlt)
    have hrest := h'.le (hmax ▸ hpos) (hmax ▸ hlt) (by rw [htot, hmax]; exact hfirst)
    rw [htot, hmax] at hrest
    rw [acceptedBytes_append, ← Nat.add_assoc]
    exact hrest
  totBytes := by
    intro hlt
    rw [acceptedBytes_append, ← Nat.add_assoc] at hlt ⊢
    have htot := h.totBytes ((Nat.le_add_right _ _).trans_lt hlt)
    rw [← htot] at hlt ⊢
    exact h'.totBytes hlt

/-- **What the loop of `SendData` does**, with proper answers. -/
theorem sends_of_sendLoop {answers : List ℤ} {a a' : MeshSimBulkSendApplication}
    {actions : List BulkAction} (h : sendLoop answers a = some (a', actions))
    (hproper : ∀ action ∈ actions, action.Proper) : Sends a a' actions := by
  induction answers generalizing a actions with
  | nil =>
    rw [sendLoop] at h
    split at h
    · cases h
    · obtain ⟨rfl, rfl⟩ := Prod.mk.inj (Option.some.inj h)
      exact .refl a
  | cons actual answers ih =>
    rw [sendLoop] at h
    split at h
    · split at h
      · split at h
        · obtain ⟨rfl, rfl⟩ := Prod.mk.inj (Option.some.inj h)
          exact .one hproper
        · cases h
      · obtain ⟨r, hrest, heq⟩ := Option.map_eq_some_iff.mp h
        obtain ⟨rfl, rfl⟩ := Prod.mk.inj heq
        rw [List.forall_mem_append] at hproper
        exact (Sends.one hproper.1).trans (ih hrest hproper.2)
    · cases h

/-! ### Runs -/

/-- What `SendData` does when the application is connected: the loop, behind which the connection
is closed when the total is the byte limit. -/
structure SendsData (a a' : MeshSimBulkSendApplication) (actions : List BulkAction) : Prop where
  /-- Only the total and the connection change. -/
  eq : a' = { a with connected := a'.connected, totBytes := a'.totBytes }
  /-- With a byte limit, the bytes accepted do not go beyond it. -/
  le : 0 < a.maxBytes → a.maxBytes < 2 ^ 64 → a.totBytes ≤ a.maxBytes →
    a.totBytes + acceptedBytes actions ≤ a.maxBytes
  /-- The bytes accepted are added to the total. -/
  totBytes : a.totBytes + acceptedBytes actions < 2 ^ 64 →
    a'.totBytes = a.totBytes + acceptedBytes actions
  /-- The application stays connected when the total is not the byte limit. -/
  connected : a'.connected = true ↔ a'.totBytes ≠ a'.maxBytes
  /-- The connection is closed when the total is the byte limit. -/
  closes : closeCalls actions = if a'.totBytes = a'.maxBytes then 1 else 0

/-- **What `SendData` does**, with proper answers. -/
theorem sendsData_of_sendData {answers : List ℤ} {a a' : MeshSimBulkSendApplication}
    {actions : List BulkAction} (h : sendData answers a = some (a', actions))
    (hproper : ∀ action ∈ actions, action.Proper) (hconn : a.connected = true) :
    SendsData a a' actions := by
  obtain ⟨⟨b, sent⟩, hloop, heq⟩ := Option.map_eq_some_iff.mp h
  dsimp only at heq
  split at heq
  · rename_i hdone
    obtain ⟨rfl, rfl⟩ := Prod.mk.inj heq
    rw [List.forall_mem_append] at hproper
    have hsends := sends_of_sendLoop hloop hproper.1
    have haccepted : acceptedBytes (sent ++ [.close]) = acceptedBytes sent := by
      rw [acceptedBytes_append]
      rfl
    refine ⟨?_, ?_, ?_, ?_, ?_⟩
    · rw [hsends.eq]
    · rw [haccepted]
      exact hsends.le
    · rw [haccepted]
      exact hsends.totBytes
    · simp [hdone.1]
    · rw [closeCalls_append, hsends.closes, if_pos hdone.1]
      rfl
  · rename_i hnot
    obtain ⟨rfl, rfl⟩ := Prod.mk.inj heq
    have hsends := sends_of_sendLoop hloop hproper
    have hb : b.connected = true := by
      rw [hsends.eq]
      exact hconn
    have hne : b.totBytes ≠ b.maxBytes := fun hdone => hnot ⟨hdone, hb⟩
    refine ⟨?_, hsends.le, hsends.totBytes, ?_, ?_⟩
    · rw [hsends.eq]
    · simp [hb, hne]
    · rw [hsends.closes, if_neg hne]

/-! ### Steps -/

/-- What a step does that neither sends data nor stops: the socket may be created. -/
structure Idles (a a' : MeshSimBulkSendApplication) (actions : List BulkAction) : Prop where
  /-- Only the socket changes. -/
  eq : a' = { a with socket := a'.socket }
  /-- The socket stays when it exists. -/
  socket : a.socket = true → a'.socket = true
  /-- Nothing is accepted. -/
  accepted : acceptedBytes actions = 0
  /-- The connection is not closed. -/
  closes : closeCalls actions = 0

/-- A call that connects before sending data. -/
lemma SendsData.connect {a a' : MeshSimBulkSendApplication} {actions : List BulkAction}
    (h : SendsData a a' actions) : SendsData a a' (.connect :: actions) where
  eq := h.eq
  le := by
    rw [acceptedBytes_connect_cons]
    exact h.le
  totBytes := by
    rw [acceptedBytes_connect_cons]
    exact h.totBytes
  connected := h.connected
  closes := by
    rw [closeCalls_connect_cons]
    exact h.closes

/-- `SendData` is called when the application is connected, and nothing happens otherwise. -/
lemma sendDataIfConnected_cases {answers : List ℤ} {a a' : MeshSimBulkSendApplication}
    {actions : List BulkAction} (h : a.sendDataIfConnected answers = some (a', actions))
    (hproper : ∀ action ∈ actions, action.Proper) :
    (a' = a ∧ actions = []) ∨ (a.connected = true ∧ SendsData a a' actions) := by
  rw [sendDataIfConnected] at h
  split at h
  · exact .inr ⟨‹_›, sendsData_of_sendData h hproper ‹_›⟩
  · split at h
    · obtain ⟨rfl, rfl⟩ := Prod.mk.inj (Option.some.inj h)
      exact .inl ⟨rfl, rfl⟩
    · cases h

/-- **What a step does**, with proper answers: nothing to speak of, closing the connection, or
sending data, when the connection has succeeded before or does so now. -/
theorem step_cases {a a' : MeshSimBulkSendApplication} {i : BulkStep} {actions : List BulkAction}
    (h : a.step i = some (a', actions)) (hproper : ∀ action ∈ actions, action.Proper) :
    (i.connects = false ∧ Idles a a' actions) ∨
    (i = .stopApplication ∧ a' = { a with connected := false } ∧ actions = [.close]) ∨
    ((a.connected || i.connects) = true ∧
      SendsData { a with socket := true, connected := true } a' actions) := by
  have hopen : ∀ {a : MeshSimBulkSendApplication}, a.socket = true → a.connected = true →
      { a with socket := true, connected := true } = a := by
    rintro ⟨⟩ rfl rfl
    rfl
  cases i with
  | startApplication answers =>
    simp only [step] at h
    split at h
    · rename_i hsocket
      obtain ⟨rfl, rfl⟩ | ⟨hconn, hs⟩ := sendDataIfConnected_cases h hproper
      · exact .inl ⟨rfl, rfl, id, rfl, rfl⟩
      · rw [← hopen hsocket hconn] at hs
        exact .inr (.inr ⟨by rw [hconn]; rfl, hs⟩)
    · split at h
      · obtain ⟨⟨b, sent⟩, hsend, heq⟩ := Option.map_eq_some_iff.mp h
        obtain ⟨rfl, rfl⟩ := Prod.mk.inj heq
        have hsent : ∀ action ∈ sent, action.Proper :=
          fun action hmem => hproper action (List.mem_cons_of_mem _ hmem)
        obtain ⟨rfl, rfl⟩ | ⟨hconn, hs⟩ := sendDataIfConnected_cases hsend hsent
        · exact .inl ⟨rfl, rfl, fun _ => rfl, rfl, rfl⟩
        · have hyes : a.connected = true := hconn
          rw [← hopen rfl hconn] at hs
          exact .inr (.inr ⟨by rw [hyes]; rfl, hs.connect⟩)
      · cases h
  | stopApplication =>
    simp only [step] at h
    split at h
    · obtain ⟨rfl, rfl⟩ := Prod.mk.inj (Option.some.inj h)
      exact .inr (.inl ⟨rfl, rfl, rfl⟩)
    · obtain ⟨rfl, rfl⟩ := Prod.mk.inj (Option.some.inj h)
      exact .inl ⟨rfl, rfl, id, rfl, rfl⟩
  | connectionSucceeded answers =>
    simp only [step] at h
    split at h
    · rename_i hsocket
      have hs := sendsData_of_sendData h hproper rfl
      rw [← hopen (a := { a with connected := true }) hsocket rfl] at hs
      exact .inr (.inr ⟨Bool.or_true _, hs⟩)
    · cases h
  | connectionFailed =>
    simp only [step] at h
    split at h
    · obtain ⟨rfl, rfl⟩ := Prod.mk.inj (Option.some.inj h)
      exact .inl ⟨rfl, rfl, id, rfl, rfl⟩
    · cases h
  | dataSend answers =>
    simp only [step] at h
    split at h
    · rename_i hsocket
      obtain ⟨rfl, rfl⟩ | ⟨hconn, hs⟩ := sendDataIfConnected_cases h hproper
      · exact .inl ⟨rfl, rfl, id, rfl, rfl⟩
      · rw [← hopen hsocket hconn] at hs
        exact .inr (.inr ⟨by rw [hconn]; rfl, hs⟩)
    · cases h
  | handleRead =>
    simp only [step] at h
    split at h
    · obtain ⟨rfl, rfl⟩ := Prod.mk.inj (Option.some.inj h)
      exact .inl ⟨rfl, rfl, id, rfl, rfl⟩
    · cases h

/-! ### Runs -/

/-- What a run has done to the total and to the bytes accepted. -/
structure Totals (size limit : ℕ) (a : MeshSimBulkSendApplication) (actions : List BulkAction) :
    Prop where
  /-- The attributes stay. -/
  attributes : a.sendSize = size ∧ a.maxBytes = limit
  /-- With a byte limit, the bytes accepted do not go beyond it. -/
  le : 0 < limit → acceptedBytes actions ≤ limit
  /-- The total is the number of bytes accepted. -/
  totBytes : acceptedBytes actions < 2 ^ 64 → a.totBytes = acceptedBytes actions

/-- A step keeps the totals. -/
lemma Totals.step {size limit : ℕ} {a a' : MeshSimBulkSendApplication} {i : BulkStep}
    {before actions : List BulkAction} (ht : Totals size limit a before) (hlimit : limit < 2 ^ 64)
    (h : a.step i = some (a', actions)) (hproper : ∀ action ∈ actions, action.Proper) :
    Totals size limit a' (before ++ actions) := by
  obtain ⟨-, hidle⟩ | ⟨-, rfl, rfl⟩ | ⟨-, hs⟩ := step_cases h hproper
  · have haccepted : acceptedBytes (before ++ actions) = acceptedBytes before := by
      rw [acceptedBytes_append, hidle.accepted, Nat.add_zero]
    rw [hidle.eq]
    exact ⟨ht.attributes, haccepted ▸ ht.le, haccepted ▸ ht.totBytes⟩
  · have haccepted : acceptedBytes (before ++ [.close]) = acceptedBytes before := by
      rw [acceptedBytes_append]
      rfl
    exact ⟨ht.attributes, haccepted ▸ ht.le, haccepted ▸ ht.totBytes⟩
  · have hle := hs.le
    have htot := hs.totBytes
    dsimp only at hle htot
    rw [ht.attributes.2] at hle
    refine ⟨?_, fun hpos => ?_, fun hlt => ?_⟩
    · rw [hs.eq]
      exact ht.attributes
    · have hbefore := ht.le hpos
      have ha := ht.totBytes (hbefore.trans_lt hlimit)
      rw [acceptedBytes_append, ← ha]
      exact hle hpos hlimit (ha ▸ hbefore)
    · rw [acceptedBytes_append] at hlt ⊢
      have ha := ht.totBytes ((Nat.le_add_right _ _).trans_lt hlt)
      rw [← ha] at hlt ⊢
      exact htot hlt

/-- What a run has done to the connection, which has succeeded in it or not. -/
structure Settled (succeeded : Bool) (a : MeshSimBulkSendApplication) (actions : List BulkAction) :
    Prop where
  /-- The application is connected from the success on, until the total is the byte limit. -/
  connected : a.connected = true ↔ succeeded = true ∧ a.totBytes ≠ a.maxBytes
  /-- The connection is closed once, when the total is the byte limit. -/
  closes : closeCalls actions = if succeeded = true ∧ a.totBytes = a.maxBytes then 1 else 0
  /-- The connection succeeds with a socket only. -/
  socket : succeeded = true → a.socket = true

/-- A step other than `StopApplication` keeps the connection settled, when there is no second
success. -/
lemma Settled.step {succeeded : Bool} {a a' : MeshSimBulkSendApplication} {i : BulkStep}
    {before actions : List BulkAction} (hset : Settled succeeded a before)
    (h : a.step i = some (a', actions)) (hproper : ∀ action ∈ actions, action.Proper)
    (hstop : i ≠ .stopApplication) (honce : succeeded = true → i.connects = false) :
    Settled (succeeded || i.connects) a' (before ++ actions) := by
  obtain ⟨hnot, hidle⟩ | ⟨rfl, -, -⟩ | ⟨hconn, hs⟩ := step_cases h hproper
  · rw [hnot, Bool.or_false]
    refine ⟨?_, ?_, fun hyes => hidle.socket (hset.socket hyes)⟩
    · rw [hidle.eq]
      exact hset.connected
    · rw [closeCalls_append, hidle.closes, hidle.eq]
      exact hset.closes
  · exact absurd rfl hstop
  · have hsucceeded : (succeeded || i.connects) = true := by
      rw [Bool.or_eq_true] at hconn ⊢
      exact hconn.imp_left fun hyes => (hset.connected.mp hyes).1
    -- data is only sent when the connection has not been closed before
    have hopen : closeCalls before = 0 := by
      rw [hset.closes]
      refine if_neg fun hdone => ?_
      have hnot : a.connected = true := by
        rwa [honce hdone.1, Bool.or_false] at hconn
      exact (hset.connected.mp hnot).2 hdone.2
    rw [hsucceeded]
    refine ⟨?_, ?_, fun _ => by rw [hs.eq]⟩
    · rw [hs.connected]
      simp
    · rw [closeCalls_append, hopen, hs.closes]
      simp

/-- A run from the start keeps the totals. -/
lemma totals_run {sockStream : Bool} {sendSize maxBytes : ℕ} {steps : List BulkStep}
    {a : MeshSimBulkSendApplication} {actions : List BulkAction}
    (h : (init sockStream sendSize maxBytes).run steps = some (a, actions))
    (hproper : ∀ action ∈ actions, action.Proper) (hmax : maxBytes < 2 ^ 64) :
    Totals sendSize maxBytes a actions := by
  refine PartialMealy.run_invariant
    (I := fun _ a actions =>
      (∀ action ∈ actions, action.Proper) → Totals sendSize maxBytes a actions)
    h (fun _ => ⟨⟨rfl, rfl⟩, fun _ => Nat.zero_le _, fun _ => rfl⟩) ?_ hproper
  intro is i s₁ before s₂ out _ hstep ih hall
  rw [List.forall_mem_append] at hall
  exact (ih hall.1).step hmax hstep hall.2

/-- In a run without `StopApplication` in which the connection succeeds once, it is settled. -/
lemma settled_run {sockStream : Bool} {sendSize maxBytes : ℕ} {steps : List BulkStep}
    {a : MeshSimBulkSendApplication} {actions : List BulkAction}
    (h : (init sockStream sendSize maxBytes).run steps = some (a, actions))
    (hproper : ∀ action ∈ actions, action.Proper) (hstop : .stopApplication ∉ steps)
    (honce : steps.countP BulkStep.connects = 1) : Settled true a actions := by
  have hsucceeded : steps.any BulkStep.connects = true := by
    rw [List.any_eq_true, ← List.countP_pos_iff, honce]
    exact Nat.one_pos
  rw [← hsucceeded]
  refine PartialMealy.run_invariant
    (I := fun is a actions => (∀ action ∈ actions, action.Proper) → .stopApplication ∉ is →
      is.countP BulkStep.connects ≤ 1 → Settled (is.any BulkStep.connects) a actions)
    h ?_ ?_ hproper hstop honce.le
  · intro _ _ _
    refine ⟨?_, rfl, fun hyes => absurd hyes Bool.false_ne_true⟩
    simp [init]
  · intro is i s₁ before s₂ out _ hstep ih hall hstop honce
    rw [List.forall_mem_append] at hall
    rw [List.mem_append, List.mem_singleton, not_or] at hstop
    rw [List.countP_append, List.countP_singleton] at honce
    rw [List.any_append, List.any_cons, List.any_nil, Bool.or_false]
    refine (ih hall.1 hstop.1 ((Nat.le_add_right _ _).trans honce)).step hstep hall.2
      (Ne.symm hstop.2) ?_
    intro hsucceeded
    rw [List.any_eq_true] at hsucceeded
    have hpos : 0 < is.countP BulkStep.connects := List.countP_pos_iff.mpr hsucceeded
    by_contra hagain
    rw [Bool.not_eq_false] at hagain
    rw [if_pos hagain] at honce
    omega

/-- **The bulk sender.** In every run with a byte limit that fits the counter, and with proper
answers of the socket: the total is the number of bytes that the socket has accepted, which do not
go beyond the limit.  In a run without `StopApplication` in which the connection succeeds once, the
connection is closed, once, when the bytes accepted are the limit, and is open otherwise.  Without a
limit, that is when the socket accepts nothing in the first place. -/
theorem bulk_run {sockStream : Bool} {sendSize maxBytes : ℕ} {steps : List BulkStep}
    {a : MeshSimBulkSendApplication} {actions : List BulkAction}
    (h : (init sockStream sendSize maxBytes).run steps = some (a, actions))
    (hproper : ∀ action ∈ actions, action.Proper) (hmax : maxBytes < 2 ^ 64)
    (hcount : maxBytes = 0 → acceptedBytes actions < 2 ^ 64) :
    a.totBytes = acceptedBytes actions ∧ (0 < maxBytes → acceptedBytes actions ≤ maxBytes) ∧
      (.stopApplication ∉ steps → steps.countP BulkStep.connects = 1 →
        (a.connected = true ↔ acceptedBytes actions ≠ maxBytes) ∧
        closeCalls actions = if acceptedBytes actions = maxBytes then 1 else 0) := by
  have htotals := totals_run h hproper hmax
  have hlt : acceptedBytes actions < 2 ^ 64 := by
    rcases Nat.eq_zero_or_pos maxBytes with hzero | hpos
    · exact hcount hzero
    · exact (htotals.le hpos).trans_lt hmax
  have htot := htotals.totBytes hlt
  refine ⟨htot, htotals.le, ?_⟩
  intro hstop honce
  have hset := settled_run h hproper hstop honce
  have hconnected := hset.connected
  have hcloses := hset.closes
  rw [htot, htotals.attributes.2] at hconnected hcloses
  exact ⟨by simpa using hconnected, by simpa using hcloses⟩

/-- A socket that is full behind the first packet of a thousand bytes. -/
def thousandSteps : List BulkStep :=
  [.startApplication [], .connectionSucceeded [512, -1], .dataSend [488]]

/-- What the application does with it. -/
def thousandActions : List BulkAction :=
  [.connect, .send 512 512, .txTrace 512, .send 488 (-1), .send 488 488, .txTrace 488, .close]

theorem bulk_run_thousand :
    (init true 512 1000).run thousandSteps =
      some (⟨true, 512, 1000, true, false, 1000⟩, thousandActions) ∧
    1000 = acceptedBytes thousandActions ∧ (0 < 1000 → acceptedBytes thousandActions ≤ 1000) ∧
      (.stopApplication ∉ thousandSteps → thousandSteps.countP BulkStep.connects = 1 →
        (false = true ↔ acceptedBytes thousandActions ≠ 1000) ∧
        closeCalls thousandActions = if acceptedBytes thousandActions = 1000 then 1 else 0) := by
  have h : (init true 512 1000).run thousandSteps =
      some (⟨true, 512, 1000, true, false, 1000⟩, thousandActions) := by decide
  exact ⟨h, bulk_run h (by decide) (by decide) (by decide)⟩

/-! ### Termination of `SendData` -/

/-- The calls of `Send` among the actions, with the answers. -/
def sends (actions : List BulkAction) : List (ℕ × ℤ) :=
  actions.filterMap fun
    | .send size actual => some (size, actual)
    | _ => none

lemma sends_append (actions actions' : List BulkAction) :
    sends (actions ++ actions') = sends actions ++ sends actions' := List.filterMap_append

lemma sends_sendActions (a : MeshSimBulkSendApplication) (actual : ℤ) :
    sends (a.sendActions actual) = [(a.toSend, actual)] := by
  unfold sendActions
  split <;> rfl

/-- The answers of a socket, numbered from `k` on, are the ones of the calls. -/
def Answered (socket : ℕ → ℕ → ℤ) (k : ℕ) (calls : List (ℕ × ℤ)) : Prop :=
  ∀ i size actual, calls[i]? = some (size, actual) → actual = socket (k + i) size

/-- No calls. -/
lemma Answered.nil (socket : ℕ → ℕ → ℤ) (k : ℕ) : Answered socket k [] := by
  intro i size actual hi
  cases hi

/-- One more call in front. -/
lemma Answered.cons {socket : ℕ → ℕ → ℤ} {k size : ℕ} {calls : List (ℕ × ℤ)}
    (h : Answered socket (k + 1) calls) : Answered socket k ((size, socket k size) :: calls) := by
  intro i size' actual hi
  cases i with
  | zero =>
    obtain ⟨rfl, rfl⟩ := Prod.mk.inj (Option.some.inj hi)
    rfl
  | succ i =>
    rw [List.getElem?_cons_succ] at hi
    rw [h i size' actual hi]
    congr 1
    omega

/-- A proper answer that compares equal to the size of the packet is that size, unless the packet
has the size that -1 turns into. -/
lemma eq_of_u32_eq {actual : ℤ} {size : ℕ} (h0 : -1 ≤ actual) (hle : actual ≤ size)
    (hsize : size < 2 ^ 32 - 1) (heq : u32 actual = size) : actual = size := by
  rcases lt_or_ge actual 0 with hneg | hpos
  · obtain rfl : actual = -1 := by omega
    have hlast : u32 (-1) = 2 ^ 32 - 1 := by decide
    omega
  · rw [← heq]
    exact (u32_of_lt hpos (by omega)).symm

/-- **The loop of `SendData` ends** when there is a byte limit: behind one call for each packet of
the remaining bytes at most, and when all bytes are sent or the socket has not accepted a packet. -/
theorem sendLoop_terminates {sendSize : ℕ} (hpos : 0 < sendSize) (hsize : sendSize < 2 ^ 32 - 1)
    (socket : ℕ → ℕ → ℤ) (hsocket : ∀ k size, -1 ≤ socket k size ∧ socket k size ≤ size) :
    ∀ (packets k : ℕ) (a : MeshSimBulkSendApplication), a.sendSize = sendSize → 0 < a.maxBytes →
      a.maxBytes < 2 ^ 64 → a.maxBytes - a.totBytes ≤ packets * sendSize →
      ∃ answers a' actions, sendLoop answers a = some (a', actions) ∧
        Answered socket k (sends actions) ∧ (sends actions).length ≤ packets ∧
        (a'.sendsMore = false ∨ ∃ call ∈ sends actions, call.2 ≠ call.1) := by
  intro packets
  induction packets with
  | zero =>
    intro k a _ hlimit _ hleft
    have hdone : a.sendsMore = false := by
      simp only [sendsMore, Bool.or_eq_false_iff, decide_eq_false_iff_not]
      omega
    refine ⟨[], a, [], ?_, Answered.nil socket k, le_rfl, .inl hdone⟩
    rw [sendLoop, hdone]
    rfl
  | succ packets ih =>
    intro k a hsend hlimit hmax hleft
    by_cases hmore : a.sendsMore = true
    · obtain ⟨hmin, hle⟩ := hsocket k a.toSend
      have htoSend : a.toSend = min sendSize (a.maxBytes - a.totBytes) := by
        rw [toSend, if_pos hlimit, hsend]
      have hless : a.totBytes < a.maxBytes := by
        simp only [sendsMore, Bool.or_eq_true, decide_eq_true_eq] at hmore
        omega
      by_cases hfull : u32 (socket k a.toSend) = a.toSend
      · -- the packet is accepted, and the rest is one packet less
        have hactual : socket k a.toSend = a.toSend :=
          eq_of_u32_eq hmin hle (by omega) hfull
        have htot : (a.count (socket k a.toSend)).totBytes = a.totBytes + a.toSend := by
          rw [totBytes_count, hactual, Int.toNat_natCast]
          rw [hactual, Int.toNat_natCast]
          omega
        have hcount := count_eq a (socket k a.toSend)
        have hsend' : (a.count (socket k a.toSend)).sendSize = sendSize := by
          rw [hcount]
          exact hsend
        have hmax' : (a.count (socket k a.toSend)).maxBytes = a.maxBytes := by rw [hcount]
        have hrest : a.maxBytes - (a.totBytes + a.toSend) ≤ packets * sendSize := by
          rw [Nat.add_mul, Nat.one_mul] at hleft
          omega
        obtain ⟨answers, a', actions, hloop, hanswered, hlength, hend⟩ :=
          ih (k + 1) (a.count (socket k a.toSend)) hsend' (hmax' ▸ hlimit) (hmax' ▸ hmax)
            (by rw [hmax', htot]; exact hrest)
        refine ⟨socket k a.toSend :: answers, a',
          a.sendActions (socket k a.toSend) ++ actions, ?_, ?_, ?_, ?_⟩
        · rw [sendLoop, if_pos hmore, if_neg (not_not_intro hfull), hloop]
          rfl
        · rw [sends_append, sends_sendActions]
          exact hanswered.cons
        · rw [sends_append, sends_sendActions, List.length_append, List.length_singleton]
          omega
        · rw [sends_append]
          exact hend.imp_right fun ⟨call, hcall, hne⟩ =>
            ⟨call, List.mem_append_right _ hcall, hne⟩
      · refine ⟨[socket k a.toSend], a.count (socket k a.toSend),
          a.sendActions (socket k a.toSend), ?_, ?_, ?_, .inr ?_⟩
        · rw [sendLoop, if_pos hmore, if_pos hfull, if_pos rfl]
        · rw [sends_sendActions]
          exact (Answered.nil socket (k + 1)).cons
        · rw [sends_sendActions, List.length_singleton]
          omega
        · rw [sends_sendActions]
          refine ⟨_, List.mem_singleton_self _, fun heq => hfull ?_⟩
          dsimp only at heq
          rw [heq]
          exact u32_natCast (by omega)
    · refine ⟨[], a, [], ?_, Answered.nil socket k, Nat.zero_le _,
        .inl (Bool.eq_false_iff.mpr hmore)⟩
      rw [sendLoop, if_neg hmore]

/-- Outside of the loop all bytes are sent. -/
lemma le_of_not_sendsMore {a : MeshSimBulkSendApplication} (h : a.sendsMore = false) :
    a.maxBytes ≤ a.totBytes := by
  simp only [sendsMore, Bool.or_eq_false_iff, decide_eq_false_iff_not, not_lt] at h
  exact h.2

/-- Behind the loop `SendData` makes no more calls of `Send`, and keeps the total. -/
lemma sendData_of_sendLoop {answers : List ℤ} {a b : MeshSimBulkSendApplication}
    {actions : List BulkAction} (hloop : sendLoop answers a = some (b, actions)) :
    ∃ a' actions', a.sendData answers = some (a', actions') ∧ a'.maxBytes = b.maxBytes ∧
      a'.totBytes = b.totBytes ∧ sends actions' = sends actions := by
  by_cases hdone : b.totBytes = b.maxBytes ∧ b.connected = true
  · refine ⟨{ b with connected := false }, actions ++ [.close], ?_, rfl, rfl, ?_⟩
    · rw [sendData, hloop, Option.map_some, if_pos hdone]
    · rw [sends_append]
      exact List.append_nil _
  · refine ⟨b, actions, ?_, rfl, rfl, rfl⟩
    rw [sendData, hloop, Option.map_some, if_neg hdone]

/-- **`SendData` ends** when there is a byte limit, with every socket whose answers are proper,
behind one call of `Send` for each packet of the remaining bytes at most, and when all bytes are
sent or the socket has not accepted a packet. -/
theorem sendData_terminates {a : MeshSimBulkSendApplication} (hpos : 0 < a.sendSize)
    (hsize : a.sendSize < 2 ^ 32 - 1) (hlimit : 0 < a.maxBytes) (hmax : a.maxBytes < 2 ^ 64)
    (socket : ℕ → ℕ → ℤ) (hsocket : ∀ k size, -1 ≤ socket k size ∧ socket k size ≤ size) :
    ∃ answers a' actions, a.sendData answers = some (a', actions) ∧
      Answered socket 0 (sends actions) ∧
      (sends actions).length ≤ (a.maxBytes - a.totBytes + a.sendSize - 1) / a.sendSize ∧
      (a'.maxBytes ≤ a'.totBytes ∨ ∃ call ∈ sends actions, call.2 ≠ call.1) := by
  have hpackets : a.maxBytes - a.totBytes ≤
      (a.maxBytes - a.totBytes + a.sendSize - 1) / a.sendSize * a.sendSize := by
    have hdiv := Nat.div_add_mod (a.maxBytes - a.totBytes + a.sendSize - 1) a.sendSize
    have hmod := Nat.mod_lt (a.maxBytes - a.totBytes + a.sendSize - 1) hpos
    rw [Nat.mul_comm]
    omega
  obtain ⟨answers, b, actions, hloop, hanswered, hlength, hend⟩ :=
    sendLoop_terminates hpos hsize socket hsocket _ 0 a rfl hlimit hmax hpackets
  obtain ⟨a', actions', hdata, hmax', htot', hsends⟩ := sendData_of_sendLoop hloop
  refine ⟨answers, a', actions', hdata, hsends ▸ hanswered, hsends ▸ hlength, ?_⟩
  rw [hmax', htot', hsends]
  exact hend.imp_left le_of_not_sendsMore

/-- The socket that is full behind the first packet of a thousand bytes. -/
theorem sendData_terminates_thousand :
    ∃ answers a' actions,
      sendData answers ⟨true, 512, 1000, true, true, 0⟩ = some (a', actions) ∧
      Answered (fun k size => if k = 0 then size else -1) 0 (sends actions) ∧
      (sends actions).length ≤ 2 ∧
      (a'.maxBytes ≤ a'.totBytes ∨ ∃ call ∈ sends actions, call.2 ≠ call.1) := by
  refine sendData_terminates (a := ⟨true, 512, 1000, true, true, 0⟩) (by decide) (by decide)
    (by decide) (by decide) (fun k size => if k = 0 then size else -1) ?_
  intro k size
  split <;> omega

/-- **The packet that has to be left out.** The error -1 compares equal to a packet of that size, so
that the loop does not end while the socket has no room. -/
theorem sendLoop_of_error {a : MeshSimBulkSendApplication} (hmore : a.sendsMore = true)
    (hsize : a.toSend = 2 ^ 32 - 1) (calls : ℕ) :
    sendLoop (List.replicate calls (-1)) a = none := by
  induction calls with
  | zero => rw [List.replicate_zero, sendLoop, if_pos hmore]
  | succ calls ih =>
    have hcount : a.count (-1) = a := if_neg (by decide)
    have heq : u32 (-1) = a.toSend := by
      rw [hsize]
      decide
    rw [List.replicate_succ, sendLoop, if_pos hmore, if_neg (not_not_intro heq), hcount, ih]
    rfl

/-- Actions are proper when the answers of the socket are. -/
lemma proper_of_sends {actions : List BulkAction}
    (h : ∀ call ∈ sends actions, -1 ≤ call.2 ∧ call.2 ≤ call.1) :
    ∀ action ∈ actions, action.Proper := by
  intro action hmem
  cases action with
  | send size actual => exact h (size, actual) (List.mem_filterMap.mpr ⟨_, hmem, rfl⟩)
  | _ => trivial

/-- A socket with enough space takes all bytes at once. -/
lemma exists_dataSend {a : MeshSimBulkSendApplication} (hconn : a.connected = true)
    (hsocket : a.socket = true) (hpos : 0 < a.sendSize) (hsize : a.sendSize < 2 ^ 32 - 1)
    (hlimit : 0 < a.maxBytes) (hmax : a.maxBytes < 2 ^ 64) :
    ∃ answers a' actions, a.step (.dataSend answers) = some (a', actions) ∧
      (∀ action ∈ actions, action.Proper) ∧ a'.maxBytes ≤ a'.totBytes := by
  obtain ⟨answers, b, actions, hloop, hanswered, -, hend⟩ :=
    sendLoop_terminates hpos hsize (fun _ size => size) (fun _ _ => ⟨by omega, le_rfl⟩)
      (a.maxBytes - a.totBytes) 0 a rfl hlimit hmax (Nat.le_mul_of_pos_right _ hpos)
  obtain ⟨a', actions', hdata, hmax', htot', hsends⟩ := sendData_of_sendLoop hloop
  have hfull : ∀ call ∈ sends actions, call.2 = call.1 := by
    intro call hmem
    obtain ⟨i, hi⟩ := List.getElem?_of_mem hmem
    exact hanswered i call.1 call.2 hi
  refine ⟨answers, a', actions', ?_, proper_of_sends fun call hmem => ?_, ?_⟩
  · rw [step, if_pos hsocket, sendDataIfConnected, if_pos hconn, hdata]
  · have hcall := hfull call (hsends ▸ hmem)
    exact ⟨by omega, by omega⟩
  · rw [hmax', htot']
    rcases hend with hnot | ⟨call, hmem, hne⟩
    · exact le_of_not_sendsMore hnot
    · exact absurd (hfull call hmem) hne

end MeshSimBulkSendApplication

end MeshSim
