import MeshSim.Foundation.Mealy
import MeshSim.Rq.Header

/-!
# The RQ encoder

`ns3_apps/rq-encoder.cc`: the application that reads fixed-size source symbols from its RX slots in
round-robin order, adds repair symbols, and hands every symbol with an RQ header to one TX socket.

`sendPacket` is one expiry of the send timer, as a function of what the sockets answer in it.  The
RX slots in use are indexed by `Fin n`, where `n` is `m_nRxSlots`; the slots behind them are never
addressed.  The timer itself, socket addresses, and the dummy packet that works around TCP flow
control are not part of the model: none of them influences what is handed to the TX socket.
-/

namespace MeshSim

open MachineInt

/-- The attributes `Kval`, `Nval` and `Tval` that encoder and decoder share.  The attribute checkers
admit every `uint32_t` from 1 on. -/
structure RqParams where
  /-- `m_rqkval`, the number of source packets of a block. -/
  kval : ℕ
  /-- `m_rqnval`, the number of packets of an encoded block. -/
  nval : ℕ
  /-- `m_rqtval`, the packet size in bytes. -/
  tval : ℕ
  /-- The checker of `Kval`. -/
  kval_range : 1 ≤ kval ∧ kval < 2 ^ 32 := by decide
  /-- The checker of `Nval`. -/
  nval_range : 1 ≤ nval ∧ nval < 2 ^ 32 := by decide
  /-- The checker of `Tval`. -/
  tval_range : 1 ≤ tval ∧ tval < 2 ^ 32 := by decide

/-- A packet handed to a TX socket: the header that `AddHeader` serialized, and the payload. -/
structure TxPacket where
  /-- The RQ header. -/
  hdr : RqHeader
  /-- The payload behind the header. -/
  payload : Packet
deriving DecidableEq

/-- The bytes of the packet on the wire. -/
def TxPacket.bytes (p : TxPacket) : Packet := p.hdr.serialize ++ p.payload

/-- `Packet::GetSize`. -/
def TxPacket.size (p : TxPacket) : ℕ := p.bytes.length

/-- The members of `RqEncoder`, for `n` RX slots in use. -/
@[ext] structure RqEncoder (n : ℕ) where
  /-- `m_nextRxSlot`, the next slot to probe. -/
  nextRxSlot : Fin n
  /-- `m_sbid`, the current source block id, a `uint32_t`. -/
  sbid : ℕ
  /-- `m_esi`, the next symbol id to send, a `uint32_t`. -/
  esi : ℕ
  /-- `m_symbcounts`, the symbols taken from each slot in the block. -/
  symbcounts : Fin n → ℕ
  /-- `m_rxSlots[i].total`, a `uint64_t`. -/
  rxTotal : Fin n → ℕ
  /-- `m_txSlots[0].total`, a `uint64_t`. -/
  txTotal : ℕ

/-- What the sockets answer during one expiry of the send timer. -/
structure SendCall (n : ℕ) where
  /-- `m_txSlots[0].sock->GetTxAvailable ()`. -/
  txAvailable : ℕ
  /-- `GetRxAvailable ()` of the first accepted socket of a slot, if a socket was accepted. -/
  rxAvailable : Fin n → Option ℕ
  /-- What `Recv (m_rqtval, 0)` on that socket returns. -/
  recv : Fin n → Packet

/-- The answers that hold nothing back: room for every packet, and a whole symbol in every slot. -/
def SendCall.ready (P : RqParams) (n : ℕ) : SendCall n where
  txAvailable := 2 ^ 32 - 1
  rxAvailable := fun _ => some P.tval
  recv := fun _ => List.replicate P.tval 0

namespace RqEncoder

variable {n : ℕ}

/-- What one expiry of the send timer does to the outside. -/
inductive Event (n : ℕ) where
  /-- A packet was taken from a slot and reported on the Rx trace. -/
  | rxTrace (slot : Fin n) (pkt : Packet)
  /-- A packet was handed to the TX socket. -/
  | send (pkt : TxPacket)
  /-- A packet was reported on the Tx trace. -/
  | txTrace (pkt : TxPacket)

/-- The packet an event hands to the TX socket. -/
def Event.sent? : Event n → Option TxPacket
  | .send pkt => some pkt
  | _ => none

/-- The state after construction, with `n` RX slots. -/
def init (n : ℕ) [NeZero n] : RqEncoder n where
  nextRxSlot := 0
  sbid := 0
  esi := 0
  symbcounts := fun _ => 0
  rxTotal := fun _ => 0
  txTotal := 0

/-- `RX_SLOT_COUNT` of `ProxyBase`. -/
def rxSlotCount : ℕ := 8

/-- The loop of `StartApplication` that computes `m_nRxSlots`: the number of leading slots whose
address is valid, from slot `i` on with `fuel` slots left. -/
def countRxSlots (addrIsInvalid : ℕ → Bool) : ℕ → ℕ → ℕ
  | 0, i => i
  | fuel + 1, i => if addrIsInvalid i then i else countRxSlots addrIsInvalid fuel (i + 1)

/-- `StartApplication` up to the first send: `m_nRxSlots` is computed, and without any RX slot the
simulation ends with a fatal error. -/
def startApplication (addrIsInvalid : ℕ → Bool) : Option (Σ n, RqEncoder n) :=
  if h : countRxSlots addrIsInvalid rxSlotCount 0 = 0 then none
  else
    haveI : NeZero (countRxSlots addrIsInvalid rxSlotCount 0) := ⟨h⟩
    some ⟨countRxSlots addrIsInvalid rxSlotCount 0, init _⟩

/-- The slot loop counts at most the slots it was given. -/
lemma countRxSlots_le (addrIsInvalid : ℕ → Bool) (fuel i : ℕ) :
    countRxSlots addrIsInvalid fuel i ≤ i + fuel := by
  induction fuel generalizing i with
  | zero => simp [countRxSlots]
  | succ fuel ih =>
    unfold countRxSlots
    split
    · omega
    · have := ih (i + 1)
      omega

/-- An application that starts has between one and `RX_SLOT_COUNT` RX slots and is in the
constructed state. -/
theorem startApplication_eq_some {addrIsInvalid : ℕ → Bool} {e : Σ n, RqEncoder n}
    (h : startApplication addrIsInvalid = some e) :
    1 ≤ e.1 ∧ e.1 ≤ rxSlotCount ∧ ∃ _ : NeZero e.1, e.2 = init e.1 := by
  unfold startApplication at h
  split at h
  · cases h
  · rename_i hpos
    cases h
    have := countRxSlots_le addrIsInvalid rxSlotCount 0
    exact ⟨Nat.one_le_iff_ne_zero.mpr hpos, by simpa using this, ⟨hpos⟩, rfl⟩

/-! ### The round-robin scan -/

/-- `if (++m_nextRxSlot == m_nRxSlots) m_nextRxSlot = 0;`. -/
def advance (slot : Fin n) : Fin n :=
  if h : slot.val + 1 = n then ⟨0, by omega⟩ else ⟨slot.val + 1, by omega⟩

/-- The do-while loop over the RX slots, from the current value of `m_nextRxSlot` up to the slot
`stop` it started at: the value of `m_nextRxSlot` when the loop is left, and the slot to read from,
if a readable one was found.  The first argument bounds the number of iterations; `scan_spec` shows
that `n` of them are enough. -/
def scan (readable : Fin n → Bool) (stop : Fin n) : ℕ → Fin n → Fin n × Option (Fin n)
  | 0, next => (next, none)
  | fuel + 1, slot =>
    if readable slot then (advance slot, some slot)
    else if advance slot ≠ stop then scan readable stop fuel (advance slot)
    else (advance slot, none)

/-- The distance from `slot` forward to `stop`, going once around when they are equal. -/
def distance (slot stop : Fin n) : ℕ :=
  if slot.val < stop.val then stop.val - slot.val else stop.val + n - slot.val

/-- The index of the slot after a slot. -/
lemma advance_val (slot : Fin n) :
    (advance slot).val = if slot.val + 1 = n then 0 else slot.val + 1 := by
  unfold advance
  split <;> rfl

/-- Advancing brings a slot closer to every other slot. -/
lemma distance_advance {slot stop : Fin n} (h : advance slot ≠ stop) :
    distance (advance slot) stop + 1 = distance slot stop := by
  have hne : (advance slot).val ≠ stop.val := fun hv => h (Fin.ext hv)
  have hslot := slot.isLt
  have hstop := stop.isLt
  unfold distance
  rw [advance_val] at hne ⊢
  split_ifs at hne ⊢ <;> omega

/-- No slot is further away than once around. -/
lemma distance_le (slot stop : Fin n) : distance slot stop ≤ n := by
  have hslot := slot.isLt
  have hstop := stop.isLt
  unfold distance
  split <;> omega

/-- **The scan terminates with an answer.** With as many iterations as there are slots left before
`stop`, the loop either finds a readable slot and leaves `m_nextRxSlot` behind it, or is back at the
slot it started from. -/
theorem scan_spec (readable : Fin n → Bool) (stop : Fin n) (fuel : ℕ) (slot : Fin n)
    (hfuel : distance slot stop ≤ fuel) :
    (∃ s, readable s = true ∧ scan readable stop fuel slot = (advance s, some s)) ∨
      scan readable stop fuel slot = (stop, none) := by
  induction fuel generalizing slot with
  | zero =>
    have hslot := slot.isLt
    unfold distance at hfuel
    split at hfuel <;> omega
  | succ fuel ih =>
    unfold scan
    split
    · rename_i hread
      exact Or.inl ⟨slot, hread, rfl⟩
    · split
      · rename_i hne
        exact ih _ (by have := distance_advance hne; omega)
      · rename_i heq
        right
        rw [not_not.mp heq]

/-! ### Sending -/

/-- Whether the scan may read from a slot: a socket was accepted there and has a whole symbol. -/
def readable (P : RqParams) (c : SendCall n) (slot : Fin n) : Bool :=
  match c.rxAvailable slot with
  | none => false
  | some available => decide (P.tval ≤ available)

/-- The end of `SendPacket` behind `packet_created`: the header is added to the payload, the packet
is handed to the TX socket, and the encoder moves on to the next symbol. -/
def sendCreated (P : RqParams) (e : RqEncoder n) (streamid : ℤ) (payload : Packet) :
    RqEncoder n × List (Event n) :=
  let hdr := RqHeader.ofStream (u64 (P.nval * e.sbid + e.esi)) streamid (List.ofFn e.symbcounts)
  let pkt : TxPacket := { hdr := hdr, payload := payload }
  let txTotal := u64 (e.txTotal + pkt.size)
  let esi := u32 (e.esi + 1)
  if esi = P.nval then
    ({ e with txTotal := txTotal, esi := 0, sbid := u32 (e.sbid + 1), symbcounts := fun _ => 0 },
      [.send pkt, .txTrace pkt])
  else
    ({ e with txTotal := txTotal, esi := esi }, [.send pkt, .txTrace pkt])

/-- The state after a source symbol was read from `slot`, with `m_nextRxSlot` at `next`. -/
def takeSymbol (e : RqEncoder n) (next slot : Fin n) (pkt : Packet) : RqEncoder n :=
  { e with
    nextRxSlot := next
    rxTotal := Function.update e.rxTotal slot (u64 (e.rxTotal slot + pkt.length))
    symbcounts := Function.update e.symbcounts slot (u32 (e.symbcounts slot + 1)) }

/-- `SendPacket`. -/
def sendPacket (P : RqParams) (e : RqEncoder n) (c : SendCall n) : RqEncoder n × List (Event n) :=
  if c.txAvailable < u32 (P.tval + RqHeader.minSerializedSize + n * 4) then
    -- no buffer space for a whole packet, so the time slot is skipped
    (e, [])
  else if e.esi < P.kval then
    match scan (readable P c) e.nextRxSlot n e.nextRxSlot with
    | (next, some slot) =>
      let r := sendCreated P (e.takeSymbol next slot (c.recv slot)) slot.val (c.recv slot)
      (r.1, .rxTrace slot (c.recv slot) :: r.2)
    | (next, none) => ({ e with nextRxSlot := next }, [])
  else
    -- a repair packet
    sendCreated P e (-1) (List.replicate P.tval 0)

/-- The run of an encoder with `n` RX slots along the expiries of its send timer. -/
def run (P : RqParams) [NeZero n] (calls : List (SendCall n)) : RqEncoder n × List (Event n) :=
  Mealy.run (sendPacket P) (init n) calls

/-- The packets a run has handed to the TX socket, in order. -/
def sent (P : RqParams) [NeZero n] (calls : List (SendCall n)) : List TxPacket :=
  (run P calls).2.filterMap Event.sent?

end RqEncoder

end MeshSim
