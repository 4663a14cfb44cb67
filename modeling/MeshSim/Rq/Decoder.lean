import MeshSim.Rq.Encoder

/-!
# The RQ decoder

`ns3_apps/rq-decoder.cc`: the application that receives encoded packets, keeps per-stream counters
for the current source block, and decides from them how many bytes of each stream may be sent on.

The decoder runs in atomic steps: `HandleRead` is one `recv` step for each packet it reads followed
by one `tryToSend` step for each slot, and `HandleSend` is one `tryToSend` step.  TX slots in use
are indexed by `Fin n`, where `n` is `m_nslots`; the slot states behind them keep their initial
zeros.  A step has no result when the program aborts: a malformed packet, a violated assertion, or a
stream id outside the slot array.  The additions to `m_nbuffered` are recorded as `credit` events,
in symbols and together with the source block they are made for.
-/

namespace MeshSim

open MachineInt

/-- `m_slotStates[i]`. -/
@[ext] structure SlotState where
  /-- `m_nbuffered`, the bytes buffered for the stream, a `uint32_t`. -/
  nbuffered : ℕ
  /-- `m_nsymbcontig`, the contiguous symbols received for the stream. -/
  nsymbcontig : ℤ
  /-- `m_nsymb`, the symbols of the stream in the source block. -/
  nsymb : ℤ
deriving DecidableEq

/-- The members of `RqDecoder`, for `n` TX slots in use. -/
@[ext] structure RqDecoder (n : ℕ) where
  /-- `m_sbid`, the current source block id. -/
  sbid : ℤ
  /-- `m_sb_nrcv`, the symbols received for the source block. -/
  nrcv : ℤ
  /-- `m_sb_nsrcrcv`, the source symbols among them. -/
  nsrcrcv : ℤ
  /-- `m_slotStates`. -/
  slotStates : Fin n → SlotState
  /-- `m_txSlots[i].total`, a `uint64_t`. -/
  txTotal : Fin n → ℕ

/-- The result of a decoding operation, as the decoding trace reports it. -/
structure DecodeInfo (n : ℕ) where
  /-- The source block id, an `unsigned int`. -/
  sbid : ℕ
  /-- Decoding success. -/
  success : Bool
  /-- The packets received. -/
  nRcv : ℤ
  /-- The source packets received. -/
  nSrcRcv : ℤ
  /-- For each slot the source packets and the contiguous source packets received. -/
  slotinfo : Fin n → ℤ × ℤ

namespace RqDecoder

variable {n : ℕ}

/-- What a step does to the outside, and its additions to the send buffers. -/
inductive Event (n : ℕ) where
  /-- A packet was reported on the Rx trace. -/
  | rxTrace (pkt : Packet)
  /-- A packet was ignored because its source block is already processed. -/
  | discarded
  /-- A number of symbols was added to `m_nbuffered` of a slot on account of a source block. -/
  | credit (sbid : ℤ) (slot : Fin n) (symbols : ℤ)
  /-- A result was reported on the decoding trace. -/
  | decodeInfo (info : DecodeInfo n)
  /-- A number of bytes was sent on a slot. -/
  | txTrace (slot : Fin n) (amount : ℕ)
  /-- The program was aborted. -/
  | abort

/-- The report of an event on the decoding trace. -/
def Event.decodeInfo? {n : ℕ} : Event n → Option (DecodeInfo n)
  | .decodeInfo info => some info
  | _ => none

/-- The state after construction, with `n` TX slots. -/
def init (n : ℕ) : RqDecoder n where
  sbid := -1
  nrcv := 0
  nsrcrcv := 0
  slotStates := fun _ => { nbuffered := 0, nsymbcontig := 0, nsymb := 0 }
  txTotal := fun _ => 0

/-- `TX_SLOT_COUNT` of `ProxyBase`. -/
def txSlotCount : ℕ := 8

/-- `StartApplication`: `m_nslots` is computed by the same loop over the addresses of the TX slots
as `m_nRxSlots` of the encoder. -/
def startApplication (addrIsInvalid : ℕ → Bool) : Σ n, RqDecoder n :=
  ⟨RqEncoder.countRxSlots addrIsInvalid txSlotCount 0, init _⟩

/-- `PopulateDecodeInfo`. -/
def populateDecodeInfo (P : RqParams) (d : RqDecoder n) : DecodeInfo n where
  sbid := u32 d.sbid
  success := decide (i32 P.kval ≤ d.nrcv)
  nRcv := d.nrcv
  nSrcRcv := d.nsrcrcv
  slotinfo := fun i => ((d.slotStates i).nsymb, (d.slotStates i).nsymbcontig)

/-! ### The decoding logic of `HandleRead` -/

/-- `sbid`, the source block id computed from a sequence number. -/
def sbidOf (P : RqParams) (seqno : ℕ) : ℤ := (i32 seqno).tdiv (i32 P.nval)

/-- `esi`, the symbol id computed from a sequence number. -/
def esiOf (P : RqParams) (seqno : ℕ) : ℤ := (i32 seqno).tmod (i32 P.nval)

/-- Moving to a subsequent source block: the block counters are reset. -/
def newBlock (d : RqDecoder n) (sbid : ℤ) : RqDecoder n :=
  { d with
    sbid := sbid
    nrcv := 0
    nsrcrcv := 0
    slotStates := fun i => { d.slotStates i with nsymbcontig := 0, nsymb := 0 } }

/-- The loop that updates all the slot states' `nsymb` counters. -/
def raiseNsymb (d : RqDecoder n) (iseq : Fin n → ℤ) : RqDecoder n :=
  { d with
    slotStates := fun i =>
      if (d.slotStates i).nsymb < iseq i then { d.slotStates i with nsymb := iseq i }
      else d.slotStates i }

/-- The slot state that a stream id addresses: nothing for a repair packet or for a slot behind
those in use, whose zero counters never pass the contiguity test. -/
def addressed (n : ℕ) (streamid : ℤ) : Option (Option (Fin n)) :=
  if streamid = -1 then some none
  else if 0 ≤ streamid ∧ streamid < txSlotCount then
    if h : streamid.toNat < n then some (some ⟨streamid.toNat, h⟩) else some none
  else none

/-- The contiguity test of a slot. -/
def IsContiguous (d : RqDecoder n) (slot : Fin n) : Prop :=
  i32 ((d.slotStates slot).nsymbcontig + 1) = (d.slotStates slot).nsymb

instance (d : RqDecoder n) (slot : Fin n) : Decidable (d.IsContiguous slot) :=
  inferInstanceAs (Decidable (_ = _))

/-- The early release of one symbol on the stream of the packet. -/
def releaseContig (P : RqParams) (d : RqDecoder n) :
    Option (Fin n) → RqDecoder n × List (Event n)
  | none => (d, [])
  | some slot =>
    if d.IsContiguous slot then
      let st := d.slotStates slot
      ({ d with
          slotStates := Function.update d.slotStates slot
            { st with
              nsymbcontig := i32 (st.nsymbcontig + 1)
              nbuffered := u32 (st.nbuffered + P.tval) } },
        [.credit d.sbid slot 1])
    else (d, [])

/-- The update of the code level counters. -/
def countSymbol (P : RqParams) (d : RqDecoder n) (esi : ℤ) : RqDecoder n :=
  { d with
    nrcv := i32 (d.nrcv + 1)
    nsrcrcv := if esi < i32 P.kval then i32 (d.nsrcrcv + 1) else d.nsrcrcv }

/-- The decoding of the block when its `Kval`-th packet has been counted: what was held back on each
stream is released, and the result is reported. -/
def releaseBlock (P : RqParams) (d : RqDecoder n) : RqDecoder n × List (Event n) :=
  if d.nrcv = i32 P.kval then
    let d' :=
      { d with
        slotStates := fun i =>
          { d.slotStates i with
            nbuffered := u32 ((d.slotStates i).nbuffered +
              ((d.slotStates i).nsymb - (d.slotStates i).nsymbcontig) * P.tval) } }
    (d', List.ofFn (fun i =>
        .credit d.sbid i ((d.slotStates i).nsymb - (d.slotStates i).nsymbcontig)) ++
      [.decodeInfo (populateDecodeInfo P d')])
  else (d, [])

/-- The updates for a packet of the current source block with the counts `iseq`. -/
def count (P : RqParams) (d : RqDecoder n) (iseq : Fin n → ℤ) (slot : Option (Fin n)) (esi : ℤ) :
    RqDecoder n × List (Event n) :=
  let r := releaseContig P (d.raiseNsymb iseq) slot
  let s := releaseBlock P (r.1.countSymbol P esi)
  (s.1, r.2 ++ s.2)

/-- The decoding logic for a packet of the current source block. -/
def accept (P : RqParams) (d : RqDecoder n) (hdr : RqHeader) :
    Option (RqDecoder n × List (Event n)) :=
  if h : hdr.iseqData.length = n then
    match addressed n hdr.iseqStreamid with
    | none => none
    | some slot =>
      some (count P d (fun i => hdr.iseqData.get (i.cast h.symm)) slot (esiOf P hdr.seqno))
  else none

/-- The report on the source block that is left, if there was one. -/
def leaveBlock (P : RqParams) (d : RqDecoder n) : List (Event n) :=
  if 0 ≤ d.sbid then [.decodeInfo (populateDecodeInfo P d)] else []

/-- The decoding logic for a packet with a valid header. -/
def decode (P : RqParams) (d : RqDecoder n) (hdr : RqHeader) :
    Option (RqDecoder n × List (Event n)) :=
  if d.sbid < sbidOf P hdr.seqno then
    (accept P (d.newBlock (sbidOf P hdr.seqno)) hdr).map fun r => (r.1, d.leaveBlock P ++ r.2)
  else if sbidOf P hdr.seqno < d.sbid then
    -- the packet is for an already processed source block
    some (d, [.discarded])
  else accept P d hdr

/-- One iteration of the loop of `HandleRead`. -/
def receive (P : RqParams) (d : RqDecoder n) (pkt : Packet) :
    Option (RqDecoder n × List (Event n)) :=
  match RqHeader.peek pkt with
  | none => none
  | some (hdr, size) =>
    if size < RqHeader.minSerializedSize ∨ hdr.valid = false then none
    else (decode P d hdr).map fun r => (r.1, .rxTrace pkt :: r.2)

/-! ### Sending -/

/-- `TryToSend`, given what `GetTxAvailable` answers on the socket of a connected slot. -/
def tryToSend (d : RqDecoder n) (slot : Fin n) (txAvailable : Option ℕ) :
    RqDecoder n × List (Event n) :=
  match txAvailable with
  | none => (d, [])
  | some txavail =>
    let ss := d.slotStates slot
    if ss.nbuffered = 0 then (d, [])
    else if txavail = 0 then (d, [])
    else
      let amount := min txavail ss.nbuffered
      ({ d with
          slotStates := Function.update d.slotStates slot
            { ss with nbuffered := ss.nbuffered - amount }
          txTotal := Function.update d.txTotal slot (u64 (d.txTotal slot + amount)) },
        [.txTrace slot amount])

/-! ### Runs -/

/-- One atomic step of the decoder. -/
inductive Step (n : ℕ) where
  /-- A packet is read from the receiving socket. -/
  | recv (pkt : Packet)
  /-- A slot tries to send, with the available buffer of its socket if it is connected. -/
  | tryToSend (slot : Fin n) (txAvailable : Option ℕ)

/-- The packet a step reads. -/
def Step.packet? : Step n → Option Packet
  | .recv pkt => some pkt
  | .tryToSend _ _ => none

/-- `HandleRead`, with the packets it reads and what the sockets of the slots answer. -/
def handleRead (pkts : List Packet) (txAvailable : Fin n → Option ℕ) : List (Step n) :=
  pkts.map .recv ++ (List.finRange n).map fun i => .tryToSend i (txAvailable i)

/-- `HandleSend`. -/
def handleSend (slot : Fin n) (txAvailable : Option ℕ) : List (Step n) :=
  [.tryToSend slot txAvailable]

/-- The step function.  An aborted program stays aborted. -/
def step (P : RqParams) : Option (RqDecoder n) → Step n → Option (RqDecoder n) × List (Event n)
  | none, _ => (none, [])
  | some d, .recv pkt =>
    match receive P d pkt with
    | none => (none, [.abort])
    | some (d', evs) => (some d', evs)
  | some d, .tryToSend slot txAvailable =>
    (some (tryToSend d slot txAvailable).1, (tryToSend d slot txAvailable).2)

/-- The run of a decoder with `n` TX slots. -/
def run (P : RqParams) (steps : List (Step n)) : Option (RqDecoder n) × List (Event n) :=
  Mealy.run (step P) (some (init n)) steps

/-- The packets the steps of a run read, in order. -/
def received (steps : List (Step n)) : List Packet := steps.filterMap Step.packet?

/-- `HandleRead` receives the packets it reads. -/
lemma received_handleRead (pkts : List Packet) (txAvailable : Fin n → Option ℕ) :
    received (handleRead pkts txAvailable) = pkts := by
  simp [received, handleRead, List.filterMap_append, List.filterMap_map, Function.comp_def,
    Step.packet?]

/-- The symbols an event adds to a slot on account of a source block. -/
def Event.symbols (b : ℤ) (i : Fin n) : Event n → ℤ
  | .credit sbid slot symbols => if sbid = b ∧ slot = i then symbols else 0
  | _ => 0

/-- The bytes an event adds to a slot on account of a source block, as the 32-bit amount that is
added. -/
def Event.amount (P : RqParams) (b : ℤ) (i : Fin n) : Event n → ℕ
  | .credit sbid slot symbols => if sbid = b ∧ slot = i then u32 (symbols * P.tval) else 0
  | _ => 0

/-- The symbols added to `m_nbuffered` of a slot on account of a source block. -/
def symbolsCredited (evs : List (Event n)) (b : ℤ) (i : Fin n) : ℤ :=
  (evs.map (Event.symbols b i)).sum

/-- The sum of the amounts added to `m_nbuffered` of a slot on account of a source block. -/
def bytesCredited (P : RqParams) (evs : List (Event n)) (b : ℤ) (i : Fin n) : ℕ :=
  (evs.map (Event.amount P b i)).sum

/-! ### What one packet can do -/

/-- Credits of a concatenation of events. -/
@[simp] lemma symbolsCredited_append (evs evs' : List (Event n)) (b : ℤ) (i : Fin n) :
    symbolsCredited (evs ++ evs') b i = symbolsCredited evs b i + symbolsCredited evs' b i := by
  simp [symbolsCredited]

/-- No events, no credits. -/
@[simp] lemma symbolsCredited_nil (b : ℤ) (i : Fin n) :
    symbolsCredited ([] : List (Event n)) b i = 0 := rfl

/-- Events other than credits credit nothing. -/
lemma symbolsCredited_eq_zero {evs : List (Event n)}
    (h : ∀ sbid slot symbols, Event.credit sbid slot symbols ∉ evs) (b : ℤ) (i : Fin n) :
    symbolsCredited evs b i = 0 := by
  refine List.sum_eq_zero fun x hx => ?_
  obtain ⟨e, he, rfl⟩ := List.mem_map.mp hx
  cases e with
  | credit sbid slot symbols => exact absurd he (h sbid slot symbols)
  | _ => rfl

/-- Credits to all slots at once give each slot its own. -/
lemma symbolsCredited_ofFn (sbid : ℤ) (symbols : Fin n → ℤ) (b : ℤ) (i : Fin n) :
    symbolsCredited (List.ofFn fun j => Event.credit sbid j (symbols j)) b i =
      if sbid = b then symbols i else 0 := by
  rw [symbolsCredited, List.map_ofFn, List.sum_ofFn]
  simp only [Function.comp_def, Event.symbols]
  by_cases hb : sbid = b
  · simp [hb]
  · simp [hb]

/-- The state in which a packet of source block `b` is counted: the block counters are reset when
the block is a subsequent one. -/
def enter (d : RqDecoder n) (b : ℤ) : RqDecoder n := if d.sbid < b then d.newBlock b else d

/-- Whether a packet of the stream `slot` with the counts `c` passes the contiguity test of the
slot `i`. -/
def Releases (d : RqDecoder n) (slot : Option (Fin n)) (c : Fin n → ℤ) (i : Fin n) : Prop :=
  slot = some i ∧ i32 ((d.slotStates i).nsymbcontig + 1) = max (d.slotStates i).nsymb (c i)

instance (d : RqDecoder n) (slot : Option (Fin n)) (c : Fin n → ℤ) (i : Fin n) :
    Decidable (d.Releases slot c i) :=
  inferInstanceAs (Decidable (_ ∧ _))

/-- What counting a packet does: `d` is the decoder in the packet's source block, `slot` and `c` are
the stream and the counts in the packet's header, and `esi` is its symbol id. -/
structure Accepted (P : RqParams) (d : RqDecoder n) (slot : Option (Fin n)) (c : Fin n → ℤ)
    (esi : ℤ) (d' : RqDecoder n) (evs : List (Event n)) : Prop where
  /-- The source block stays. -/
  sbid : d'.sbid = d.sbid
  /-- The packet is counted. -/
  nrcv : d'.nrcv = i32 (d.nrcv + 1)
  /-- A source packet is counted as one. -/
  nsrcrcv : d'.nsrcrcv = if esi < i32 P.kval then i32 (d.nsrcrcv + 1) else d.nsrcrcv
  /-- The counts of the header raise the symbol counts. -/
  nsymb : ∀ i, (d'.slotStates i).nsymb = max (d.slotStates i).nsymb (c i)
  /-- The contiguous symbols grow by the early release. -/
  nsymbcontig : ∀ i, (d'.slotStates i).nsymbcontig =
    if d.Releases slot c i then i32 ((d.slotStates i).nsymbcontig + 1)
    else (d.slotStates i).nsymbcontig
  /-- The early release and the release of the block are credited to the block. -/
  credited : ∀ b i, symbolsCredited evs b i =
    if d.sbid = b then
      (if d.Releases slot c i then 1 else 0) +
        if d'.nrcv = i32 P.kval then (d'.slotStates i).nsymb - (d'.slotStates i).nsymbcontig else 0
    else 0
  /-- The credits are what is added to the buffers. -/
  nbuffered : ∀ i, (d.slotStates i).nbuffered < 2 ^ 32 → ((d'.slotStates i).nbuffered : ℤ) =
    u32 ((d.slotStates i).nbuffered + symbolsCredited evs d.sbid i * P.tval)
  /-- A credit is one symbol or all that was held back. -/
  credit : ∀ b i s, Event.credit b i s ∈ evs →
    s = 1 ∨ s = (d'.slotStates i).nsymb - (d'.slotStates i).nsymbcontig
  /-- A result is reported for the block at its `Kval`-th packet. -/
  decodeInfo : ∀ info, Event.decodeInfo info ∈ evs →
    info = populateDecodeInfo P d' ∧ d'.nrcv = i32 P.kval
  /-- The packet is not discarded. -/
  not_discarded : Event.discarded ∉ evs

section Count

variable (P : RqParams) (d : RqDecoder n)

/-- The larger of the count so far and the count of the header. -/
lemma raiseNsymb_nsymb (c : Fin n → ℤ) (i : Fin n) :
    ((d.raiseNsymb c).slotStates i).nsymb = max (d.slotStates i).nsymb (c i) := by
  simp only [raiseNsymb]
  split
  · rename_i h
    exact (max_eq_right h.le).symm
  · rename_i h
    exact (max_eq_left (not_lt.mp h)).symm

/-- Raising the symbol counts leaves the buffers. -/
lemma raiseNsymb_nbuffered (c : Fin n → ℤ) (i : Fin n) :
    ((d.raiseNsymb c).slotStates i).nbuffered = (d.slotStates i).nbuffered := by
  simp only [raiseNsymb]
  split <;> rfl

/-- Raising the symbol counts leaves the contiguous symbols. -/
lemma raiseNsymb_nsymbcontig (c : Fin n → ℤ) (i : Fin n) :
    ((d.raiseNsymb c).slotStates i).nsymbcontig = (d.slotStates i).nsymbcontig := by
  simp only [raiseNsymb]
  split <;> rfl

/-- What the contiguity test says after the symbol counts are raised. -/
lemma releases_iff (slot : Option (Fin n)) (c : Fin n → ℤ) (i : Fin n) :
    d.Releases slot c i ↔ slot = some i ∧ (d.raiseNsymb c).IsContiguous i := by
  rw [Releases, IsContiguous, raiseNsymb_nsymb, raiseNsymb_nsymbcontig]

/-- The early release on a slot that passes the contiguity test. -/
lemma releaseContig_of_isContiguous {i : Fin n} (h : d.IsContiguous i) :
    releaseContig P d (some i) =
      ({ d with
          slotStates := Function.update d.slotStates i
            { d.slotStates i with
              nsymbcontig := i32 ((d.slotStates i).nsymbcontig + 1)
              nbuffered := u32 ((d.slotStates i).nbuffered + P.tval) } },
        [.credit d.sbid i 1]) := if_pos h

/-- Without the contiguity test there is no early release. -/
lemma releaseContig_of_not {slot : Option (Fin n)} (h : ∀ i, slot = some i → ¬d.IsContiguous i) :
    releaseContig P d slot = (d, []) := by
  cases slot with
  | none => rfl
  | some i => exact if_neg (h i rfl)

/-- An early release either happens on the slot of the packet or not at all. -/
lemma releaseContig_cases (slot : Option (Fin n)) :
    (∃ i, slot = some i ∧ d.IsContiguous i) ∨ ∀ i, slot = some i → ¬d.IsContiguous i := by
  by_cases h : ∃ i, slot = some i ∧ d.IsContiguous i
  · exact Or.inl h
  · exact Or.inr fun i hi hc => h ⟨i, hi, hc⟩

/-- The early release leaves the block counters. -/
lemma releaseContig_counters (slot : Option (Fin n)) :
    (releaseContig P d slot).1.sbid = d.sbid ∧ (releaseContig P d slot).1.nrcv = d.nrcv ∧
      (releaseContig P d slot).1.nsrcrcv = d.nsrcrcv := by
  rcases releaseContig_cases d slot with ⟨i, rfl, h⟩ | h
  · rw [releaseContig_of_isContiguous P d h]
    exact ⟨rfl, rfl, rfl⟩
  · rw [releaseContig_of_not P d h]
    exact ⟨rfl, rfl, rfl⟩

/-- The early release leaves the symbol counts. -/
lemma releaseContig_nsymb (slot : Option (Fin n)) (i : Fin n) :
    ((releaseContig P d slot).1.slotStates i).nsymb = (d.slotStates i).nsymb := by
  rcases releaseContig_cases d slot with ⟨j, rfl, h⟩ | h
  · rw [releaseContig_of_isContiguous P d h]
    by_cases hi : i = j
    · subst hi
      simp
    · simp [hi]
  · rw [releaseContig_of_not P d h]

/-- The early release counts one contiguous symbol. -/
lemma releaseContig_nsymbcontig (slot : Option (Fin n)) (i : Fin n) :
    ((releaseContig P d slot).1.slotStates i).nsymbcontig =
      if slot = some i ∧ d.IsContiguous i then i32 ((d.slotStates i).nsymbcontig + 1)
      else (d.slotStates i).nsymbcontig := by
  rcases releaseContig_cases d slot with ⟨j, rfl, h⟩ | h
  · rw [releaseContig_of_isContiguous P d h]
    by_cases hi : i = j
    · subst hi
      simp [h]
    · simp [hi, Ne.symm hi]
  · rw [releaseContig_of_not P d h, if_neg fun hc => h i hc.1 hc.2]

/-- The early release adds one symbol to the buffer. -/
lemma releaseContig_nbuffered (slot : Option (Fin n)) (i : Fin n) :
    ((releaseContig P d slot).1.slotStates i).nbuffered =
      if slot = some i ∧ d.IsContiguous i then u32 ((d.slotStates i).nbuffered + P.tval)
      else (d.slotStates i).nbuffered := by
  rcases releaseContig_cases d slot with ⟨j, rfl, h⟩ | h
  · rw [releaseContig_of_isContiguous P d h]
    by_cases hi : i = j
    · subst hi
      simp [h]
    · simp [hi, Ne.symm hi]
  · rw [releaseContig_of_not P d h, if_neg fun hc => h i hc.1 hc.2]

/-- The early release credits one symbol. -/
lemma symbolsCredited_releaseContig (slot : Option (Fin n)) (b : ℤ) (i : Fin n) :
    symbolsCredited (releaseContig P d slot).2 b i =
      if d.sbid = b ∧ slot = some i ∧ d.IsContiguous i then 1 else 0 := by
  rcases releaseContig_cases d slot with ⟨j, rfl, h⟩ | h
  · rw [releaseContig_of_isContiguous P d h]
    simp only [symbolsCredited, List.map_cons, List.map_nil, List.sum_singleton, Event.symbols,
      Option.some.injEq]
    by_cases hi : j = i
    · subst hi
      simp [h]
    · simp [hi]
  · rw [releaseContig_of_not P d h, if_neg fun hc => h i hc.2.1 hc.2.2]
    rfl

/-- The events of the early release. -/
lemma mem_releaseContig {slot : Option (Fin n)} {e : Event n}
    (he : e ∈ (releaseContig P d slot).2) : ∃ i, e = .credit d.sbid i 1 := by
  rcases releaseContig_cases d slot with ⟨i, rfl, h⟩ | h
  · rw [releaseContig_of_isContiguous P d h] at he
    exact ⟨i, List.mem_singleton.mp he⟩
  · rw [releaseContig_of_not P d h] at he
    cases he

/-- The release of the block leaves the block counters. -/
lemma releaseBlock_counters :
    (releaseBlock P d).1.sbid = d.sbid ∧ (releaseBlock P d).1.nrcv = d.nrcv ∧
      (releaseBlock P d).1.nsrcrcv = d.nsrcrcv := by
  unfold releaseBlock
  split <;> exact ⟨rfl, rfl, rfl⟩

/-- The release of the block leaves the symbol counts. -/
lemma releaseBlock_nsymb (i : Fin n) :
    ((releaseBlock P d).1.slotStates i).nsymb = (d.slotStates i).nsymb := by
  unfold releaseBlock
  split <;> rfl

/-- The release of the block leaves the contiguous symbols. -/
lemma releaseBlock_nsymbcontig (i : Fin n) :
    ((releaseBlock P d).1.slotStates i).nsymbcontig = (d.slotStates i).nsymbcontig := by
  unfold releaseBlock
  split <;> rfl

/-- The release of the block adds what was held back to the buffers. -/
lemma releaseBlock_nbuffered (i : Fin n) :
    ((releaseBlock P d).1.slotStates i).nbuffered =
      if d.nrcv = i32 P.kval then
        u32 ((d.slotStates i).nbuffered +
          ((d.slotStates i).nsymb - (d.slotStates i).nsymbcontig) * P.tval)
      else (d.slotStates i).nbuffered := by
  unfold releaseBlock
  split <;> rfl

/-- The release of the block credits what was held back. -/
lemma symbolsCredited_releaseBlock (b : ℤ) (i : Fin n) :
    symbolsCredited (releaseBlock P d).2 b i =
      if d.sbid = b then
        if d.nrcv = i32 P.kval then (d.slotStates i).nsymb - (d.slotStates i).nsymbcontig else 0
      else 0 := by
  unfold releaseBlock
  split
  · rw [symbolsCredited_append, symbolsCredited_ofFn]
    simp [symbolsCredited, Event.symbols]
  · simp

/-- Both releases together add their credits to the buffers. -/
lemma count_nbuffered (c : Fin n → ℤ) (slot : Option (Fin n)) (esi : ℤ) (i : Fin n)
    (hi : (d.slotStates i).nbuffered < 2 ^ 32) :
    (((count P d c slot esi).1.slotStates i).nbuffered : ℤ) =
      u32 ((d.slotStates i).nbuffered +
        symbolsCredited (count P d c slot esi).2 d.sbid i * P.tval) := by
  obtain ⟨hr1, -, -⟩ : (releaseContig P (d.raiseNsymb c) slot).1.sbid = d.sbid ∧ _ :=
    releaseContig_counters P (d.raiseNsymb c) slot
  have hsbid : ((releaseContig P (d.raiseNsymb c) slot).1.countSymbol P esi).sbid = d.sbid := hr1
  have hd : (d.raiseNsymb c).sbid = d.sbid := rfl
  have hstates : ((releaseContig P (d.raiseNsymb c) slot).1.countSymbol P esi).slotStates =
      (releaseContig P (d.raiseNsymb c) slot).1.slotStates := rfl
  simp only [count, symbolsCredited_append, symbolsCredited_releaseContig,
    symbolsCredited_releaseBlock, releaseBlock_nbuffered, hsbid, hd, if_true, true_and, hstates]
  rw [releaseContig_nbuffered, raiseNsymb_nbuffered]
  have hnat : (u32 ((d.slotStates i).nbuffered : ℤ) : ℤ) = (d.slotStates i).nbuffered :=
    u32_of_lt (by omega) (by omega)
  split_ifs
  · rw [u32_add_u32]
    ring_nf
  · rw [zero_add]
  · rw [add_zero, one_mul]
  · rw [add_zero, zero_mul, add_zero, hnat]

/-- The events of the release of the block. -/
lemma mem_releaseBlock {e : Event n} (he : e ∈ (releaseBlock P d).2) :
    d.nrcv = i32 P.kval ∧ (e = .decodeInfo (populateDecodeInfo P (releaseBlock P d).1) ∨
      ∃ i, e = .credit d.sbid i ((d.slotStates i).nsymb - (d.slotStates i).nsymbcontig)) := by
  unfold releaseBlock at he ⊢
  split at he
  · rename_i hk
    rw [if_pos hk]
    rcases List.mem_append.mp he with he | he
    · obtain ⟨i, rfl⟩ := List.mem_ofFn.mp he
      exact ⟨hk, Or.inr ⟨i, rfl⟩⟩
    · exact ⟨hk, Or.inl (List.mem_singleton.mp he)⟩
  · cases he

/-- **What counting a packet does.** -/
theorem accepted_count (c : Fin n → ℤ) (slot : Option (Fin n)) (esi : ℤ) :
    Accepted P d slot c esi (count P d c slot esi).1 (count P d c slot esi).2 := by
  obtain ⟨hr1, hr2, hr3⟩ : (releaseContig P (d.raiseNsymb c) slot).1.sbid = d.sbid ∧
      (releaseContig P (d.raiseNsymb c) slot).1.nrcv = d.nrcv ∧
      (releaseContig P (d.raiseNsymb c) slot).1.nsrcrcv = d.nsrcrcv :=
    releaseContig_counters P (d.raiseNsymb c) slot
  obtain ⟨hs1, hs2, hs3⟩ := releaseBlock_counters P
    ((releaseContig P (d.raiseNsymb c) slot).1.countSymbol P esi)
  have hnsymb : ∀ i, ((count P d c slot esi).1.slotStates i).nsymb =
      ((releaseContig P (d.raiseNsymb c) slot).1.slotStates i).nsymb :=
    fun i => releaseBlock_nsymb P _ i
  have hcontig : ∀ i, ((count P d c slot esi).1.slotStates i).nsymbcontig =
      ((releaseContig P (d.raiseNsymb c) slot).1.slotStates i).nsymbcontig :=
    fun i => releaseBlock_nsymbcontig P _ i
  have hevs : (count P d c slot esi).2 = (releaseContig P (d.raiseNsymb c) slot).2 ++
      (releaseBlock P ((releaseContig P (d.raiseNsymb c) slot).1.countSymbol P esi)).2 := rfl
  have hcount : (count P d c slot esi).1.nrcv =
      ((releaseContig P (d.raiseNsymb c) slot).1.countSymbol P esi).nrcv := hs2
  constructor
  · exact hs1.trans hr1
  · rw [hcount]
    simp only [countSymbol, hr2]
  · refine hs3.trans ?_
    simp only [countSymbol, hr3]
  · intro i
    rw [hnsymb, releaseContig_nsymb, raiseNsymb_nsymb]
  · intro i
    rw [hcontig, releaseContig_nsymbcontig, raiseNsymb_nsymbcontig]
    simp only [releases_iff]
  · intro b i
    rw [hevs, symbolsCredited_append, symbolsCredited_releaseContig, symbolsCredited_releaseBlock,
      hnsymb, hcontig, hcount]
    have hsbid : ((releaseContig P (d.raiseNsymb c) slot).1.countSymbol P esi).sbid = d.sbid := hr1
    rw [hsbid]
    simp only [releases_iff]
    by_cases hb : d.sbid = b
    · simp only [raiseNsymb, countSymbol, hb, true_and, if_true]
    · simp only [raiseNsymb, hb, false_and, if_false, add_zero]
  · exact fun i hi => count_nbuffered P d c slot esi i hi
  · intro b i s hs
    rw [hnsymb, hcontig]
    rcases List.mem_append.mp (hevs ▸ hs) with hs | hs
    · obtain ⟨j, hj⟩ := mem_releaseContig P _ hs
      cases hj
      exact Or.inl rfl
    · obtain ⟨-, hj | ⟨j, hj⟩⟩ := mem_releaseBlock P _ hs
      · cases hj
      · cases hj
        exact Or.inr rfl
  · intro info hinfo
    rcases List.mem_append.mp (hevs ▸ hinfo) with hinfo | hinfo
    · obtain ⟨j, hj⟩ := mem_releaseContig P _ hinfo
      cases hj
    · obtain ⟨hk, hj | ⟨j, hj⟩⟩ := mem_releaseBlock P _ hinfo
      · cases hj
        exact ⟨rfl, hs2.trans hk⟩
      · cases hj
  · intro hdis
    rcases List.mem_append.mp (hevs ▸ hdis) with hdis | hdis
    · obtain ⟨j, hj⟩ := mem_releaseContig P _ hdis
      cases hj
    · obtain ⟨-, hj | ⟨j, hj⟩⟩ := mem_releaseBlock P _ hdis <;> cases hj

end Count

/-- A header with one count for each slot and an addressable stream id is counted. -/
lemma accept_eq (P : RqParams) (d : RqDecoder n) {hdr : RqHeader} {slot : Option (Fin n)}
    {c : Fin n → ℤ} (hiseq : hdr.iseqData = List.ofFn c)
    (hslot : addressed n hdr.iseqStreamid = some slot) :
    accept P d hdr = some (count P d c slot (esiOf P hdr.seqno)) := by
  have hlen : hdr.iseqData.length = n := by rw [hiseq, List.length_ofFn]
  have hc : (fun i : Fin n => hdr.iseqData.get (i.cast hlen.symm)) = c := by
    funext i
    simp [hiseq]
  rw [accept, dif_pos hlen, hslot, hc]

/-- **What a packet can do.** A packet with a well-formed header is discarded when its source block
is already processed, and counted in its source block otherwise. -/
theorem decode_cases (P : RqParams) (d : RqDecoder n) {hdr : RqHeader} {slot : Option (Fin n)}
    {c : Fin n → ℤ} (hiseq : hdr.iseqData = List.ofFn c)
    (hslot : addressed n hdr.iseqStreamid = some slot) :
    (sbidOf P hdr.seqno < d.sbid ∧ decode P d hdr = some (d, [.discarded])) ∨
      (d.sbid ≤ sbidOf P hdr.seqno ∧ ∃ d' evs pre, decode P d hdr = some (d', pre ++ evs) ∧
        Accepted P (d.enter (sbidOf P hdr.seqno)) slot c (esiOf P hdr.seqno) d' evs ∧
        (pre = [] ∨ (d.sbid < sbidOf P hdr.seqno ∧ pre = d.leaveBlock P))) := by
  rcases lt_trichotomy d.sbid (sbidOf P hdr.seqno) with h | h | h
  · refine Or.inr ⟨h.le, _, _, d.leaveBlock P, ?_, accepted_count P _ c slot _, Or.inr ⟨h, rfl⟩⟩
    rw [decode, if_pos h, accept_eq P _ hiseq hslot, enter, if_pos h]
    rfl
  · refine Or.inr ⟨h.le, _, _, [], ?_, accepted_count P _ c slot _, Or.inl rfl⟩
    rw [decode, if_neg h.not_lt, if_neg h.not_gt, accept_eq P _ hiseq hslot, enter, if_neg h.not_lt]
    rfl
  · refine Or.inl ⟨h, ?_⟩
    rw [decode, if_neg h.not_gt, if_pos h]

/-- The packets that are counted have as many counts as there are slots. -/
lemma accept_eq_some {P : RqParams} {d d' : RqDecoder n} {hdr : RqHeader} {evs : List (Event n)}
    (h : accept P d hdr = some (d', evs)) :
    ∃ c slot, count P d c slot (esiOf P hdr.seqno) = (d', evs) := by
  rw [accept] at h
  split at h
  · split at h
    · cases h
    · exact ⟨_, _, Option.some.inj h⟩
  · cases h

/-- A packet that is received has a header, which is decoded. -/
lemma exists_decode_of_receive {P : RqParams} {d d' : RqDecoder n} {pkt : Packet}
    {evs : List (Event n)} (h : receive P d pkt = some (d', evs)) :
    ∃ hdr size evs', RqHeader.peek pkt = some (hdr, size) ∧ decode P d hdr = some (d', evs') ∧
      evs = .rxTrace pkt :: evs' := by
  rw [receive] at h
  split at h
  · cases h
  rename_i hdr size hpeek
  split at h
  · cases h
  obtain ⟨r, hr, heq⟩ := Option.map_eq_some_iff.mp h
  obtain ⟨rfl, rfl⟩ := Prod.mk.inj heq
  exact ⟨hdr, size, r.2, hpeek, hr, rfl⟩

/-- **What a packet can do**, whatever its header says: it is discarded, or it is counted in its
source block, with a report on the block that is left. -/
theorem receive_eq_some {P : RqParams} {d d' : RqDecoder n} {pkt : Packet} {evs : List (Event n)}
    (h : receive P d pkt = some (d', evs)) :
    ∃ hdr size, RqHeader.peek pkt = some (hdr, size) ∧
      ((sbidOf P hdr.seqno < d.sbid ∧ d' = d ∧ evs = [.rxTrace pkt, .discarded]) ∨
        (d.sbid ≤ sbidOf P hdr.seqno ∧ ∃ c slot evs',
          count P (d.enter (sbidOf P hdr.seqno)) c slot (esiOf P hdr.seqno) = (d', evs') ∧
          evs = .rxTrace pkt ::
            ((if d.sbid < sbidOf P hdr.seqno then d.leaveBlock P else []) ++ evs'))) := by
  obtain ⟨hdr, size, evs, hpeek, hr, rfl⟩ := exists_decode_of_receive h
  refine ⟨hdr, size, hpeek, ?_⟩
  rw [decode] at hr
  split at hr
  · rename_i hlt
    obtain ⟨s, hs, heq⟩ := Option.map_eq_some_iff.mp hr
    obtain ⟨rfl, rfl⟩ := Prod.mk.inj heq
    obtain ⟨c, slot, hcount⟩ := accept_eq_some hs
    refine Or.inr ⟨hlt.le, c, slot, s.2, ?_, ?_⟩
    · rw [enter, if_pos hlt, hcount]
    · rw [if_pos hlt]
  · rename_i hge
    split at hr
    · rename_i hlt
      cases hr
      exact Or.inl ⟨hlt, rfl, rfl⟩
    · rename_i hle
      obtain ⟨c, slot, hcount⟩ := accept_eq_some hr
      refine Or.inr ⟨not_lt.mp hle, c, slot, evs, ?_, ?_⟩
      · rw [enter, if_neg hge, hcount]
      · rw [if_neg hge]
        rfl

end RqDecoder

end MeshSim
