import MeshSim.Rq.Delivery
import MeshSim.Rq.SendSide

/-!
# The send side of the decoder conserves bytes

On each TX slot the bytes handed over and the bytes buffered make up, as exact integers, the symbols
credited.  `Balanced` says this up to the width of the counters for whatever packets arrive; here
the packets are those of an encoder, in any number and order, and the question is when it is exact.
`addedSymbols` computes from the state and the header what a packet adds to a backlog, and
`HasRoom` says that the counters have room for one step.  The bytes are conserved in every state of
a run exactly when every step of it has room (`conserves_iff`): the backlog is a 32-bit counter, and
two symbols of the largest admitted size already exceed it.
-/

namespace MeshSim

open MachineInt

variable {n : ℕ}

/-! ### The headers of an encoder -/

/-- The header of a packet for `n` slots: one count for each slot, and the stream id of a slot or
that of a repair packet. -/
structure ForSlots (n : ℕ) (hdr : RqHeader) : Prop where
  /-- The header is valid. -/
  valid : hdr.valid = true
  /-- The sequence number is a `uint64_t`. -/
  seqno_lt : hdr.seqno < 2 ^ 64
  /-- There is one count for each slot. -/
  iseq : ∃ c : Fin n → ℤ, hdr.iseqData = List.ofFn c ∧ ∀ i, -2 ^ 31 ≤ c i ∧ c i < 2 ^ 31
  /-- The stream id is that of a repair packet or of a slot. -/
  streamid : hdr.iseqStreamid = -1 ∨ ∃ i : Fin n, hdr.iseqStreamid = (i : ℕ)

/-- Behind such a header, a payload of any kind leaves it to be parsed. -/
lemma ForSlots.peek_serialize {hdr : RqHeader} (h : ForSlots n hdr) (hn : n ≤ RqDecoder.txSlotCount)
    (payload : Packet) :
    RqHeader.peek (hdr.serialize ++ payload) =
      some (hdr, RqHeader.minSerializedSize + 4 * hdr.iseqData.length) := by
  have hn : n ≤ 8 := hn
  obtain ⟨c, hiseq, hrange⟩ := h.iseq
  have hlen : hdr.iseqData.length = n := by rw [hiseq, List.length_ofFn]
  have hwf : hdr.Wf := by
    refine ⟨h.seqno_lt, ?_, ?_, by omega⟩
    · rcases h.streamid with hs | ⟨i, hs⟩ <;> omega
    · intro x hx
      rw [hiseq] at hx
      obtain ⟨i, rfl⟩ := List.mem_ofFn.mp hx
      exact hrange i
  have hhdr : ({ hdr with valid := true } : RqHeader) = hdr := by rw [← h.valid]
  rw [RqHeader.peek, RqHeader.deserialize_serialize hwf, hhdr]

/-- The header that the encoder puts in front of a payload. -/
lemma forSlots_nextHeader (P : RqParams) (e : RqEncoder n) {streamid : ℤ}
    (h : streamid = -1 ∨ ∃ i : Fin n, streamid = (i : ℕ)) :
    ForSlots n (RqEncoder.nextHeader P e streamid) where
  valid := rfl
  seqno_lt := u64_lt (P.nval * e.sbid + e.esi)
  iseq := ⟨fun i => i32 (e.symbcounts i), by
    simp [RqEncoder.nextHeader, RqHeader.ofStream, Function.comp_def], fun i => i32_range _⟩
  streamid := h

/-- The headers of one expiry of the send timer. -/
lemma forSlots_sendPacket {P : RqParams} {e : RqEncoder n} {c : SendCall n} {x : TxPacket}
    (hx : x ∈ (RqEncoder.sendPacket P e c).2.filterMap RqEncoder.Event.sent?) :
    ForSlots n x.hdr := by
  rcases RqEncoder.sendPacket_cases P e c with h | ⟨slot, -, -, -, h⟩ | ⟨-, -, h⟩
  · rw [h] at hx
    cases hx
  · rw [h, List.filterMap_cons_none (by rfl), RqEncoder.sent_sendCreated, List.mem_singleton] at hx
    rw [hx]
    exact forSlots_nextHeader P _ (Or.inr ⟨slot, rfl⟩)
  · rw [h, RqEncoder.sent_sendCreated, List.mem_singleton] at hx
    rw [hx]
    exact forSlots_nextHeader P _ (Or.inl rfl)

/-- Every packet of an encoder is for its slots. -/
lemma forSlots_sent {P : RqParams} [NeZero n] {calls : List (SendCall n)} {x : TxPacket}
    (hx : x ∈ RqEncoder.sent P calls) : ForSlots n x.hdr := by
  induction calls using List.reverseRecOn with
  | nil => cases hx
  | append_singleton calls c ih =>
    rw [RqEncoder.sent_concat, List.mem_append] at hx
    rcases hx with hx | hx
    · exact ih hx
    · exact forSlots_sendPacket hx

namespace RqDecoder

/-! ### One packet -/

/-- **What a packet of an encoder can do.** The decoder never aborts on it: it discards it, or
counts it in its source block. -/
theorem receive_forSlots (P : RqParams) {hdr : RqHeader} (h : ForSlots n hdr)
    (hn : n ≤ txSlotCount) (payload : Packet) (d : RqDecoder n) :
    (sbidOf P hdr.seqno < d.sbid ∧ receive P d (hdr.serialize ++ payload) =
        some (d, [.rxTrace (hdr.serialize ++ payload), .discarded])) ∨
      (d.sbid ≤ sbidOf P hdr.seqno ∧ ∃ c slot pre,
        (∀ i : Fin n, hdr.iseqData.getD i 0 = c i) ∧
        (∀ i : Fin n, slot = some i ↔ hdr.iseqStreamid = (i : ℕ)) ∧
        (pre = [] ∨ pre = d.leaveBlock P) ∧
        receive P d (hdr.serialize ++ payload) =
          some ((count P (d.enter (sbidOf P hdr.seqno)) c slot (esiOf P hdr.seqno)).1,
            .rxTrace (hdr.serialize ++ payload) :: (pre ++
              (count P (d.enter (sbidOf P hdr.seqno)) c slot (esiOf P hdr.seqno)).2))) := by
  have hn : n ≤ 8 := hn
  obtain ⟨c, hiseq, -⟩ := h.iseq
  have hrecv : receive P d (hdr.serialize ++ payload) =
      (decode P d hdr).map fun r => (r.1, .rxTrace (hdr.serialize ++ payload) :: r.2) := by
    rw [receive, h.peek_serialize hn]
    exact if_neg (by simp [h.valid])
  obtain ⟨slot, hslot, hslots⟩ : ∃ slot : Option (Fin n),
      addressed n hdr.iseqStreamid = some slot ∧
        ∀ i : Fin n, slot = some i ↔ hdr.iseqStreamid = (i : ℕ) := by
    rcases h.streamid with hs | ⟨j, hs⟩
    · refine ⟨none, by rw [addressed, if_pos hs], fun i => ?_⟩
      simp only [reduceCtorEq, false_iff]
      omega
    · have hj := j.isLt
      refine ⟨some j, ?_, fun i => ?_⟩
      · rw [addressed, if_neg (by omega), if_pos ⟨by omega, by rw [txSlotCount]; omega⟩,
          dif_pos (by omega)]
        simp [hs]
      · rw [hs, Option.some.injEq, Fin.ext_iff]
        omega
  have haccept := fun e : RqDecoder n => accept_eq P e hiseq hslot
  have hcounts : ∀ i : Fin n, hdr.iseqData.getD i 0 = c i := by
    intro i
    simp [hiseq]
  rcases lt_trichotomy d.sbid (sbidOf P hdr.seqno) with hlt | heq | hgt
  · refine Or.inr ⟨hlt.le, c, slot, d.leaveBlock P, hcounts, hslots, Or.inr rfl, ?_⟩
    rw [hrecv, decode, if_pos hlt, haccept, enter, if_pos hlt]
    rfl
  · refine Or.inr ⟨heq.le, c, slot, [], hcounts, hslots, Or.inl rfl, ?_⟩
    rw [hrecv, decode, if_neg heq.not_lt, if_neg heq.not_gt, haccept, enter, if_neg heq.not_lt]
    rfl
  · refine Or.inl ⟨hgt, ?_⟩
    rw [hrecv, decode, if_neg hgt.not_gt, if_pos hgt]
    rfl

/-- The symbols that a packet adds to the backlog of a slot, by the state in which it arrives and
its header: one when it passes the contiguity test, and all that is held back when it is the
`Kval`-th packet of its source block. -/
def addedSymbols (P : RqParams) (d : RqDecoder n) (hdr : RqHeader) (i : Fin n) : ℤ :=
  let e := d.enter (sbidOf P hdr.seqno)
  let nsymb := max (e.slotStates i).nsymb (hdr.iseqData.getD i 0)
  if sbidOf P hdr.seqno < d.sbid then 0
  else if hdr.iseqStreamid = (i : ℕ) ∧ i32 ((e.slotStates i).nsymbcontig + 1) = nsymb then 1
  else if i32 (e.nrcv + 1) = i32 P.kval then nsymb - (e.slotStates i).nsymbcontig
  else 0

/-- The counters of a decoder are in range. -/
structure InRange (d : RqDecoder n) : Prop where
  /-- The backlog is a `uint32_t`. -/
  nbuffered : ∀ i, (d.slotStates i).nbuffered < 2 ^ 32
  /-- At most the symbols counted are contiguous. -/
  nsymbcontig : ∀ i, 0 ≤ (d.slotStates i).nsymbcontig ∧
    (d.slotStates i).nsymbcontig ≤ (d.slotStates i).nsymb
  /-- The total is a `uint64_t`. -/
  txTotal : ∀ i, d.txTotal i < 2 ^ 64

/-- The counters of the constructed decoder are in range. -/
lemma inRange_init (n : ℕ) : InRange (init n) where
  nbuffered := fun _ => by simp [init]
  nsymbcontig := fun _ => by simp [init]
  txTotal := fun _ => by simp [init]

/-- Entering a source block keeps the counters in range. -/
lemma InRange.enter {d : RqDecoder n} (h : InRange d) (b : ℤ) : InRange (d.enter b) := by
  unfold RqDecoder.enter
  split
  · exact ⟨h.nbuffered, fun _ => ⟨le_rfl, le_rfl⟩, h.txTotal⟩
  · exact h

/-- Entering a source block does not send. -/
lemma enter_txTotal (d : RqDecoder n) (b : ℤ) : (d.enter b).txTotal = d.txTotal := by
  unfold enter
  split <;> rfl

/-- Counting a packet does not send. -/
lemma count_txTotal (P : RqParams) (d : RqDecoder n) (c : Fin n → ℤ) (slot : Option (Fin n))
    (esi : ℤ) : (count P d c slot esi).1.txTotal = d.txTotal := by
  have hblock : ∀ d' : RqDecoder n, (releaseBlock P d').1.txTotal = d'.txTotal := by
    intro d'
    unfold releaseBlock
    split <;> rfl
  have hcontig : (releaseContig P (d.raiseNsymb c) slot).1.txTotal = d.txTotal := by
    rcases releaseContig_cases (d.raiseNsymb c) slot with ⟨i, rfl, h⟩ | h
    · rw [releaseContig_of_isContiguous P _ h]
      rfl
    · rw [releaseContig_of_not P _ h]
      rfl
  exact (hblock _).trans hcontig

section Packet

variable {P : RqParams} {hdr : RqHeader} (hfor : ForSlots n hdr) (hn : n ≤ txSlotCount)
  {payload : Packet} {d d' : RqDecoder n} {evs : List (Event n)}
  (hrecv : receive P d (hdr.serialize ++ payload) = some (d', evs))

include hfor hn hrecv

/-- A packet adds to the backlogs what is computed from its header, and sends nothing. -/
lemma receive_credits : d'.txTotal = d.txTotal ∧
    ∀ i, creditedTo evs i = addedSymbols P d hdr i := by
  rcases receive_forSlots P hfor hn payload d with
    ⟨hlt, heq⟩ | ⟨hle, c, slot, pre, hc, hslot, hpre, heq⟩
  · obtain ⟨rfl, rfl⟩ := Prod.mk.inj (Option.some.inj (heq.symm.trans hrecv))
    refine ⟨rfl, fun i => ?_⟩
    rw [addedSymbols, if_pos hlt]
    rfl
  · obtain ⟨rfl, rfl⟩ := Prod.mk.inj (Option.some.inj (heq.symm.trans hrecv))
    refine ⟨(count_txTotal P _ c slot _).trans (enter_txTotal d _), fun i => ?_⟩
    have hacc := accepted_count P (d.enter (sbidOf P hdr.seqno)) c slot (esiOf P hdr.seqno)
    have hleft : creditedTo (Event.rxTrace (hdr.serialize ++ payload) :: pre) i = 0 := by
      rcases hpre with rfl | rfl
      · rfl
      · unfold leaveBlock
        split <;> rfl
    rw [← List.cons_append, creditedTo_append, hleft, zero_add, creditedTo_count,
      hacc.credited _ i, if_pos rfl, hacc.nrcv, hacc.nsymb i, hacc.nsymbcontig i, addedSymbols,
      if_neg hle.not_gt]
    simp only [Releases, hslot i, hc i]
    split_ifs with hrel hk
    · rw [hrel.2]
      ring
    · rfl
    · rw [zero_add]
    · rfl

/-- A packet keeps the counters in range. -/
lemma InRange.of_receive (h : InRange d) : InRange d' := by
  rcases receive_forSlots P hfor hn payload d with
    ⟨-, heq⟩ | ⟨-, c, slot, pre, -, -, -, heq⟩
  · obtain ⟨rfl, -⟩ := Prod.mk.inj (Option.some.inj (heq.symm.trans hrecv))
    exact h
  · obtain ⟨rfl, -⟩ := Prod.mk.inj (Option.some.inj (heq.symm.trans hrecv))
    have h := h.enter (sbidOf P hdr.seqno)
    have hacc := accepted_count P (d.enter (sbidOf P hdr.seqno)) c slot (esiOf P hdr.seqno)
    constructor
    · intro i
      have hnat := hacc.nbuffered i (h.nbuffered i)
      rw [Nat.cast_inj] at hnat
      rw [hnat]
      exact u32_lt _
    · intro i
      obtain ⟨h0, hle⟩ := h.nsymbcontig i
      rw [hacc.nsymb i, hacc.nsymbcontig i]
      split
      · -- a symbol released early brings the contiguous symbols up to the symbols counted
        rename_i hrel
        rw [hrel.2]
        exact ⟨h0.trans (hle.trans (le_max_left _ _)), le_rfl⟩
      · exact ⟨h0, hle.trans (le_max_left _ _)⟩
    · rw [count_txTotal]
      exact h.txTotal

omit hfor hn hrecv in
/-- What a packet adds is not negative. -/
lemma InRange.addedSymbols_nonneg (h : InRange d) (hdr : RqHeader) (i : Fin n) :
    0 ≤ addedSymbols P d hdr i := by
  have hle := ((h.enter (sbidOf P hdr.seqno)).nsymbcontig i).2
  have hmax := le_max_left (((d.enter (sbidOf P hdr.seqno)).slotStates i).nsymb)
    (hdr.iseqData.getD i 0)
  unfold addedSymbols
  dsimp only
  split_ifs <;> omega

/-- A packet adds its symbols to the backlog exactly when the backlog has room for them. -/
lemma InRange.receive_nbuffered_iff (h : InRange d) (i : Fin n) :
    ((d'.slotStates i).nbuffered : ℤ) =
        (d.slotStates i).nbuffered + P.tval * addedSymbols P d hdr i ↔
      (d.slotStates i).nbuffered + P.tval * addedSymbols P d hdr i < 2 ^ 32 := by
  have hnonneg : 0 ≤ P.tval * addedSymbols P d hdr i :=
    mul_nonneg (Int.natCast_nonneg _) (h.addedSymbols_nonneg hdr i)
  constructor
  · intro heq
    rw [← heq]
    exact_mod_cast (h.of_receive hfor hn hrecv).nbuffered i
  · intro hroom
    rw [(credited_receive hrecv).nbuffered i (h.nbuffered i),
      (receive_credits hfor hn hrecv).2 i, mul_comm (addedSymbols P d hdr i)]
    exact u32_of_lt (by omega) hroom

end Packet

/-! ### Sending -/

/-- What `TryToSend` may hand over: nothing when the slot is not connected. -/
def sendable (d : RqDecoder n) (slot : Fin n) : Option ℕ → ℕ
  | none => 0
  | some txavail => min txavail (d.slotStates slot).nbuffered

section Sending

variable {d : RqDecoder n} (slot : Fin n) (txAvailable : Option ℕ)

/-- What `TryToSend` takes from the backlog. -/
lemma tryToSend_nbuffered (i : Fin n) :
    ((tryToSend d slot txAvailable).1.slotStates i).nbuffered =
      if i = slot then (d.slotStates i).nbuffered - d.sendable slot txAvailable
      else (d.slotStates i).nbuffered := by
  unfold tryToSend sendable
  rcases txAvailable with _ | txavail
  · simp
  · dsimp only
    split
    · rename_i hzero
      split
      · rename_i hi
        rw [hi, hzero]
        omega
      · rfl
    · split
      · rename_i hzero
        simp [hzero]
      · by_cases hi : i = slot
        · subst hi
          simp
        · simp [hi]

/-- What `TryToSend` adds to the total. -/
lemma tryToSend_txTotal (h : InRange d) (i : Fin n) :
    (tryToSend d slot txAvailable).1.txTotal i =
      if i = slot then u64 (d.txTotal i + d.sendable slot txAvailable) else d.txTotal i := by
  have hself : u64 (d.txTotal i) = d.txTotal i := u64_of_lt (h.txTotal i)
  unfold tryToSend sendable
  rcases txAvailable with _ | txavail
  · simp [hself]
  · dsimp only
    split
    · rename_i hzero
      simp [hzero, hself]
    · split
      · rename_i hzero
        simp [hzero, hself]
      · by_cases hi : i = slot
        · subst hi
          simp
        · simp [hi]

/-- `TryToSend` hands over at most what is available and buffered. -/
lemma tryToSend_amount_le {j : Fin n} {amount : ℕ}
    (he : Event.txTrace j amount ∈ (tryToSend d slot txAvailable).2) :
    j = slot ∧ ∃ txavail, txAvailable = some txavail ∧ amount ≤ txavail ∧
      amount ≤ (d.slotStates slot).nbuffered := by
  unfold tryToSend at he
  rcases txAvailable with _ | txavail
  · cases he
  · dsimp only at he
    split at he
    · cases he
    · split at he
      · cases he
      · cases List.mem_singleton.mp he
        exact ⟨rfl, txavail, rfl, min_le_left _ _, min_le_right _ _⟩

/-- `TryToSend` credits nothing. -/
lemma creditedTo_tryToSend (i : Fin n) : creditedTo (tryToSend d slot txAvailable).2 i = 0 := by
  refine List.sum_eq_zero fun x hx => ?_
  obtain ⟨e, he, rfl⟩ := List.mem_map.mp hx
  obtain ⟨amount, rfl⟩ := mem_tryToSend he
  rfl

/-- No more is handed over than is buffered. -/
lemma sendable_le (d : RqDecoder n) :
    d.sendable slot txAvailable ≤ (d.slotStates slot).nbuffered := by
  rcases txAvailable with _ | txavail
  · exact Nat.zero_le _
  · exact min_le_right _ _

/-- `TryToSend` keeps the counters in range. -/
lemma InRange.tryToSend (h : InRange d) : InRange (tryToSend d slot txAvailable).1 := by
  have hd := sameCounters_tryToSend d slot txAvailable
  constructor
  · intro i
    have := h.nbuffered i
    rw [tryToSend_nbuffered]
    split <;> omega
  · intro i
    rw [hd.nsymb, hd.nsymbcontig]
    exact h.nsymbcontig i
  · intro i
    rw [tryToSend_txTotal slot txAvailable h]
    split
    · exact u64_lt _
    · exact h.txTotal i

/-- `TryToSend` moves bytes from the backlog to the total exactly when the total has room for them.
-/
lemma InRange.tryToSend_moves_iff (h : InRange d) :
    (∀ i, (RqDecoder.tryToSend d slot txAvailable).1.txTotal i +
        ((RqDecoder.tryToSend d slot txAvailable).1.slotStates i).nbuffered =
          d.txTotal i + (d.slotStates i).nbuffered) ↔
      d.txTotal slot + d.sendable slot txAvailable < 2 ^ 64 := by
  have hle := sendable_le slot txAvailable d
  constructor
  · intro hmoves
    have hslot := hmoves slot
    have hlt : u64 (d.txTotal slot + d.sendable slot txAvailable) < 2 ^ 64 := u64_lt _
    rw [tryToSend_txTotal slot txAvailable h, tryToSend_nbuffered, if_pos rfl, if_pos rfl] at hslot
    omega
  · intro hroom i
    rw [tryToSend_txTotal slot txAvailable h, tryToSend_nbuffered]
    split
    · rename_i hi
      subst hi
      have hfit : u64 (d.txTotal i + d.sendable i txAvailable) =
          d.txTotal i + d.sendable i txAvailable := by exact_mod_cast u64_of_lt hroom
      omega
    · rfl

end Sending

/-! ### Runs -/

/-- The counters have room for a step: the backlogs for what a packet adds, and the total of a slot
for what is handed over on it. -/
def HasRoom (P : RqParams) (d : RqDecoder n) : Step n → Prop
  | .recv pkt => ∀ hdr size, RqHeader.peek pkt = some (hdr, size) →
      ∀ i, (d.slotStates i).nbuffered + P.tval * addedSymbols P d hdr i < 2 ^ 32
  | .tryToSend slot txAvailable => d.txTotal slot + d.sendable slot txAvailable < 2 ^ 64

/-- The bytes handed over and buffered on each slot are those of the symbols credited. -/
def Conserved (P : RqParams) (d : RqDecoder n) (evs : List (Event n)) : Prop :=
  ∀ i, (d.txTotal i + (d.slotStates i).nbuffered : ℤ) = P.tval * creditedTo evs i

/-- In every state that a run reaches, the bytes are conserved, and `TryToSend` hands over at most
what is available and buffered. -/
def Conserves (P : RqParams) (steps : List (Step n)) : Prop :=
  ∀ pre, pre <+: steps → ∀ d, (run P pre).1 = some d →
    Conserved P d (run P pre).2 ∧
      ∀ slot txAvailable j amount,
        Event.txTrace j amount ∈ (RqDecoder.tryToSend d slot txAvailable).2 →
          j = slot ∧ ∃ txavail, txAvailable = some txavail ∧ amount ≤ txavail ∧
            amount ≤ (d.slotStates slot).nbuffered

/-- The packets that a run reads are packets of an encoder run. -/
def ReadsSent (P : RqParams) [NeZero n] (calls : List (SendCall n)) (steps : List (Step n)) :
    Prop :=
  ∀ pkt ∈ received steps, ∃ x ∈ RqEncoder.sent P calls, x.bytes = pkt

section Run

variable {P : RqParams} {steps : List (Step n)}

/-- Reading a packet of an encoder does not abort and keeps the counters in range, and it conserves
the bytes exactly when it has room. -/
lemma InRange.step_recv (hn : n ≤ txSlotCount) {d : RqDecoder n} (h : InRange d) {x : TxPacket}
    (hfor : ForSlots n x.hdr) :
    ∃ d' evs, step P (some d) (.recv x.bytes) = (some d', evs) ∧ InRange d' ∧
      ((∀ i, (d'.txTotal i + (d'.slotStates i).nbuffered : ℤ) =
          d.txTotal i + (d.slotStates i).nbuffered + P.tval * creditedTo evs i) ↔
        HasRoom P d (.recv x.bytes)) := by
  obtain ⟨d', evs, hrecv⟩ : ∃ d' evs, receive P d x.bytes = some (d', evs) := by
    rcases receive_forSlots P hfor hn x.payload d with ⟨-, heq⟩ | ⟨-, c, slot, pre, -, -, -, heq⟩
    · exact ⟨_, _, heq⟩
    · exact ⟨_, _, heq⟩
  have hpeek := hfor.peek_serialize hn x.payload
  obtain ⟨htotal, hcredits⟩ := receive_credits hfor hn hrecv
  have hiff := h.receive_nbuffered_iff hfor hn hrecv
  refine ⟨d', evs, step_of_receive hrecv, h.of_receive hfor hn hrecv, ?_, ?_⟩
  · intro hcons hdr size hpeek' i
    obtain rfl : x.hdr = hdr := congrArg Prod.fst (Option.some.inj (hpeek.symm.trans hpeek'))
    have hi := hcons i
    rw [htotal, hcredits i] at hi
    exact (hiff i).mp (by omega)
  · intro hroom i
    have hi := (hiff i).mpr (hroom x.hdr _ hpeek i)
    rw [htotal, hcredits i, hi]
    ring

/-- `TryToSend` keeps the counters in range, and it conserves the bytes exactly when it has room. -/
lemma InRange.step_tryToSend {d : RqDecoder n} (h : InRange d) (slot : Fin n)
    (txAvailable : Option ℕ) :
    ∃ d' evs, step P (some d) (.tryToSend slot txAvailable) = (some d', evs) ∧ InRange d' ∧
      ((∀ i, (d'.txTotal i + (d'.slotStates i).nbuffered : ℤ) =
          d.txTotal i + (d.slotStates i).nbuffered + P.tval * creditedTo evs i) ↔
        HasRoom P d (.tryToSend slot txAvailable)) := by
  refine ⟨_, _, rfl, h.tryToSend slot txAvailable, ?_⟩
  rw [HasRoom, ← h.tryToSend_moves_iff slot txAvailable]
  refine forall_congr' fun i => ?_
  rw [creditedTo_tryToSend, mul_zero, add_zero]
  norm_cast

/-- A run continued by one step. -/
lemma run_concat_of_step {pre : List (Step n)} {d d' : RqDecoder n} {s : Step n}
    {evs : List (Event n)} (h : (run P pre).1 = some d) (hs : step P (some d) s = (some d', evs)) :
    run P (pre ++ [s]) = (some d', (run P pre).2 ++ evs) := by
  rw [run, Mealy.run_concat]
  change ((step P (run P pre).1 s).1, (run P pre).2 ++ (step P (run P pre).1 s).2) = _
  rw [h, hs]

variable [NeZero n] {calls : List (SendCall n)} (hn : n ≤ txSlotCount)
  (hsteps : ReadsSent P calls steps)

include hn hsteps

/-- One step of a run on packets of an encoder. -/
lemma ReadsSent.step {pre : List (Step n)} {s : Step n} (hs : pre ++ [s] <+: steps)
    {d : RqDecoder n} (h : InRange d) :
    ∃ d' evs, RqDecoder.step P (some d) s = (some d', evs) ∧ InRange d' ∧
      ((∀ i, (d'.txTotal i + (d'.slotStates i).nbuffered : ℤ) =
          d.txTotal i + (d.slotStates i).nbuffered + P.tval * creditedTo evs i) ↔
        HasRoom P d s) := by
  cases s with
  | recv pkt =>
    have hmem : pkt ∈ received steps := by
      refine List.mem_filterMap.mpr ⟨.recv pkt, hs.subset (by simp), rfl⟩
    obtain ⟨x, hx, rfl⟩ := hsteps pkt hmem
    exact h.step_recv hn (forSlots_sent hx)
  | tryToSend slot txAvailable => exact h.step_tryToSend slot txAvailable

/-- **A run on packets of an encoder never aborts**, and its counters stay in range. -/
theorem ReadsSent.inRange {pre : List (Step n)} (hpre : pre <+: steps) :
    ∃ d, (run P pre).1 = some d ∧ InRange d := by
  induction pre using List.reverseRecOn with
  | nil => exact ⟨_, rfl, inRange_init n⟩
  | append_singleton pre s ih =>
    obtain ⟨d, hd, h⟩ := ih ((List.prefix_append pre [s]).trans hpre)
    obtain ⟨d', evs, hs, h', -⟩ := hsteps.step hn hpre h
    exact ⟨d', by rw [run_concat_of_step hd hs], h'⟩

/-- Between two states of a run the bytes of the credits are added exactly when the step has
room. -/
lemma ReadsSent.conserved_concat_iff {pre : List (Step n)} {s : Step n}
    (hs : pre ++ [s] <+: steps) {d : RqDecoder n} (hd : (run P pre).1 = some d)
    (hcons : Conserved P d (run P pre).2) :
    (∀ d', (run P (pre ++ [s])).1 = some d' → Conserved P d' (run P (pre ++ [s])).2) ↔
      HasRoom P d s := by
  obtain ⟨d₀, hd₀, h⟩ := hsteps.inRange hn ((List.prefix_append pre [s]).trans hs)
  obtain rfl : d = d₀ := Option.some.inj (hd.symm.trans hd₀)
  obtain ⟨d', evs, hstep, -, hiff⟩ := hsteps.step hn hs h
  rw [← hiff, run_concat_of_step hd hstep]
  constructor
  · intro hall i
    have hi := hall d' rfl i
    rw [creditedTo_append, mul_add, ← hcons i] at hi
    exact hi
  · intro hmove d'' hd'' i
    obtain rfl : d' = d'' := Option.some.inj hd''
    rw [creditedTo_append, mul_add, ← hcons i]
    exact hmove i

/-- **The send side conserves bytes exactly when its counters have room.** The decoder reads packets
of an encoder with the same parameters in any number and order, and its slots connect, fill up and
send at any time.  In every state the bytes handed over on a slot and the bytes buffered for it make
up the symbols credited to it, and `TryToSend` hands over at most what is available and buffered, if
and only if for every step of the run the 32-bit backlogs have room for what the packet adds, and
the 64-bit total for what is handed over. -/
theorem conserves_iff : Conserves P steps ↔
    ∀ pre s, pre ++ [s] <+: steps → ∀ d, (run P pre).1 = some d → HasRoom P d s := by
  constructor
  · intro hcons pre s hs d hd
    have hpre : pre <+: steps := (List.prefix_append pre [s]).trans hs
    exact (hsteps.conserved_concat_iff hn hs hd (hcons pre hpre d hd).1).mp
      fun d' hd' => (hcons _ hs d' hd').1
  · intro hroom pre hpre d hd
    refine ⟨?_, fun slot txAvailable j amount he => tryToSend_amount_le slot txAvailable he⟩
    induction pre using List.reverseRecOn generalizing d with
    | nil =>
      obtain rfl : RqDecoder.init n = d := Option.some.inj hd
      intro i
      simp [init, creditedTo, run]
    | append_singleton pre s ih =>
      have hpre' : pre <+: steps := (List.prefix_append pre [s]).trans hpre
      obtain ⟨d₀, hd₀, -⟩ := hsteps.inRange hn hpre'
      exact (hsteps.conserved_concat_iff hn hpre hd₀ (ih hpre' d₀ hd₀)).mpr
        (hroom pre s hpre d₀ hd₀) d hd

end Run

/-- A source packet of one byte is received and handed over. -/
theorem conserves_iff_source :
    ∃ (P : RqParams) (calls : List (SendCall 1)) (steps : List (Step 1)),
      ReadsSent P calls steps ∧ (received steps).length = 1 ∧ bytesSent (run P steps).2 0 = 1 ∧
      (Conserves P steps ↔
        ∀ pre s, pre ++ [s] <+: steps → ∀ d, (run P pre).1 = some d → HasRoom P d s) := by
  let P : RqParams := { kval := 1, nval := 1, tval := 1 }
  let calls := List.replicate 1 (SendCall.ready P 1)
  let steps : List (Step 1) := handleRead ((RqEncoder.sent P calls).map TxPacket.bytes)
    fun _ => some 1
  have hsteps : ReadsSent P calls steps := by
    intro pkt hpkt
    rw [received_handleRead] at hpkt
    exact List.mem_map.mp hpkt
  exact ⟨P, calls, steps, hsteps, by decide +kernel, by decide +kernel,
    conserves_iff (by decide) hsteps⟩

/-- **The backlog wraps around.** Of a block of two source packets of `2 ^ 31` bytes each, both
arrive while the slot is not connected: two symbols are credited, and nothing is buffered. -/
theorem not_conserves :
    ¬∀ (P : RqParams) (calls : List (SendCall 1)) (steps : List (Step 1)),
      ReadsSent P calls steps → Conserves P steps := by
  let P : RqParams := { kval := 2, nval := 2, tval := 2 ^ 31 }
  let calls := List.replicate 2 (SendCall.ready P 1)
  let steps : List (Step 1) := handleRead ((RqEncoder.sent P calls).map TxPacket.bytes)
    fun _ => none
  intro h
  have hsteps : ReadsSent P calls steps := by
    intro pkt hpkt
    rw [received_handleRead] at hpkt
    exact List.mem_map.mp hpkt
  have hstate : (run P steps).1.map (fun d => (d.txTotal 0, (d.slotStates 0).nbuffered)) =
      some (0, 0) := by decide +kernel
  obtain ⟨d, hd, hcounters⟩ := Option.map_eq_some_iff.mp hstate
  obtain ⟨htotal, hbuffered⟩ := Prod.mk.inj hcounters
  have hcons := (h P calls steps hsteps steps List.prefix_rfl d hd).1 0
  have hcredited : creditedTo (run P steps).2 0 = 2 := by decide +kernel
  rw [htotal, hbuffered, hcredited] at hcons
  exact absurd hcons (by decide)

end RqDecoder

end MeshSim
