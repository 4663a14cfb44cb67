import MeshSim.Rq.Decoder
import MeshSim.Rq.HeaderStream

/-!
# Delivering encoded packets to the decoder

The decoder on the packets of an encoder run, in whatever order, number and selection the network
hands them over.  As long as sequence numbers fit into an `int`, the decoder finds the source block
and the symbol id of every packet, and one packet is either discarded or counted in its block
(`receive_cases`).  `run_delivery` is the induction rule for runs of the decoder on such packets,
and `Tracks` the invariant that ties the decoder's counters to the packets received: the current
source block is that of the highest sequence number, and the symbol counts are those in front of it.
-/

namespace MeshSim

open MachineInt

variable {n : ℕ}

/-! ### The packets received so far -/

/-- The source block of a packet. -/
def TxPacket.block (P : RqParams) (x : TxPacket) : ℕ := x.hdr.seqno / P.nval

/-- The sequence number after the highest one received. -/
def frontier (ds : List TxPacket) : ℕ := (ds.map fun x => x.hdr.seqno + 1).foldr max 0

/-- The source block of the highest sequence number received, and `-1` when there is none. -/
def curBlock (P : RqParams) (ds : List TxPacket) : ℤ := ((frontier ds : ℤ) - 1) / P.nval

/-- The packets received for a source block. -/
def blockPackets (P : RqParams) (ds : List TxPacket) (b : ℕ) : List TxPacket :=
  ds.filter fun x => x.block P = b

/-- Nothing was received in front of the frontier of nothing. -/
@[simp] lemma frontier_nil : frontier [] = 0 := rfl

/-- One more packet may advance the frontier. -/
lemma frontier_concat (ds : List TxPacket) (x : TxPacket) :
    frontier (ds ++ [x]) = max (frontier ds) (x.hdr.seqno + 1) := by
  induction ds with
  | nil => simp [frontier]
  | cons y ds ih =>
    have hcons : ∀ l, frontier (y :: l) = max (y.hdr.seqno + 1) (frontier l) := fun _ => rfl
    rw [List.cons_append, hcons, hcons, ih, max_assoc]

/-- Every packet received lies in front of the frontier. -/
lemma seqno_lt_frontier {ds : List TxPacket} {x : TxPacket} (hx : x ∈ ds) :
    x.hdr.seqno < frontier ds := by
  induction ds using List.reverseRecOn with
  | nil => cases hx
  | append_singleton ds y ih =>
    rw [frontier_concat]
    rcases List.mem_append.mp hx with hx | hx
    · exact lt_max_of_lt_left (ih hx)
    · rw [List.mem_singleton.mp hx]
      exact lt_max_of_lt_right (Nat.lt_succ_self _)

/-- The frontier lies behind a packet received. -/
lemma exists_frontier {ds : List TxPacket} (h : ds ≠ []) :
    ∃ x ∈ ds, frontier ds = x.hdr.seqno + 1 := by
  induction ds using List.reverseRecOn with
  | nil => exact absurd rfl h
  | append_singleton ds y ih =>
    rw [frontier_concat]
    rcases max_choice (frontier ds) (y.hdr.seqno + 1) with hmax | hmax
    · have hne : ds ≠ [] := by
        rintro rfl
        simp at hmax
      obtain ⟨x, hx, hf⟩ := ih hne
      exact ⟨x, List.mem_append_left _ hx, hmax.trans hf⟩
    · exact ⟨y, by simp, hmax⟩

/-- No source block is current before a packet is received. -/
@[simp] lemma curBlock_nil (P : RqParams) : curBlock P [] = -1 := by
  have := P.nval_range.1
  rw [curBlock, frontier_nil]
  exact Int.ediv_eq_neg_one_of_neg_of_le (by norm_num) (by omega)

/-- The source block of the packet in front of the frontier. -/
lemma curBlock_of_frontier {P : RqParams} {ds : List TxPacket} {q : ℕ} (h : frontier ds = q + 1) :
    curBlock P ds = (q / P.nval : ℕ) := by
  rw [curBlock, h]
  push_cast
  rw [add_sub_cancel_right]

/-- One more packet may advance the current source block. -/
lemma curBlock_concat (P : RqParams) (ds : List TxPacket) (x : TxPacket) :
    curBlock P (ds ++ [x]) = max (curBlock P ds) (x.block P) := by
  have hmono : Monotone fun m : ℤ => (m - 1) / (P.nval : ℤ) :=
    fun a b hab => Int.ediv_le_ediv (by exact_mod_cast P.nval_range.1) (by omega)
  have hx : (x.block P : ℤ) = (((x.hdr.seqno + 1 : ℕ) : ℤ) - 1) / (P.nval : ℤ) := by
    rw [TxPacket.block]
    push_cast
    rw [add_sub_cancel_right]
  rw [curBlock, frontier_concat, Nat.cast_max, hx, curBlock]
  exact hmono.map_max

/-- Every packet received belongs to the current source block or an earlier one. -/
lemma block_le_curBlock {P : RqParams} {ds : List TxPacket} {x : TxPacket} (hx : x ∈ ds) :
    (x.block P : ℤ) ≤ curBlock P ds := by
  induction ds using List.reverseRecOn with
  | nil => cases hx
  | append_singleton ds y ih =>
    rw [curBlock_concat]
    rcases List.mem_append.mp hx with hx | hx
    · exact le_max_of_le_left (ih hx)
    · rw [List.mem_singleton.mp hx]
      exact le_max_right _ _

/-- Nothing was received for the source blocks behind the current one. -/
lemma blockPackets_eq_nil {P : RqParams} {ds : List TxPacket} {b : ℕ} (h : curBlock P ds < b) :
    blockPackets P ds b = [] := by
  refine List.filter_eq_nil_iff.mpr fun x hx hb => ?_
  have := block_le_curBlock (P := P) hx
  simp only [decide_eq_true_eq] at hb
  omega

/-- A packet is counted in its own source block. -/
lemma blockPackets_concat_self (P : RqParams) (ds : List TxPacket) (x : TxPacket) :
    blockPackets P (ds ++ [x]) (x.block P) = blockPackets P ds (x.block P) ++ [x] := by
  simp [blockPackets, List.filter_append]

/-- A packet is not counted in other source blocks. -/
lemma blockPackets_concat_of_ne {P : RqParams} (ds : List TxPacket) {x : TxPacket} {b : ℕ}
    (h : x.block P ≠ b) : blockPackets P (ds ++ [x]) b = blockPackets P ds b := by
  simp [blockPackets, List.filter_append, h]

/-! ### Packets of an encoder run -/

section Sent

variable {P : RqParams} {pkts : List TxPacket}

/-- The header of a packet of an encoder run is well-formed. -/
lemma HeaderAt.wf {p : ℕ} {hdr : RqHeader} (h : HeaderAt P n pkts p hdr)
    (hn : n ≤ RqDecoder.txSlotCount) (hN : P.nval < 2 ^ 31) : hdr.Wf := by
  have hpos := P.nval_range.1
  have hn : n ≤ 8 := hn
  constructor
  · rw [h.seqno]
    have : p % (P.nval * 2 ^ 32) < P.nval * 2 ^ 32 := Nat.mod_lt _ (by omega)
    omega
  · by_cases hk : p % P.nval < P.kval
    · obtain ⟨i, hi⟩ := h.source hk
      omega
    · rw [h.repair (not_lt.mp hk)]
      norm_num
  · intro c hc
    rw [h.iseq] at hc
    obtain ⟨i, rfl⟩ := List.mem_ofFn.mp hc
    have := lt_of_sum_eq hN (Nat.mod_lt _ hpos) h.sum i
    omega
  · rw [h.iseq, List.length_ofFn]
    omega

/-- The bytes of a packet of an encoder run are parsed back into its header. -/
lemma HeaderAt.peek_bytes {p : ℕ} {x : TxPacket} (h : HeaderAt P n pkts p x.hdr)
    (hn : n ≤ RqDecoder.txSlotCount) (hN : P.nval < 2 ^ 31) :
    RqHeader.peek x.bytes =
      some (x.hdr, RqHeader.minSerializedSize + 4 * x.hdr.iseqData.length) := by
  have hhdr : ({ x.hdr with valid := true } : RqHeader) = x.hdr := by
    rw [← h.valid]
  rw [RqHeader.peek, TxPacket.bytes, RqHeader.deserialize_serialize (h.wf hn hN), hhdr]

/-- The decoder works on the header of a packet of an encoder run. -/
lemma HeaderAt.receive_bytes {p : ℕ} {x : TxPacket} (h : HeaderAt P n pkts p x.hdr)
    (hn : n ≤ RqDecoder.txSlotCount) (hN : P.nval < 2 ^ 31) (d : RqDecoder n) :
    RqDecoder.receive P d x.bytes =
      (RqDecoder.decode P d x.hdr).map fun r => (r.1, .rxTrace x.bytes :: r.2) := by
  rw [RqDecoder.receive, h.peek_bytes hn hN]
  have hsize : ¬(RqHeader.minSerializedSize + 4 * x.hdr.iseqData.length <
      RqHeader.minSerializedSize ∨ x.hdr.valid = false) := by
    rw [h.valid]
    simp
  exact if_neg hsize

/-- The packets of a run in which every sequence number fits into an `int`. -/
structure Regime (P : RqParams) (n : ℕ) (pkts : List TxPacket) : Prop where
  /-- The packets are those of an encoder run. -/
  stream : EncodedStream P n pkts
  /-- The slots fit into the slot array. -/
  slots : n ≤ RqDecoder.txSlotCount
  /-- `Nval` fits into an `int`. -/
  nval : P.nval < 2 ^ 31
  /-- All sequence numbers fit into an `int`. -/
  length : pkts.length ≤ 2 ^ 31

/-- The runs of an encoder. -/
theorem regime_sent [NeZero n] (hn : n ≤ RqDecoder.txSlotCount) (hN : P.nval < 2 ^ 31)
    {calls : List (SendCall n)} (hlen : (RqEncoder.sent P calls).length ≤ 2 ^ 31) :
    Regime P n (RqEncoder.sent P calls) :=
  ⟨encodedStream_sent hN calls, hn, hN, hlen⟩

/-- The packets of a run that are delivered while the sequence numbers fit into an `int`: up to the
wrap of the block counter they are among the first `2 ^ 31` ones, whatever is sent after them. -/
theorem regime_early [NeZero n] (hn : n ≤ RqDecoder.txSlotCount) (hN : P.nval < 2 ^ 31)
    (calls : List (SendCall n)) : Regime P n ((RqEncoder.sent P calls).take (2 ^ 31)) :=
  ⟨(encodedStream_sent hN calls).take _, hn, hN, List.length_take_le _ _⟩

/-- A packet with a small sequence number is one of the first packets. -/
lemma EncodedStream.mem_take (h : EncodedStream P n pkts) (hwrap : pkts.length ≤ P.nval * 2 ^ 32)
    {x : TxPacket} (hx : x ∈ pkts) (hseq : x.hdr.seqno < 2 ^ 31) : x ∈ pkts.take (2 ^ 31) := by
  rw [← h.filter_seqno hwrap]
  exact List.mem_filter.mpr ⟨hx, decide_eq_true hseq⟩

/-- Packets with small sequence numbers, in order, are some of the first packets. -/
lemma EncodedStream.sublist_take (h : EncodedStream P n pkts)
    (hwrap : pkts.length ≤ P.nval * 2 ^ 32) {ds : List TxPacket} (hds : ds.Sublist pkts)
    (hseq : ∀ x ∈ ds, x.hdr.seqno < 2 ^ 31) : ds.Sublist (pkts.take (2 ^ 31)) := by
  rw [← h.filter_seqno hwrap, ← List.filter_eq_self.mpr fun x hx => decide_eq_true (hseq x hx)]
  exact hds.filter _

namespace Regime

variable (R : Regime P n pkts)

include R

/-- The block counter of the encoder does not wrap around. -/
lemma length_le_wrap : pkts.length ≤ P.nval * 2 ^ 32 := by
  have := R.length
  have := P.nval_range.1
  omega

/-- The sequence number of a packet is its number in the run. -/
lemma seqno_getElem {p : ℕ} (hp : p < pkts.length) : pkts[p].hdr.seqno = p :=
  R.stream.seqno_getElem R.length_le_wrap hp

/-- The sequence number of a packet is below the length of the run. -/
lemma seqno_lt {x : TxPacket} (hx : x ∈ pkts) : x.hdr.seqno < pkts.length := by
  obtain ⟨p, hp, rfl⟩ := List.mem_iff_getElem.mp hx
  rw [R.seqno_getElem hp]
  exact hp

/-- A packet is the one its sequence number names. -/
lemma getElem_seqno {x : TxPacket} (hx : x ∈ pkts) : pkts[x.hdr.seqno]? = some x := by
  obtain ⟨p, hp, rfl⟩ := List.mem_iff_getElem.mp hx
  rw [R.seqno_getElem hp, List.getElem?_eq_getElem hp]

/-- Packets are determined by their sequence numbers. -/
lemma seqno_inj {x y : TxPacket} (hx : x ∈ pkts) (hy : y ∈ pkts)
    (h : x.hdr.seqno = y.hdr.seqno) : x = y := by
  have hx' := R.getElem_seqno hx
  rw [h, R.getElem_seqno hy] at hx'
  exact (Option.some.inj hx').symm

/-- The header of a packet. -/
lemma headerAt {x : TxPacket} (hx : x ∈ pkts) : HeaderAt P n pkts x.hdr.seqno x.hdr := by
  obtain ⟨hlt, hget⟩ := List.getElem?_eq_some_iff.mp (R.getElem_seqno hx)
  have h := R.stream x.hdr.seqno hlt
  rwa [hget] at h

/-- The stream id of the packet with a number. -/
lemma streamid_seqno {x : TxPacket} (hx : x ∈ pkts) :
    streamid pkts x.hdr.seqno = x.hdr.iseqStreamid := by
  rw [streamid, R.getElem_seqno hx]
  rfl

/-- The counts of a block stay below `2 ^ 31`. -/
lemma symbols_lt {x : TxPacket} (hx : x ∈ pkts) (i : Fin n) :
    symbols P pkts (x.block P) i (x.hdr.seqno + 1) < 2 ^ 31 :=
  lt_of_sum_eq R.nval (Nat.mod_lt _ P.nval_range.1) (R.headerAt hx).sum i

/-- The stream id of a packet addresses the slot of its stream, or none for a repair packet. -/
lemma exists_slot {x : TxPacket} (hx : x ∈ pkts) :
    ∃ slot : Option (Fin n), RqDecoder.addressed n x.hdr.iseqStreamid = some slot ∧
      ∀ i : Fin n, slot = some i ↔ x.hdr.iseqStreamid = (i : ℕ) := by
  have h := R.headerAt hx
  have hn : n ≤ 8 := R.slots
  by_cases hk : x.hdr.seqno % P.nval < P.kval
  · obtain ⟨i, hi⟩ := h.source hk
    have hlt := i.isLt
    refine ⟨some i, ?_, fun j => ?_⟩
    · rw [RqDecoder.addressed, if_neg (by omega), if_pos ⟨by omega, by
        rw [RqDecoder.txSlotCount]; omega⟩, dif_pos (by omega)]
      simp [hi]
    · rw [hi, Option.some.injEq, Fin.ext_iff]
      omega
  · have hi := h.repair (not_lt.mp hk)
    refine ⟨none, ?_, fun j => ?_⟩
    · rw [RqDecoder.addressed, if_pos hi]
    · simp only [reduceCtorEq, false_iff]
      omega

/-- The decoder finds the source block of a packet. -/
lemma sbidOf_seqno {x : TxPacket} (hx : x ∈ pkts) :
    RqDecoder.sbidOf P x.hdr.seqno = x.block P := by
  have hlt := R.seqno_lt hx
  have hlen := R.length
  rw [RqDecoder.sbidOf, (i32_natCast_eq_iff _).mpr (by omega), (i32_natCast_eq_iff _).mpr R.nval,
    TxPacket.block]
  rfl

/-- The counts in the header of a packet. -/
lemma iseqData_eq {x : TxPacket} (hx : x ∈ pkts) :
    x.hdr.iseqData =
      List.ofFn fun i : Fin n => (symbols P pkts (x.block P) i (x.hdr.seqno + 1) : ℤ) :=
  (R.headerAt hx).iseq

/-- The header of a packet that is read is the one that was sent. -/
lemma hdr_eq_of_peek {x : TxPacket} (hx : x ∈ pkts) {hdr : RqHeader} {size : ℕ}
    (hpeek : RqHeader.peek x.bytes = some (hdr, size)) : x.hdr = hdr := by
  rw [(R.headerAt hx).peek_bytes R.slots R.nval] at hpeek
  exact congrArg Prod.fst (Option.some.inj hpeek)

end Regime

end Sent

/-! ### What one packet of the run can do -/

open RqDecoder

/-- Counting the packet `x` in its source block: what happens to the decoder, and which events are
produced apart from traces and the report on the block that is left. -/
structure Counted (P : RqParams) (pkts : List TxPacket) (d : RqDecoder n) (x : TxPacket)
    (d' : RqDecoder n) (evs : List (Event n)) : Prop where
  /-- The packet's block is the current one afterwards. -/
  sbid : d'.sbid = x.block P
  /-- The packet is counted. -/
  nrcv : d'.nrcv = i32 ((d.enter (x.block P)).nrcv + 1)
  /-- The counts of the header raise the symbol counts. -/
  nsymb : ∀ i, (d'.slotStates i).nsymb = max ((d.enter (x.block P)).slotStates i).nsymb
    (symbols P pkts (x.block P) i (x.hdr.seqno + 1) : ℤ)
  /-- The contiguous symbols grow by the early release. -/
  nsymbcontig : ∀ i, (d'.slotStates i).nsymbcontig =
    if x.hdr.iseqStreamid = (i : ℕ) ∧
        i32 (((d.enter (x.block P)).slotStates i).nsymbcontig + 1) = (d'.slotStates i).nsymb then
      i32 (((d.enter (x.block P)).slotStates i).nsymbcontig + 1)
    else ((d.enter (x.block P)).slotStates i).nsymbcontig
  /-- The early release and the release of the block are credited to the block. -/
  credited : ∀ b i, symbolsCredited evs b i =
    if (x.block P : ℤ) = b then
      (if x.hdr.iseqStreamid = (i : ℕ) ∧
          i32 (((d.enter (x.block P)).slotStates i).nsymbcontig + 1) = (d'.slotStates i).nsymb
        then 1 else 0) +
        if d'.nrcv = i32 P.kval then (d'.slotStates i).nsymb - (d'.slotStates i).nsymbcontig else 0
    else 0
  /-- A credit is one symbol or all that was held back. -/
  credit : ∀ b i s, Event.credit b i s ∈ evs →
    s = 1 ∨ s = (d'.slotStates i).nsymb - (d'.slotStates i).nsymbcontig
  /-- A result is reported for the block that is left or for the packet's block. -/
  decodeInfo : ∀ info, Event.decodeInfo info ∈ evs →
    (0 ≤ d.sbid ∧ d.sbid < x.block P ∧ info = populateDecodeInfo P d) ∨
      (info = populateDecodeInfo P d' ∧ d'.nrcv = i32 P.kval)
  /-- The packet is not discarded. -/
  not_discarded : Event.discarded ∉ evs

/-- The report on a block that is left credits nothing. -/
lemma not_credit_leaveBlock (P : RqParams) (d : RqDecoder n) (b : ℤ) (i : Fin n) (s : ℤ) :
    Event.credit b i s ∉ d.leaveBlock P := by
  unfold leaveBlock
  split <;> simp

/-- The source block after entering the block of a packet. -/
lemma enter_sbid {d : RqDecoder n} {b : ℤ} (h : d.sbid ≤ b) : (d.enter b).sbid = b := by
  unfold enter
  split
  · rfl
  · omega

section Receive

variable {P : RqParams} {pkts : List TxPacket} (R : Regime P n pkts) {x : TxPacket}
  (hx : x ∈ pkts) (d : RqDecoder n)

include R hx

/-- **What a packet of the run can do.** It is discarded when its source block is already processed,
and counted in its source block otherwise; the decoder never aborts on it. -/
theorem receive_cases :
    ((x.block P : ℤ) < d.sbid ∧
        receive P d x.bytes = some (d, [.rxTrace x.bytes, .discarded])) ∨
      (d.sbid ≤ x.block P ∧
        ∃ d' evs, receive P d x.bytes = some (d', evs) ∧ Counted P pkts d x d' evs) := by
  obtain ⟨slot, haddr, hslot⟩ := R.exists_slot hx
  have hcases := decode_cases P d (R.iseqData_eq hx) haddr
  rw [R.sbidOf_seqno hx] at hcases
  rcases hcases with ⟨hlt, hdec⟩ | ⟨hle, d', evs, pre, hdec, hacc, hpre⟩
  · refine Or.inl ⟨hlt, ?_⟩
    rw [(R.headerAt hx).receive_bytes R.slots R.nval, hdec]
    rfl
  · refine Or.inr ⟨hle, d', .rxTrace x.bytes :: (pre ++ evs), ?_, ?_⟩
    · rw [(R.headerAt hx).receive_bytes R.slots R.nval, hdec]
      rfl
    have hsbid : (d.enter (x.block P)).sbid = x.block P := enter_sbid hle
    have hquiet : ∀ b i s, Event.credit b i s ∉ Event.rxTrace x.bytes :: pre := by
      intro b i s hmem
      rcases List.mem_cons.mp hmem with h | h
      · cases h
      · rcases hpre with rfl | ⟨-, rfl⟩
        · cases h
        · exact not_credit_leaveBlock P d b i s h
    have hmem : ∀ e, e ∈ Event.rxTrace x.bytes :: (pre ++ evs) →
        e ∈ Event.rxTrace x.bytes :: pre ∨ e ∈ evs := by
      intro e he
      rwa [← List.cons_append, List.mem_append] at he
    have hrel : ∀ i, (d.enter (x.block P)).Releases slot
        (fun j => (symbols P pkts (x.block P) j (x.hdr.seqno + 1) : ℤ)) i ↔
        x.hdr.iseqStreamid = (i : ℕ) ∧
          i32 (((d.enter (x.block P)).slotStates i).nsymbcontig + 1) =
            (d'.slotStates i).nsymb := by
      intro i
      rw [Releases, hslot i, hacc.nsymb i]
    constructor
    · rw [hacc.sbid, hsbid]
    · exact hacc.nrcv
    · exact hacc.nsymb
    · intro i
      rw [hacc.nsymbcontig i]
      simp only [hrel]
    · intro b i
      rw [← List.cons_append, symbolsCredited_append, symbolsCredited_eq_zero hquiet, zero_add,
        hacc.credited b i, hsbid]
      simp only [hrel]
    · intro b i s hs
      rcases hmem _ hs with hs | hs
      · exact absurd hs (hquiet b i s)
      · exact hacc.credit b i s hs
    · intro info hinfo
      rcases hmem _ hinfo with hinfo | hinfo
      · rcases List.mem_cons.mp hinfo with h | h
        · cases h
        · rcases hpre with rfl | ⟨hlt, rfl⟩
          · cases h
          · unfold leaveBlock at h
            split at h
            · rename_i h0
              cases List.mem_singleton.mp h
              exact Or.inl ⟨h0, hlt, rfl⟩
            · cases h
      · exact Or.inr (hacc.decodeInfo info hinfo)
    · intro hdis
      rcases hmem _ hdis with hdis | hdis
      · rcases List.mem_cons.mp hdis with h | h
        · cases h
        · rcases hpre with rfl | ⟨-, rfl⟩
          · cases h
          · unfold leaveBlock at h
            split at h <;> simp at h
      · exact hacc.not_discarded hdis

end Receive

/-! ### Runs on packets of the encoder run -/

/-- The counters of two decoders agree: everything except the send buffers. -/
structure SameCounters (d d' : RqDecoder n) : Prop where
  /-- The source block. -/
  sbid : d'.sbid = d.sbid
  /-- The symbols received. -/
  nrcv : d'.nrcv = d.nrcv
  /-- The source symbols received. -/
  nsrcrcv : d'.nsrcrcv = d.nsrcrcv
  /-- The symbol counts. -/
  nsymb : ∀ i, (d'.slotStates i).nsymb = (d.slotStates i).nsymb
  /-- The contiguous symbols. -/
  nsymbcontig : ∀ i, (d'.slotStates i).nsymbcontig = (d.slotStates i).nsymbcontig

/-- Sending leaves the counters. -/
lemma sameCounters_tryToSend (d : RqDecoder n) (slot : Fin n) (txAvailable : Option ℕ) :
    SameCounters d (tryToSend d slot txAvailable).1 := by
  rcases txAvailable with _ | txavail
  · exact ⟨rfl, rfl, rfl, fun _ => rfl, fun _ => rfl⟩
  · simp only [tryToSend]
    split
    · exact ⟨rfl, rfl, rfl, fun _ => rfl, fun _ => rfl⟩
    · split
      · exact ⟨rfl, rfl, rfl, fun _ => rfl, fun _ => rfl⟩
      · refine ⟨rfl, rfl, rfl, fun i => ?_, fun i => ?_⟩
        all_goals
          by_cases hi : i = slot
          · subst hi
            simp
          · simp [hi]

/-- Sending produces transmissions only. -/
lemma mem_tryToSend {d : RqDecoder n} {slot : Fin n} {txAvailable : Option ℕ} {e : Event n}
    (he : e ∈ (tryToSend d slot txAvailable).2) : ∃ amount, e = .txTrace slot amount := by
  rcases txAvailable with _ | txavail
  · cases he
  · simp only [tryToSend] at he
    split at he
    · cases he
    · split at he
      · cases he
      · exact ⟨_, List.mem_singleton.mp he⟩

/-- Sending produces no credit. -/
lemma credit_notMem_tryToSend (d : RqDecoder n) (slot : Fin n) (txAvailable : Option ℕ) (b : ℤ)
    (i : Fin n) (s : ℤ) : Event.credit b i s ∉ (tryToSend d slot txAvailable).2 := by
  intro hs
  obtain ⟨amount, h⟩ := mem_tryToSend hs
  cases h

/-- Sending credits nothing. -/
@[simp] lemma symbolsCredited_tryToSend (d : RqDecoder n) (slot : Fin n) (txAvailable : Option ℕ)
    (b : ℤ) (i : Fin n) : symbolsCredited (tryToSend d slot txAvailable).2 b i = 0 :=
  symbolsCredited_eq_zero (fun sbid j symbols hmem =>
    credit_notMem_tryToSend d slot txAvailable sbid j symbols hmem) b i

/-- Reading one more packet. -/
lemma received_concat_recv (steps : List (Step n)) (pkt : Packet) :
    received (steps ++ [.recv pkt]) = received steps ++ [pkt] := by
  simp [received, List.filterMap_append, Step.packet?]

/-- Sending reads no packet. -/
lemma received_concat_tryToSend (steps : List (Step n)) (slot : Fin n)
    (txAvailable : Option ℕ) :
    received (steps ++ [.tryToSend slot txAvailable]) = received steps := by
  simp [received, List.filterMap_append, Step.packet?]

/-- Reading a packet that does not abort. -/
lemma step_of_receive {P : RqParams} {d d' : RqDecoder n} {pkt : Packet} {evs : List (Event n)}
    (h : receive P d pkt = some (d', evs)) : step P (some d) (.recv pkt) = (some d', evs) := by
  simp only [step, h]

/-- A run continued by reading a packet. -/
lemma run_concat_recv {P : RqParams} {steps : List (Step n)} {d d' : RqDecoder n} {pkt : Packet}
    {evs : List (Event n)} (h : (RqDecoder.run P steps).1 = some d)
    (hrecv : receive P d pkt = some (d', evs)) :
    RqDecoder.run P (steps ++ [.recv pkt]) =
      (some d', (RqDecoder.run P steps).2 ++ evs) := by
  rw [RqDecoder.run, Mealy.run_concat]
  change ((step P (RqDecoder.run P steps).1 _).1, _ ++ (step P (RqDecoder.run P steps).1 _).2) = _
  rw [h]
  simp only [step, hrecv]
  rfl

/-- A run continued by sending. -/
lemma run_concat_tryToSend {P : RqParams} {steps : List (Step n)} {d : RqDecoder n}
    (h : (RqDecoder.run P steps).1 = some d) (slot : Fin n) (txAvailable : Option ℕ) :
    RqDecoder.run P (steps ++ [.tryToSend slot txAvailable]) =
      (some (tryToSend d slot txAvailable).1,
        (RqDecoder.run P steps).2 ++ (tryToSend d slot txAvailable).2) := by
  rw [RqDecoder.run, Mealy.run_concat]
  change ((step P (RqDecoder.run P steps).1 _).1, _ ++ (step P (RqDecoder.run P steps).1 _).2) = _
  rw [h]
  rfl

/-- The last step of a run that does not abort. -/
lemma run_concat_eq_some {P : RqParams} {steps : List (Step n)} {s : Step n} {d' : RqDecoder n}
    {evs : List (Event n)} (h : RqDecoder.run P (steps ++ [s]) = (some d', evs)) :
    ∃ d evs₀ evs₁, RqDecoder.run P steps = (some d, evs₀) ∧ step P (some d) s = (some d', evs₁) ∧
      evs = evs₀ ++ evs₁ := by
  rw [RqDecoder.run, Mealy.run_concat, ← RqDecoder.run] at h
  generalize RqDecoder.run P steps = r at h ⊢
  obtain ⟨o, evs₀⟩ := r
  obtain ⟨hstate, rfl⟩ := Prod.mk.inj h
  cases o with
  | none => cases s <;> cases hstate
  | some d => exact ⟨d, evs₀, _, rfl, Prod.ext hstate rfl, rfl⟩

/-- The step of a run that reads a packet in its turn. -/
lemma exists_before_of_prefix {steps : List (Step n)} {ds pre : List TxPacket} {x : TxPacket}
    (hsteps : received steps = ds.map TxPacket.bytes) (h : pre ++ [x] <+: ds) :
    ∃ before, before ++ [.recv x.bytes] <+: steps ∧ received before = pre.map TxPacket.bytes := by
  obtain ⟨post, rfl⟩ := h
  rw [List.append_assoc, List.map_append, received, List.filterMap_eq_append_iff] at hsteps
  obtain ⟨done, todo, rfl, hdone, htodo⟩ := hsteps
  obtain ⟨sends, s, rest, rfl, hsends, hs, -⟩ := List.filterMap_eq_cons_iff.mp htodo
  have hrecv : s = .recv x.bytes := by
    cases s with
    | recv pkt => exact congrArg _ (Option.some.inj hs)
    | tryToSend slot txAvailable => cases hs
  subst hrecv
  refine ⟨done ++ sends, ⟨rest, by simp⟩, ?_⟩
  rw [received, List.filterMap_append, hdone, List.filterMap_eq_nil_iff.mpr hsends,
    List.append_nil]

/-- A run that reads one packet more reads the last packet then. -/
lemma exists_of_received_concat_recv {steps : List (Step n)} {pkt : Packet} {ds : List TxPacket}
    (h : received (steps ++ [.recv pkt]) = ds.map TxPacket.bytes) :
    ∃ pre x, ds = pre ++ [x] ∧ received steps = pre.map TxPacket.bytes ∧ x.bytes = pkt := by
  rw [received_concat_recv] at h
  obtain ⟨pre, last, rfl, hpre, hlast⟩ := List.map_eq_append_iff.mp h.symm
  obtain ⟨x, rfl, hx⟩ := List.map_eq_singleton_iff.mp hlast
  exact ⟨pre, x, rfl, hpre.symm, hx⟩

/-- **The induction rule for deliveries.** What holds at the start, survives every packet of `ds` in
its turn and survives sending holds at the end of every run that reads the packets `ds`. -/
theorem run_delivery {P : RqParams} {ds : List TxPacket} {steps : List (Step n)}
    {I : List TxPacket → RqDecoder n → List (Event n) → Prop}
    (hsteps : received steps = ds.map TxPacket.bytes) (init : I [] (RqDecoder.init n) [])
    (recv : ∀ before pre x d evs, before ++ [.recv x.bytes] <+: steps → pre ++ [x] <+: ds →
      (RqDecoder.run P before).1 = some d → I pre d evs →
      ∃ d' evs', receive P d x.bytes = some (d', evs') ∧ I (pre ++ [x]) d' (evs ++ evs'))
    (send : ∀ pre d evs slot txAvailable, I pre d evs →
      I pre (tryToSend d slot txAvailable).1 (evs ++ (tryToSend d slot txAvailable).2)) :
    ∃ d, (RqDecoder.run P steps).1 = some d ∧ I ds d (RqDecoder.run P steps).2 := by
  suffices h : ∀ done pre, done <+: steps → pre <+: ds → received done = pre.map TxPacket.bytes →
      ∃ d, (RqDecoder.run P done).1 = some d ∧ I pre d (RqDecoder.run P done).2 from
    h steps ds List.prefix_rfl List.prefix_rfl hsteps
  clear hsteps
  intro done
  induction done using List.reverseRecOn with
  | nil =>
    intro pre _ _ hpre
    have : pre = [] := List.map_eq_nil_iff.mp hpre.symm
    subst this
    exact ⟨_, rfl, init⟩
  | append_singleton done s ih =>
    intro pre hdone hds hpre
    have hdone' : done <+: steps := (List.prefix_append done [s]).trans hdone
    cases s with
    | recv pkt =>
      obtain ⟨ds', y, rfl, hds', rfl⟩ := exists_of_received_concat_recv hpre
      obtain ⟨d, hd, hI⟩ := ih ds' hdone' ((List.prefix_append ds' [y]).trans hds) hds'
      obtain ⟨d', evs', hrecv, hI'⟩ := recv done ds' y d _ hdone hds hd hI
      rw [run_concat_recv hd hrecv]
      exact ⟨d', rfl, hI'⟩
    | tryToSend slot txAvailable =>
      rw [received_concat_tryToSend] at hpre
      obtain ⟨d, hd, hI⟩ := ih pre hdone' hds hpre
      rw [run_concat_tryToSend hd]
      exact ⟨_, rfl, send pre d _ slot txAvailable hI⟩

/-! ### What the counters say about the packets received -/

/-- The counters of a decoder that has received the packets `ds` of the run `pkts`. -/
structure Tracks (P : RqParams) (pkts ds : List TxPacket) (d : RqDecoder n) : Prop where
  /-- The current source block is that of the highest sequence number. -/
  sbid : d.sbid = curBlock P ds
  /-- Without a current block nothing is counted. -/
  idle : d.sbid < 0 → d.nrcv = 0
  /-- The packets of the current block are counted. -/
  nrcv : ∀ b : ℕ, d.sbid = b → d.nrcv = i32 (blockPackets P ds b).length
  /-- The symbol counts are those in front of the frontier. -/
  nsymb : ∀ b : ℕ, d.sbid = b → ∀ i, (d.slotStates i).nsymb = symbols P pkts b i (frontier ds)
  /-- No symbol count exceeds the range of its type. -/
  nsymb_lt : ∀ i, (d.slotStates i).nsymb < 2 ^ 31
  /-- At most the symbols counted are contiguous. -/
  nsymbcontig : ∀ i, 0 ≤ (d.slotStates i).nsymbcontig ∧
    (d.slotStates i).nsymbcontig ≤ (d.slotStates i).nsymb

/-- The constructed decoder has received nothing. -/
lemma tracks_init (P : RqParams) (pkts : List TxPacket) : Tracks P pkts [] (RqDecoder.init n) where
  sbid := (curBlock_nil P).symm
  idle := fun _ => rfl
  nrcv := fun b hb => by simp only [RqDecoder.init] at hb; omega
  nsymb := fun b hb => by simp only [RqDecoder.init] at hb; omega
  nsymb_lt := fun i => by simp [RqDecoder.init]
  nsymbcontig := fun i => by simp [RqDecoder.init]

/-- Only the counters matter. -/
lemma Tracks.congr {P : RqParams} {pkts ds : List TxPacket} {d d' : RqDecoder n}
    (h : Tracks P pkts ds d) (hd : SameCounters d d') : Tracks P pkts ds d' where
  sbid := hd.sbid.trans h.sbid
  idle := fun hneg => by rw [hd.nrcv, h.idle (hd.sbid ▸ hneg)]
  nrcv := fun b hb => by rw [hd.nrcv, h.nrcv b (hd.sbid ▸ hb)]
  nsymb := fun b hb i => by rw [hd.nsymb, h.nsymb b (hd.sbid ▸ hb)]
  nsymb_lt := fun i => by rw [hd.nsymb]; exact h.nsymb_lt i
  nsymbcontig := fun i => by rw [hd.nsymb, hd.nsymbcontig]; exact h.nsymbcontig i

section Enter

variable {P : RqParams} {pkts ds : List TxPacket} {d : RqDecoder n} (h : Tracks P pkts ds d)
  {b : ℕ} (hle : d.sbid ≤ b)

include h hle

/-- The packets counted after entering a block. -/
lemma Tracks.enter_nrcv : (d.enter b).nrcv = i32 (blockPackets P ds b).length := by
  rcases hle.lt_or_eq with hlt | heq
  · rw [enter, if_pos hlt, blockPackets_eq_nil (h.sbid ▸ hlt)]
    exact (i32_of_range (x := 0) (by norm_num) (by norm_num)).symm
  · rw [enter, if_neg heq.not_lt]
    exact h.nrcv b heq

/-- The symbol counts after entering a block. -/
lemma Tracks.enter_nsymb (i : Fin n) :
    ((d.enter b).slotStates i).nsymb = symbols P pkts b i (frontier ds) := by
  rcases hle.lt_or_eq with hlt | heq
  · have hle : frontier ds ≤ P.nval * b := by
      have hpos : 0 < (P.nval : ℤ) := by exact_mod_cast P.nval_range.1
      have hc := h.sbid ▸ hlt
      rw [curBlock, Int.ediv_lt_iff_lt_mul hpos, Int.sub_one_lt_iff] at hc
      rw [Nat.mul_comm]
      exact_mod_cast hc
    rw [enter, if_pos hlt, symbols, BlockCount.count_eq_zero P.nval_range.1 hle]
    rfl
  · rw [enter, if_neg heq.not_lt]
    exact h.nsymb b heq i

/-- The contiguous symbols after entering a block. -/
lemma Tracks.enter_nsymbcontig (i : Fin n) :
    0 ≤ ((d.enter b).slotStates i).nsymbcontig ∧
      ((d.enter b).slotStates i).nsymbcontig ≤ ((d.enter b).slotStates i).nsymb := by
  rcases hle.lt_or_eq with hlt | heq
  · rw [enter, if_pos hlt]
    exact ⟨le_rfl, le_rfl⟩
  · rw [enter, if_neg heq.not_lt]
    exact h.nsymbcontig i

end Enter

section TracksStep

variable {P : RqParams} {pkts ds : List TxPacket} {d : RqDecoder n} (R : Regime P n pkts)
  (h : Tracks P pkts ds d) {x : TxPacket} (hx : x ∈ pkts)

include h

/-- A discarded packet is accounted for by what is already counted. -/
lemma Tracks.discard (hlt : (x.block P : ℤ) < d.sbid) : Tracks P pkts (ds ++ [x]) d := by
  have hcur : curBlock P (ds ++ [x]) = curBlock P ds := by
    rw [curBlock_concat, max_eq_left (h.sbid ▸ hlt).le]
  have hfront : frontier (ds ++ [x]) = frontier ds := by
    rw [frontier_concat, max_eq_left]
    by_contra hgt
    have hf : frontier (ds ++ [x]) = x.hdr.seqno + 1 := by
      rw [frontier_concat, max_eq_right (not_le.mp hgt).le]
    rw [curBlock_of_frontier hf, ← h.sbid] at hcur
    exact absurd hcur hlt.ne
  constructor
  · rw [hcur, h.sbid]
  · exact h.idle
  · intro b hb
    rw [h.nrcv b hb, blockPackets_concat_of_ne]
    omega
  · intro b hb i
    rw [h.nsymb b hb i, hfront]
  · exact h.nsymb_lt
  · exact h.nsymbcontig

variable {d' : RqDecoder n} {evs : List (Event n)} (hle : d.sbid ≤ x.block P)
  (hC : Counted P pkts d x d' evs)

include hle hC

/-- The symbol counts after a packet. -/
lemma Tracks.count_nsymb (i : Fin n) :
    (d'.slotStates i).nsymb = symbols P pkts (x.block P) i (frontier (ds ++ [x])) := by
  have hmono : Monotone fun m => symbols P pkts (x.block P) i m :=
    fun a b hab => BlockCount.count_mono _ _ hab
  rw [hC.nsymb i, h.enter_nsymb hle i, frontier_concat, ← Nat.cast_max]
  exact congrArg Nat.cast (hmono.map_max).symm

include R hx

omit hle in
/-- The symbol counts after a packet fit into an `int`. -/
lemma Tracks.count_nsymb_lt (i : Fin n) : (d'.slotStates i).nsymb < 2 ^ 31 := by
  rw [hC.nsymb i, max_lt_iff]
  refine ⟨?_, by exact_mod_cast R.symbols_lt hx i⟩
  unfold enter
  split
  · exact show (0 : ℤ) < 2 ^ 31 by norm_num
  · exact h.nsymb_lt i

/-- The contiguity test without overflow. -/
lemma Tracks.count_release_iff (i : Fin n) :
    i32 (((d.enter (x.block P)).slotStates i).nsymbcontig + 1) = (d'.slotStates i).nsymb ↔
      ((d.enter (x.block P)).slotStates i).nsymbcontig + 1 = (d'.slotStates i).nsymb := by
  obtain ⟨h0, hc⟩ := h.enter_nsymbcontig hle i
  refine i32_succ_eq_iff h0 (hc.trans ?_) (h.count_nsymb_lt R hx hC i)
  rw [hC.nsymb i]
  exact le_max_left _ _

/-- The contiguous symbols after a packet. -/
lemma Tracks.count_nsymbcontig (i : Fin n) :
    (d'.slotStates i).nsymbcontig = ((d.enter (x.block P)).slotStates i).nsymbcontig +
      if x.hdr.iseqStreamid = (i : ℕ) ∧
        ((d.enter (x.block P)).slotStates i).nsymbcontig + 1 = (d'.slotStates i).nsymb
      then 1 else 0 := by
  have hiff := h.count_release_iff R hx hle hC i
  rw [hC.nsymbcontig i]
  by_cases hrel : x.hdr.iseqStreamid = (i : ℕ) ∧
      ((d.enter (x.block P)).slotStates i).nsymbcontig + 1 = (d'.slotStates i).nsymb
  · rw [if_pos ⟨hrel.1, hiff.mpr hrel.2⟩, if_pos hrel, hiff.mpr hrel.2, hrel.2]
  · rw [if_neg fun hc => hrel ⟨hc.1, hiff.mp hc.2⟩, if_neg hrel, add_zero]

/-- The credits of a packet. -/
lemma Tracks.count_credited (b : ℤ) (i : Fin n) :
    symbolsCredited evs b i =
      if (x.block P : ℤ) = b then
        (d'.slotStates i).nsymbcontig - ((d.enter (x.block P)).slotStates i).nsymbcontig +
          if d'.nrcv = i32 P.kval then (d'.slotStates i).nsymb - (d'.slotStates i).nsymbcontig
          else 0
      else 0 := by
  rw [hC.credited b i, h.count_nsymbcontig R hx hle hC i, add_sub_cancel_left]
  simp only [h.count_release_iff R hx hle hC i]

/-- A counted packet is accounted for. -/
lemma Tracks.count : Tracks P pkts (ds ++ [x]) d' := by
  have hblock : ∀ b : ℕ, d'.sbid = b → x.block P = b := by
    intro b hb
    rw [hC.sbid] at hb
    exact_mod_cast hb
  constructor
  · rw [hC.sbid, curBlock_concat, max_eq_right (h.sbid ▸ hle)]
  · intro hneg
    have := hC.sbid
    omega
  · intro b hb
    obtain rfl := hblock b hb
    rw [hC.nrcv, h.enter_nrcv hle, blockPackets_concat_self, List.length_append,
      List.length_singleton]
    push_cast
    exact i32_add_i32 _ 1
  · intro b hb i
    obtain rfl := hblock b hb
    exact h.count_nsymb hle hC i
  · exact h.count_nsymb_lt R hx hC
  · intro i
    obtain ⟨h0, hc⟩ := h.enter_nsymbcontig hle i
    have hsymb : ((d.enter (x.block P)).slotStates i).nsymb ≤ (d'.slotStates i).nsymb := by
      rw [hC.nsymb i]
      exact le_max_left _ _
    rw [h.count_nsymbcontig R hx hle hC i]
    split <;> omega

end TracksStep

/-- **One packet keeps the counters in step with the packets received.** -/
theorem Tracks.receive {P : RqParams} {pkts ds : List TxPacket} {d : RqDecoder n}
    (h : Tracks P pkts ds d) (R : Regime P n pkts) {x : TxPacket} (hx : x ∈ pkts) :
    ∃ d' evs, RqDecoder.receive P d x.bytes = some (d', evs) ∧ Tracks P pkts (ds ++ [x]) d' := by
  rcases receive_cases R hx d with ⟨hlt, hrecv⟩ | ⟨hle, d', evs, hrecv, hC⟩
  · exact ⟨d, _, hrecv, h.discard hlt⟩
  · exact ⟨d', evs, hrecv, h.count R hx hle hC⟩

/-- **Every run on packets of the encoder run keeps the counters in step.** In particular the
decoder never aborts on them. -/
theorem tracks_run {P : RqParams} {pkts ds : List TxPacket} (R : Regime P n pkts)
    (hds : ∀ x ∈ ds, x ∈ pkts) {steps : List (Step n)}
    (hsteps : received steps = ds.map TxPacket.bytes) :
    ∃ d, (RqDecoder.run P steps).1 = some d ∧ Tracks P pkts ds d := by
  refine run_delivery (I := fun pre d _ => Tracks P pkts pre d) hsteps (tracks_init P pkts) ?_ ?_
  · intro before pre x d _ _ hpre _ h
    exact h.receive R (hds x (hpre.subset (by simp)))
  · intro pre d _ slot txAvailable h
    exact h.congr (sameCounters_tryToSend d slot txAvailable)

end MeshSim
