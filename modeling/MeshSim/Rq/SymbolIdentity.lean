import MeshSim.Rq.InOrder

/-!
# Symbol identity over long runs

The encoder builds a 64-bit sequence number from its unsigned 32-bit counters; the decoder reads it
into an `int` and takes it apart with signed division.  The two agree on source block and symbol id
exactly as long as the sequence number is below `2 ^ 31` (`sbidOf_esiOf_iff`).  The first packet
behind this bound reads as a negative number, hence as a packet of an already processed source block
(`discarded_of_lt`).
-/

namespace MeshSim

open MachineInt RqDecoder

variable {n : ℕ}

/-! ### Taking a sequence number apart -/

/-- The decoder recovers source block and symbol id exactly below `2 ^ 31`. -/
lemma sbidOf_esiOf_iff {P : RqParams} (hN : P.nval < 2 ^ 31) {sbid esi : ℕ} (hesi : esi < P.nval) :
    (sbidOf P (P.nval * sbid + esi) = sbid ∧ esiOf P (P.nval * sbid + esi) = esi) ↔
      P.nval * sbid + esi < 2 ^ 31 := by
  rw [sbidOf, esiOf, (i32_natCast_eq_iff P.nval).mpr hN]
  constructor
  · rintro ⟨hsbid, hesi'⟩
    have hsum := Int.mul_tdiv_add_tmod (i32 ((P.nval * sbid + esi : ℕ) : ℤ)) P.nval
    rw [hsbid, hesi'] at hsum
    apply (i32_natCast_eq_iff _).mp
    rw [← hsum]
    push_cast
    rfl
  · intro hlt
    rw [(i32_natCast_eq_iff _).mpr hlt]
    have hdiv : (P.nval * sbid + esi) / P.nval = sbid := by
      rw [Nat.mul_add_div P.nval_range.1, Nat.div_eq_of_lt hesi, Nat.add_zero]
    have hmod : (P.nval * sbid + esi) % P.nval = esi := by
      rw [Nat.mul_add_mod, Nat.mod_eq_of_lt hesi]
    constructor
    · calc (((P.nval * sbid + esi : ℕ) : ℤ)).tdiv P.nval
          = ((P.nval * sbid + esi) / P.nval : ℕ) := rfl
        _ = sbid := by rw [hdiv]
    · calc (((P.nval * sbid + esi : ℕ) : ℤ)).tmod P.nval
          = ((P.nval * sbid + esi) % P.nval : ℕ) := rfl
        _ = esi := by rw [hmod]

/-- A packet is stamped with the counters of the encoder that sends it. -/
lemma seqno_of_send {P : RqParams} {e : RqEncoder n} {pkts : List TxPacket}
    (he : Encodes P e pkts) {c : SendCall n} {x : TxPacket}
    (hx : RqEncoder.Event.send x ∈ (e.sendPacket P c).2) :
    x.hdr.seqno = P.nval * e.sbid + e.esi ∧ e.esi < P.nval := by
  have hpos : 0 < P.nval := P.nval_range.1
  have hesi : e.esi < P.nval := he.esi ▸ Nat.mod_lt _ hpos
  have hmem : x ∈ (e.sendPacket P c).2.filterMap RqEncoder.Event.sent? :=
    List.mem_filterMap.mpr ⟨_, hx, rfl⟩
  have hmod : pkts.length % (P.nval * 2 ^ 32) = P.nval * e.sbid + e.esi := by
    rw [Nat.mod_mul, he.esi, he.sbid, Nat.add_comm]
  have hlt : P.nval * e.sbid + e.esi < 2 ^ 64 := by
    have h₁ : pkts.length % (P.nval * 2 ^ 32) < P.nval * 2 ^ 32 := Nat.mod_lt _ (by omega)
    have h₂ := P.nval_range.2
    omega
  have hstamp : ∀ (e' : RqEncoder n) sid, e'.sbid = e.sbid → e'.esi = e.esi →
      (e'.nextHeader P sid).seqno = P.nval * e.sbid + e.esi := by
    intro e' sid hsbid hesi'
    rw [RqEncoder.nextHeader, hsbid, hesi']
    exact_mod_cast u64_of_lt hlt
  refine ⟨?_, hesi⟩
  rcases e.sendPacket_cases P c with hc | ⟨slot, -, -, -, hc⟩ | ⟨-, -, hc⟩
  · rw [hc] at hmem
    cases hmem
  · rw [hc, List.filterMap_cons_none rfl, RqEncoder.sent_sendCreated, List.mem_singleton] at hmem
    rw [hmem]
    exact hstamp _ _ rfl rfl
  · rw [hc, RqEncoder.sent_sendCreated, List.mem_singleton] at hmem
    rw [hmem]
    exact hstamp _ _ rfl rfl

/-! ### Loss-free in-order delivery -/

/-- While all sequence numbers fit into an `int`, nothing is discarded. -/
lemma not_discarded_of_le {P : RqParams} {pkts : List TxPacket} (R : Regime P n pkts)
    {steps : List (Step n)} (hsteps : received steps = pkts.map TxPacket.bytes) :
    Event.discarded ∉ (RqDecoder.run P steps).2 := by
  suffices h : ∃ d, (RqDecoder.run P steps).1 = some d ∧ Tracks P pkts pkts d ∧
      Event.discarded ∉ (RqDecoder.run P steps).2 from h.choose_spec.2.2
  refine run_delivery (I := fun pre d evs => Tracks P pkts pre d ∧ Event.discarded ∉ evs) hsteps
    ⟨tracks_init P pkts, List.not_mem_nil⟩ ?_ ?_
  · rintro before pre x d evs - hpre - ⟨h, hdis⟩
    have hx : x ∈ pkts := hpre.subset (by simp)
    have hle := h.sbid_le_of_in_order R hpre.sublist
    rcases receive_cases R hx d with ⟨hlt, -⟩ | ⟨-, d', evs', hrecv, hC⟩
    · exact absurd hlt (not_lt.mpr hle)
    · refine ⟨d', evs', hrecv, h.count R hx hle hC, fun hmem => ?_⟩
      rcases List.mem_append.mp hmem with hmem | hmem
      · exact hdis hmem
      · exact hC.not_discarded hmem
  · rintro pre d evs slot txAvailable ⟨h, hdis⟩
    refine ⟨h.congr (sameCounters_tryToSend d slot txAvailable), fun hmem => ?_⟩
    rcases List.mem_append.mp hmem with hmem | hmem
    · exact hdis hmem
    · obtain ⟨amount, he⟩ := mem_tryToSend hmem
      cases he

/-- **The first packet behind the range of `int` is discarded**, although nothing was lost or
reordered. -/
lemma discarded_of_lt {P : RqParams} {pkts : List TxPacket} (hstream : EncodedStream P n pkts)
    (hn : n ≤ txSlotCount) (hN : P.nval < 2 ^ 31) (hlen : 2 ^ 31 < pkts.length)
    {steps : List (Step n)} (hsteps : received steps = pkts.map TxPacket.bytes) :
    Event.discarded ∈ (RqDecoder.run P steps).2 := by
  have hpos := P.nval_range.1
  have hpre : pkts.take (2 ^ 31) ++ [pkts[2 ^ 31]] <+: pkts := by
    rw [List.take_concat_get']
    exact List.take_prefix _ _
  have hlen' : (pkts.take (2 ^ 31)).length = 2 ^ 31 :=
    (List.length_take).trans (min_eq_left hlen.le)
  have R : Regime P n (pkts.take (2 ^ 31)) := ⟨hstream.take _, hn, hN, hlen'.le⟩
  obtain ⟨before, hbefore, hrecv⟩ := exists_before_of_prefix hsteps hpre
  obtain ⟨d, hd, h⟩ := tracks_run R (fun _ hx => hx) hrecv
  have hhdr := hstream (2 ^ 31) hlen
  have hseqno : pkts[2 ^ 31].hdr.seqno = 2 ^ 31 := by
    rw [hhdr.seqno, Nat.mod_eq_of_lt (by omega)]
  have hsbid : 1 ≤ d.sbid := by
    have hlast : pkts.take (2 ^ 31) ≠ [] := by
      intro hnil
      rw [hnil] at hlen'
      exact absurd hlen' (by norm_num)
    obtain ⟨y, hy, hf⟩ := exists_frontier hlast
    have hle := R.frontier_le (fun _ hx => hx)
    have hge : 2 ^ 31 - 1 < frontier (pkts.take (2 ^ 31)) := by
      have hlast : 2 ^ 31 - 1 < (pkts.take (2 ^ 31)).length := by omega
      have hlt := seqno_lt_frontier (List.getElem_mem hlast)
      rwa [R.seqno_getElem] at hlt
    have hone : 1 ≤ y.hdr.seqno / P.nval := (Nat.one_le_div_iff hpos).mpr (by omega)
    rw [h.sbid, curBlock_of_frontier hf]
    exact_mod_cast hone
  have hneg : sbidOf P pkts[2 ^ 31].hdr.seqno < d.sbid := by
    have hint : i32 ((2 ^ 31 : ℕ) : ℤ) = -2 ^ 31 := by decide
    have hle : (i32 ((2 ^ 31 : ℕ) : ℤ)).tdiv P.nval ≤ 0 := by
      rw [hint, Int.neg_tdiv]
      have := Int.tdiv_nonneg (a := 2 ^ 31) (b := P.nval) (by norm_num) (by omega)
      omega
    rw [sbidOf, hseqno, (i32_natCast_eq_iff P.nval).mpr hN]
    omega
  have hreceive : receive P d pkts[2 ^ 31].bytes =
      some (d, [.rxTrace pkts[2 ^ 31].bytes, .discarded]) := by
    rw [hhdr.receive_bytes hn hN, decode, if_neg hneg.not_gt, if_pos hneg]
    rfl
  have hmem : Event.discarded ∈
      (RqDecoder.run P (before ++ [.recv pkts[2 ^ 31].bytes])).2 := by
    rw [run_concat_recv hd hreceive]
    simp
  exact (Mealy.run_output_prefix (step P) (some (RqDecoder.init n)) hbefore).subset hmem

/-! ### How long encoder and decoder agree -/

/-- **How long encoder and decoder agree.** In every run of the encoder, the decoder recovers the
source block and the symbol id with which a packet was stamped exactly when its sequence number is
below `2 ^ 31`.  On a loss-free in-order channel, along every run up to the wrap of the block
counter, the decoder discards no packet exactly when the run has at most `2 ^ 31` packets. -/
theorem symbol_identity_iff (P : RqParams) [NeZero n] (hn : n ≤ txSlotCount)
    (hN : P.nval < 2 ^ 31) (calls : List (SendCall n)) :
    (∀ (c : SendCall n) (x : TxPacket),
      RqEncoder.Event.send x ∈ (RqEncoder.sendPacket P (RqEncoder.run P calls).1 c).2 →
      ((sbidOf P x.hdr.seqno = (RqEncoder.run P calls).1.sbid ∧
        esiOf P x.hdr.seqno = (RqEncoder.run P calls).1.esi) ↔
        P.nval * (RqEncoder.run P calls).1.sbid + (RqEncoder.run P calls).1.esi < 2 ^ 31)) ∧
    ((RqEncoder.sent P calls).length ≤ P.nval * 2 ^ 32 → ∀ steps : List (Step n),
      received steps = (RqEncoder.sent P calls).map TxPacket.bytes →
      (Event.discarded ∉ (RqDecoder.run P steps).2 ↔
        (RqEncoder.sent P calls).length ≤ 2 ^ 31)) := by
  constructor
  · intro c x hx
    obtain ⟨hseqno, hesi⟩ := seqno_of_send (encodes_run hN calls) hx
    rw [hseqno]
    exact sbidOf_esiOf_iff hN hesi
  · intro _ steps hsteps
    constructor
    · intro hdis
      by_contra hlt
      exact hdis (discarded_of_lt (encodedStream_sent hN calls) hn hN (not_le.mp hlt) hsteps)
    · intro hle
      exact not_discarded_of_le (regime_sent hn hN hle) hsteps

/-- The packet after a block of two source packets and one repair packet, with which the decoder
leaves a block that it has decoded. -/
theorem symbol_identity_iff_block :
    ∃ (P : RqParams) (calls : List (SendCall 2)) (c : SendCall 2) (x : TxPacket)
      (steps : List (Step 2)),
      RqEncoder.Event.send x ∈ (RqEncoder.sendPacket P (RqEncoder.run P calls).1 c).2 ∧
      (RqEncoder.run P calls).1.sbid = 1 ∧
      (sbidOf P x.hdr.seqno = (RqEncoder.run P calls).1.sbid ∧
        esiOf P x.hdr.seqno = (RqEncoder.run P calls).1.esi) ∧
      received steps = (RqEncoder.sent P (calls ++ [c])).map TxPacket.bytes ∧
      Event.discarded ∉ (RqDecoder.run P steps).2 := by
  let P : RqParams := { kval := 2, nval := 3, tval := 1 }
  let c := SendCall.ready P 2
  let calls := List.replicate 3 c
  let steps : List (Step 2) := (RqEncoder.sent P (calls ++ [c])).map fun x => .recv x.bytes
  have hsteps : received steps = (RqEncoder.sent P (calls ++ [c])).map TxPacket.bytes := by
    decide +kernel
  obtain ⟨x, hx⟩ := RqEncoder.exists_send_ready P (RqEncoder.run P calls).1
  exact ⟨P, calls, c, x, steps, hx, by decide +kernel,
    ((symbol_identity_iff P (by decide) (by decide) calls).1 c x hx).mpr (by decide +kernel),
    hsteps, ((symbol_identity_iff P (by decide) (by decide) (calls ++ [c])).2 (by decide +kernel)
      steps hsteps).mpr (by decide +kernel)⟩

/-- **After `2 ^ 31` packets the decoder discards.** With blocks of one packet and a run of
`2 ^ 31 + 1` packets, all delivered in order: the last packet is stamped with source block `2 ^ 31`,
the decoder computes another one, and discards it. -/
theorem not_symbol_identity :
    ∃ (P : RqParams) (calls : List (SendCall 1)) (c : SendCall 1) (x : TxPacket),
      (RqEncoder.sent P (calls ++ [c])).length ≤ P.nval * 2 ^ 32 ∧
      RqEncoder.Event.send x ∈ (RqEncoder.sendPacket P (RqEncoder.run P calls).1 c).2 ∧
      ¬(sbidOf P x.hdr.seqno = (RqEncoder.run P calls).1.sbid ∧
        esiOf P x.hdr.seqno = (RqEncoder.run P calls).1.esi) ∧
      ∀ steps : List (Step 1),
        received steps = (RqEncoder.sent P (calls ++ [c])).map TxPacket.bytes →
        Event.discarded ∈ (RqDecoder.run P steps).2 := by
  let P : RqParams := { kval := 1, nval := 1, tval := 1 }
  have hN : P.nval < 2 ^ 31 := by decide
  obtain ⟨calls, hcalls⟩ : ∃ calls, calls = List.replicate (2 ^ 31) (SendCall.ready P 1) := ⟨_, rfl⟩
  have hlen : (RqEncoder.sent P calls).length = 2 ^ 31 := by
    rw [hcalls]
    exact RqEncoder.length_sent_ready P _
  have hlen' : (RqEncoder.sent P (calls ++ [SendCall.ready P 1])).length = 2 ^ 31 + 1 := by
    rw [RqEncoder.sent_concat, List.length_append, hlen, RqEncoder.length_sent_sendPacket_ready]
  have he := encodes_run hN calls
  obtain ⟨x, hx⟩ := RqEncoder.exists_send_ready (n := 1) P (RqEncoder.run P calls).1
  refine ⟨P, calls, SendCall.ready P 1, x, ?_, hx, ?_, fun steps hsteps => ?_⟩
  · rw [hlen']
    decide
  · obtain ⟨hseqno, hesi⟩ := seqno_of_send he hx
    rw [hseqno, sbidOf_esiOf_iff hN hesi, he.sbid, he.esi, hlen]
    decide
  · exact discarded_of_lt (encodedStream_sent hN _) (by decide) hN (by rw [hlen']; norm_num) hsteps

end MeshSim
