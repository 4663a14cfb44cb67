import MeshSim.Rq.Credits

/-!
# Delivery over an in-order lossy channel

When the packets received are a sublist of the packets sent, the contiguous symbols of a stream are
the longest prefix of its source packets that was received: a source packet passes the contiguity
test exactly when everything in front of it in its stream and block has been received.  Nothing is
released late, because behind the decode moment a block has repair packets only.  `Exact` is the
resulting invariant, with the credits of every block in closed form.
-/

namespace MeshSim

open MachineInt RqDecoder

variable {n : ℕ}

/-! ### Positions of source packets -/

/-- The numbers of the source packets of a stream in a source block. -/
def sourcePositions (P : RqParams) (pkts : List TxPacket) (b : ℕ) (i : Fin n) : List ℕ :=
  BlockCount.positions P.nval (streamid pkts) b ((i : ℕ) : ℤ) pkts.length

/-- How many source packets of a stream are received in full from the start of a source block. -/
def contiguous (P : RqParams) (pkts ds : List TxPacket) (b : ℕ) (i : Fin n) : ℕ :=
  BlockCount.covered (sourcePositions P pkts b i) (ds.map fun x => x.hdr.seqno)

/-- Nothing is received of a source block behind the current one. -/
lemma contiguous_eq_zero {P : RqParams} {pkts ds : List TxPacket} {b : ℕ}
    (h : curBlock P ds < b) (i : Fin n) : contiguous P pkts ds b i = 0 := by
  refine BlockCount.covered_eq_zero fun q hq hmem => ?_
  obtain ⟨-, hblock, -⟩ := BlockCount.mem_positions.mp hq
  obtain ⟨x, hx, rfl⟩ := List.mem_map.mp hmem
  have hle := block_le_curBlock (P := P) hx
  rw [TxPacket.block, hblock] at hle
  exact absurd h (not_lt.mpr hle)

section Contiguous

variable {P : RqParams} {pkts ds : List TxPacket} {x : TxPacket} (R : Regime P n pkts)
  (hx : x ∈ pkts)

include R hx

/-- A packet of another stream or another block does not change what is received in full. -/
lemma Regime.contiguous_concat_of_ne {b : ℕ} {i : Fin n}
    (hne : ¬(x.block P = b ∧ x.hdr.iseqStreamid = (i : ℕ))) :
    contiguous P pkts (ds ++ [x]) b i = contiguous P pkts ds b i := by
  have hnot : x.hdr.seqno ∉ sourcePositions P pkts b i := by
    intro hmem
    obtain ⟨-, hblock, hsid⟩ := BlockCount.mem_positions.mp hmem
    rw [R.streamid_seqno hx] at hsid
    exact hne ⟨hblock, hsid⟩
  rw [contiguous, List.map_append, List.map_singleton,
    BlockCount.covered_concat_of_not_mem hnot, contiguous]

/-- A source packet received in order extends what is received in full exactly when it is the next
one. -/
lemma Regime.contiguous_concat {i : Fin n} (hsid : x.hdr.iseqStreamid = (i : ℕ))
    (horder : frontier ds ≤ x.hdr.seqno) :
    contiguous P pkts (ds ++ [x]) (x.block P) i =
      contiguous P pkts ds (x.block P) i +
        if contiguous P pkts ds (x.block P) i + 1 =
          symbols P pkts (x.block P) i (x.hdr.seqno + 1) then 1 else 0 := by
  have hmem : x.hdr.seqno ∈ sourcePositions P pkts (x.block P) i :=
    BlockCount.mem_positions.mpr ⟨R.seqno_lt hx, rfl, by rw [R.streamid_seqno hx, hsid]⟩
  obtain ⟨rest, hsplit, hrest⟩ := BlockCount.positions_split hmem
  have hnew : ∀ q, x.hdr.seqno ≤ q → q ∉ ds.map fun y => y.hdr.seqno := by
    intro q hq hq'
    obtain ⟨y, hy, rfl⟩ := List.mem_map.mp hq'
    have := seqno_lt_frontier hy
    omega
  have hfront : x.hdr.seqno ∉
      BlockCount.positions P.nval (streamid pkts) (x.block P) ((i : ℕ) : ℤ) x.hdr.seqno := by
    intro hlt
    exact lt_irrefl _ (BlockCount.mem_positions.mp hlt).1
  have hbehind : ∀ q ∈ rest, q ∉ (ds.map fun y => y.hdr.seqno) ++ [x.hdr.seqno] := by
    intro q hq hq'
    have hlt := hrest q hq
    rcases List.mem_append.mp hq' with h | h
    · exact hnew q hlt.le h
    · exact hlt.ne' (List.mem_singleton.mp h)
  have hcount : symbols P pkts (x.block P) i (x.hdr.seqno + 1) =
      (BlockCount.positions P.nval (streamid pkts) (x.block P) ((i : ℕ) : ℤ)
        x.hdr.seqno).length + 1 := by
    rw [symbols, BlockCount.count_succ, if_pos ⟨rfl, by rw [R.streamid_seqno hx, hsid]⟩,
      BlockCount.length_positions]
  have hcovered := BlockCount.covered_concat hfront (hnew _ le_rfl) hbehind
  rw [← hsplit] at hcovered
  have hleft : contiguous P pkts (ds ++ [x]) (x.block P) i =
      if contiguous P pkts ds (x.block P) i =
          (BlockCount.positions P.nval (streamid pkts) (x.block P) ((i : ℕ) : ℤ)
            x.hdr.seqno).length
      then (BlockCount.positions P.nval (streamid pkts) (x.block P) ((i : ℕ) : ℤ)
        x.hdr.seqno).length + 1
      else contiguous P pkts ds (x.block P) i := by
    rw [contiguous, List.map_append, List.map_singleton]
    exact hcovered
  rw [hleft, hcount]
  by_cases hnext : contiguous P pkts ds (x.block P) i =
      (BlockCount.positions P.nval (streamid pkts) (x.block P) ((i : ℕ) : ℤ) x.hdr.seqno).length
  · rw [if_pos hnext, if_pos (congrArg (· + 1) hnext), hnext]
  · rw [if_neg hnext, if_neg (by omega), add_zero]

end Contiguous

/-! ### The invariant -/

/-- A packet received in order has a higher number than those before it. -/
lemma Regime.frontier_le_seqno {P : RqParams} {pkts pre : List TxPacket} {x : TxPacket}
    (R : Regime P n pkts) (hsub : (pre ++ [x]).Sublist pkts) : frontier pre ≤ x.hdr.seqno := by
  have hsorted : ((pre ++ [x]).map fun y => y.hdr.seqno).Pairwise (· < ·) := by
    have h := hsub.map fun y => y.hdr.seqno
    rw [R.map_seqno] at h
    exact List.pairwise_lt_range.sublist h
  rcases eq_or_ne pre [] with rfl | hne
  · simp
  · obtain ⟨y, hy, hf⟩ := exists_frontier hne
    rw [List.map_append, List.pairwise_append] at hsorted
    rw [hf]
    exact hsorted.2.2 _ (List.mem_map_of_mem hy) _ (by simp)

/-- The contiguous symbols and the credits of a decoder that has received `ds` in order. -/
structure Exact (P : RqParams) (pkts ds : List TxPacket) (d : RqDecoder n)
    (evs : List (Event n)) : Prop where
  /-- The contiguous symbols are the source packets received in full. -/
  nsymbcontig : ∀ b : ℕ, d.sbid = b → ∀ i, (d.slotStates i).nsymbcontig = contiguous P pkts ds b i
  /-- The credits of every block. -/
  credited : ∀ (b : ℕ) (i : Fin n), symbolsCredited evs b i =
    if P.kval ≤ (blockPackets P ds b).length then (taken P pkts b i : ℤ)
    else contiguous P pkts ds b i

/-- The constructed decoder has credited nothing. -/
lemma exact_init (P : RqParams) (pkts : List TxPacket) :
    Exact P pkts [] (RqDecoder.init n) [] where
  nsymbcontig := fun b hb => by simp only [RqDecoder.init] at hb; omega
  credited := fun b i => by
    have hk := P.kval_range.1
    rw [if_neg (by simp [blockPackets]; omega)]
    simp [contiguous]

/-- Sending leaves the contiguous symbols and the credits. -/
lemma Exact.tryToSend {P : RqParams} {pkts ds : List TxPacket} {d : RqDecoder n}
    {evs : List (Event n)} (h : Exact P pkts ds d evs) (slot : Fin n) (txAvailable : Option ℕ) :
    Exact P pkts ds (RqDecoder.tryToSend d slot txAvailable).1
      (evs ++ (RqDecoder.tryToSend d slot txAvailable).2) := by
  have hd := sameCounters_tryToSend d slot txAvailable
  constructor
  · intro b hb i
    rw [hd.nsymbcontig, h.nsymbcontig b (hd.sbid ▸ hb) i]
  · intro b i
    rw [symbolsCredited_append, symbolsCredited_tryToSend, add_zero, h.credited b i]

section ExactStep

variable {P : RqParams} {pkts ds : List TxPacket} {x : TxPacket} {d d' : RqDecoder n}
  {evs evs' : List (Event n)} (R : Regime P n pkts) (hsub : (ds ++ [x]).Sublist pkts)
  (hK : P.kval < 2 ^ 31) (h : Tracks P pkts ds d) (hex : Exact P pkts ds d evs)

include R hsub h

/-- A packet received in order is never behind the current source block. -/
lemma Tracks.sbid_le_of_in_order : d.sbid ≤ x.block P := by
  rcases eq_or_ne ds [] with rfl | hne
  · rw [h.sbid, curBlock_nil]
    omega
  · obtain ⟨y, -, hf⟩ := exists_frontier hne
    have hle : y.hdr.seqno ≤ x.hdr.seqno := by
      have := R.frontier_le_seqno hsub
      omega
    rw [h.sbid, curBlock_of_frontier hf]
    exact_mod_cast Nat.div_le_div_right hle

include hex

/-- On entering the source block of a packet, its contiguous symbols are the source packets received
in full. -/
lemma Exact.enter_nsymbcontig (i : Fin n) :
    ((d.enter (x.block P)).slotStates i).nsymbcontig = contiguous P pkts ds (x.block P) i := by
  rcases (h.sbid_le_of_in_order R hsub).lt_or_eq with hlt | heq
  · rw [contiguous_eq_zero (h.sbid ▸ hlt), enter, if_pos hlt]
    rfl
  · rw [enter, if_neg heq.not_lt, hex.nsymbcontig _ heq i]

variable (hC : Counted P pkts d x d' evs')

include hC

/-- The contiguous symbols after a packet received in order. -/
lemma Exact.count_nsymbcontig (i : Fin n) :
    (d'.slotStates i).nsymbcontig = contiguous P pkts (ds ++ [x]) (x.block P) i := by
  have hx : x ∈ pkts := hsub.subset (by simp)
  have hle := h.sbid_le_of_in_order R hsub
  have horder := R.frontier_le_seqno hsub
  have hnsymb : (d'.slotStates i).nsymb =
      symbols P pkts (x.block P) i (x.hdr.seqno + 1) := by
    rw [h.count_nsymb hle hC i, frontier_concat, max_eq_right (Nat.le_succ_of_le horder)]
  rw [h.count_nsymbcontig R hx hle hC i, hnsymb, hex.enter_nsymbcontig R hsub h i]
  by_cases hsid : x.hdr.iseqStreamid = (i : ℕ)
  · rw [R.contiguous_concat hx hsid horder]
    push_cast
    simp only [hsid, true_and]
    norm_cast
  · rw [R.contiguous_concat_of_ne hx fun hc => hsid hc.2, if_neg fun hc => hsid hc.1, add_zero]

omit h hex hC in
/-- Behind the decode moment of its block a packet received in order is a repair packet. -/
lemma Regime.repair_of_decoded (hlen : P.kval ≤ (blockPackets P ds (x.block P)).length) :
    x.hdr.iseqStreamid = -1 := by
  have hx : x ∈ pkts := hsub.subset (by simp)
  have hds : ∀ y ∈ ds, y ∈ pkts := fun y hy => hsub.subset (List.mem_append_left _ hy)
  have hnodup : ds.Nodup := (List.nodup_append.mp (R.nodup.sublist hsub)).1
  obtain ⟨y, hy, hblock, hesi⟩ := R.exists_last_symbol hds (hnodup.filter _) hlen
  refine (R.headerAt hx).repair ?_
  have hlt := seqno_lt_frontier hy
  have horder := R.frontier_le_seqno hsub
  have h₁ := Nat.div_add_mod y.hdr.seqno P.nval
  have h₂ := Nat.div_add_mod x.hdr.seqno P.nval
  rw [TxPacket.block] at hblock
  rw [hblock, TxPacket.block] at h₁
  omega

include hK

/-- **One packet received in order keeps the credits exact.** -/
lemma Exact.count : Exact P pkts (ds ++ [x]) d' (evs ++ evs') := by
  have hx : x ∈ pkts := hsub.subset (by simp)
  have hmem : ∀ y ∈ ds ++ [x], y ∈ pkts := fun y hy => hsub.subset hy
  have hnodup := R.nodup.sublist hsub
  have hle := h.sbid_le_of_in_order R hsub
  constructor
  · intro b hb i
    rw [hC.sbid] at hb
    rw [hex.count_nsymbcontig R hsub h hC i, show x.block P = b by exact_mod_cast hb]
  · intro b i
    rw [symbolsCredited_append, hex.credited b i, h.count_credits R hmem hnodup hK hle hC]
    by_cases hb : x.block P = b
    · subst hb
      have hbefore := hex.enter_nsymbcontig R hsub h i
      have hafter := hex.count_nsymbcontig R hsub h hC i
      rw [if_pos rfl, blockPackets_concat_self, List.length_append, List.length_singleton,
        hbefore, ← hafter]
      by_cases hlen : P.kval ≤ (blockPackets P ds (x.block P)).length
      · have hsame : (d'.slotStates i).nsymbcontig = contiguous P pkts ds (x.block P) i := by
          have hrepair := R.repair_of_decoded hsub hlen
          rw [hafter, R.contiguous_concat_of_ne hx fun hc => by omega]
        rw [if_pos hlen, if_neg (by omega), if_pos (by omega), hsame]
        omega
      · rw [if_neg hlen]
        split_ifs <;> omega
    · rw [if_neg hb, add_zero, blockPackets_concat_of_ne ds hb,
        R.contiguous_concat_of_ne hx fun hc => hb hc.1]

end ExactStep

/-! ### Runs -/

/-- **Every in-order run keeps the credits exact.** -/
theorem exact_run {P : RqParams} {pkts ds : List TxPacket} (R : Regime P n pkts)
    (hsub : ds.Sublist pkts) (hK : P.kval < 2 ^ 31) {steps : List (Step n)}
    (hsteps : received steps = ds.map TxPacket.bytes) :
    ∃ d, (RqDecoder.run P steps).1 = some d ∧ Tracks P pkts ds d ∧
      Exact P pkts ds d (RqDecoder.run P steps).2 := by
  refine run_delivery (I := fun pre d evs => Tracks P pkts pre d ∧ Exact P pkts pre d evs) hsteps
    ⟨tracks_init P pkts, exact_init P pkts⟩ ?_ ?_
  · rintro before pre x d evs - hpre - ⟨h, hex⟩
    have hsub' : (pre ++ [x]).Sublist pkts := hpre.sublist.trans hsub
    have hx : x ∈ pkts := hsub'.subset (by simp)
    have hle := h.sbid_le_of_in_order R hsub'
    rcases receive_cases R hx d with ⟨hlt, -⟩ | ⟨-, d', evs', hrecv, hC⟩
    · exact absurd hlt (not_lt.mpr hle)
    · exact ⟨d', evs', hrecv, h.count R hx hle hC, hex.count R hsub' hK h hC⟩
  · rintro pre d evs slot txAvailable ⟨h, hex⟩
    exact ⟨h.congr (sameCounters_tryToSend d slot txAvailable), hex.tryToSend slot txAvailable⟩

/-- The source packets received in full are the longest prefix of the stream's source packets that
was delivered. -/
lemma Regime.contiguous_eq {P : RqParams} {pkts ds : List TxPacket} (R : Regime P n pkts)
    (hds : ∀ x ∈ ds, x ∈ pkts) (b : ℕ) (i : Fin n) :
    contiguous P pkts ds b i =
      ((sourcePackets P pkts b i).takeWhile fun x => x ∈ ds).length := by
  rw [contiguous, sourcePositions, ← R.map_seqno_sourcePackets]
  exact BlockCount.covered_map fun x hx y hy =>
    R.seqno_inj (List.mem_filter.mp hx).1 (hds y hy)

/-- The symbols credited for packets that are received in order. -/
lemma symbolsCredited_of_sublist {P : RqParams} [NeZero n] (hn : n ≤ txSlotCount)
    (hK : P.kval < 2 ^ 31) (hN : P.nval < 2 ^ 31) {calls : List (SendCall n)}
    (hlen : (RqEncoder.sent P calls).length < 2 ^ 31) {ds : List TxPacket}
    (hds : ds.Sublist (RqEncoder.sent P calls)) {steps : List (Step n)}
    (hsteps : received steps = ds.map TxPacket.bytes) (b : ℕ) (i : Fin n) :
    symbolsCredited (RqDecoder.run P steps).2 b i =
      if P.kval ≤ (blockPackets P ds b).length then
        (taken P (RqEncoder.sent P calls) b i : ℤ)
      else ((sourcePackets P (RqEncoder.sent P calls) b i).takeWhile fun x => x ∈ ds).length := by
  have R := regime_sent hn hN hlen.le
  obtain ⟨d, -, -, hex⟩ := exact_run R hds hK hsteps
  rw [hex.credited b i, R.contiguous_eq fun x hx => hds.subset hx]

/-- **Exact delivery over an in-order lossy channel.** Along every run of the decoder on packets of
an encoder run, lost but not reordered, the bytes credited to a stream for a source block are one
symbol for each source symbol that the encoder took from the stream in the block when at least
`Kval` packets of the block were delivered, and otherwise for each symbol of the longest prefix of
them that was delivered.  This holds at every moment, and so once the decoder has moved past the
block. -/
theorem symbolsCredited_in_order (P : RqParams) [NeZero n] (hn : n ≤ txSlotCount)
    (hK : P.kval < 2 ^ 31) (hN : P.nval < 2 ^ 31) (calls : List (SendCall n))
    (hlen : (RqEncoder.sent P calls).length < 2 ^ 31) {ds : List TxPacket}
    (hds : ds.Sublist (RqEncoder.sent P calls)) (steps : List (Step n))
    (hsteps : received steps = ds.map TxPacket.bytes) (b : ℕ) (i : Fin n) :
    symbolsCredited (RqDecoder.run P steps).2 b i * P.tval =
      P.tval * (if P.kval ≤ (blockPackets P ds b).length
        then taken P (RqEncoder.sent P calls) b i
        else ((sourcePackets P (RqEncoder.sent P calls) b i).takeWhile fun x => x ∈ ds).length :
          ℕ) := by
  rw [symbolsCredited_of_sublist hn hK hN hlen hds hsteps, mul_comm]
  push_cast
  rfl

/-- In-order delivery of the repair packet of a block of one source packet and one repair packet. -/
theorem symbolsCredited_in_order_repair :
    ∃ (P : RqParams) (calls : List (SendCall 1)) (steps : List (Step 1)),
      (RqEncoder.sent P calls).length = 2 ∧
      received steps = ((RqEncoder.sent P calls).drop 1).map TxPacket.bytes ∧
      symbolsCredited (RqDecoder.run P steps).2 0 0 * P.tval = 1 := by
  let P : RqParams := { kval := 1, nval := 2, tval := 1 }
  let calls := List.replicate 2 (SendCall.ready P 1)
  let ds := (RqEncoder.sent P calls).drop 1
  let steps : List (Step 1) := ds.map fun x => .recv x.bytes
  have hsteps : received steps = ds.map TxPacket.bytes := by decide +kernel
  refine ⟨P, calls, steps, by decide +kernel, hsteps, ?_⟩
  rw [← Nat.cast_zero, symbolsCredited_in_order P (by decide) (by decide) (by decide) calls
    (by decide +kernel) (List.drop_sublist 1 _) steps hsteps 0 0]
  decide +kernel

end MeshSim
