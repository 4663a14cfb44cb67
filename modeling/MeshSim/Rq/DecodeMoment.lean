import MeshSim.Rq.Delivery

/-!
# The decode moment

When `Kval` packets of a source block have been received, each of them once, one of them has a
symbol id of at least `Kval - 1`: the residues of their sequence numbers are distinct
(`exists_last_symbol`).  Behind such a packet the block has repair packets only, so the counts in
its header are final (`symbols_final`), and they add up to `Kval`.  `nsymb_final` carries this to
the symbol counts of the decoder, which are the counts in front of the highest sequence number
received.
-/

namespace MeshSim

open MachineInt RqDecoder

variable {n : ℕ}

/-- The source packets that the encoder took from a stream in a source block, in order. -/
def sourcePackets (P : RqParams) (pkts : List TxPacket) (b : ℕ) (i : Fin n) : List TxPacket :=
  pkts.filter fun x => x.block P = b ∧ x.hdr.iseqStreamid = ((i : ℕ) : ℤ)

/-- The number of source symbols that the encoder took from a stream in a source block. -/
def taken (P : RqParams) (pkts : List TxPacket) (b : ℕ) (i : Fin n) : ℕ :=
  (sourcePackets P pkts b i).length

namespace EncodedStream

variable {P : RqParams} {pkts ds : List TxPacket} (h : EncodedStream P n pkts)
  (hwrap : pkts.length ≤ P.nval * 2 ^ 32)

include h hwrap

/-- The sequence numbers of a run count up. -/
lemma map_seqno : pkts.map (fun x => x.hdr.seqno) = List.range pkts.length := by
  refine List.ext_getElem (by simp) fun p h₁ h₂ => ?_
  rw [List.getElem_map, List.getElem_range]
  exact h.seqno_getElem hwrap (by simpa using h₂)

/-- No packet of a run occurs twice. -/
lemma nodup : pkts.Nodup := by
  apply List.Nodup.of_map (fun x : TxPacket => x.hdr.seqno)
  rw [h.map_seqno hwrap]
  exact List.nodup_range

/-- Packets of a run, each delivered at most once. -/
lemma nodup_of_subperm (hds : ds.Subperm pkts) : ds.Nodup := by
  obtain ⟨l, hperm, hsub⟩ := hds
  exact hperm.nodup_iff.mp ((h.nodup hwrap).sublist hsub)

end EncodedStream

namespace Regime

variable {P : RqParams} {pkts ds : List TxPacket} (R : Regime P n pkts)

include R

/-- The sequence numbers of a run count up. -/
lemma map_seqno : pkts.map (fun x => x.hdr.seqno) = List.range pkts.length :=
  R.stream.map_seqno R.length_le_wrap

/-- No packet of a run occurs twice. -/
lemma nodup : pkts.Nodup := R.stream.nodup R.length_le_wrap

/-- Packets of a run, each delivered at most once. -/
lemma nodup_of_subperm (hds : ds.Subperm pkts) : ds.Nodup :=
  R.stream.nodup_of_subperm R.length_le_wrap hds

/-- The positions of the source packets of a stream. -/
lemma map_seqno_sourcePackets (b : ℕ) (i : Fin n) :
    (sourcePackets P pkts b i).map (fun x => x.hdr.seqno) =
      BlockCount.positions P.nval (streamid pkts) b ((i : ℕ) : ℤ) pkts.length := by
  rw [BlockCount.positions, ← R.map_seqno, List.filter_map, sourcePackets]
  refine congrArg _ (List.filter_congr fun x hx => decide_eq_decide.mpr ?_)
  rw [R.streamid_seqno hx]
  rfl

/-- The source symbols taken are the source packets counted over the whole run. -/
lemma taken_eq_symbols (b : ℕ) (i : Fin n) :
    taken P pkts b i = symbols P pkts b i pkts.length := by
  rw [symbols, ← BlockCount.length_positions, ← R.map_seqno_sourcePackets, List.length_map, taken]

/-- Different packets of a block have different symbol ids. -/
lemma nodup_map_esi (hds : ∀ x ∈ ds, x ∈ pkts) {b : ℕ} (hnodup : (blockPackets P ds b).Nodup) :
    ((blockPackets P ds b).map fun x => x.hdr.seqno % P.nval).Nodup := by
  refine List.Nodup.map_on (fun x hx y hy hxy => ?_) hnodup
  obtain ⟨hxd, hxb⟩ := List.mem_filter.mp hx
  obtain ⟨hyd, hyb⟩ := List.mem_filter.mp hy
  have hblock : x.hdr.seqno / P.nval = y.hdr.seqno / P.nval :=
    (of_decide_eq_true hxb).trans (of_decide_eq_true hyb).symm
  refine R.seqno_inj (hds x hxd) (hds y hyd) ?_
  rw [← Nat.div_add_mod x.hdr.seqno P.nval, ← Nat.div_add_mod y.hdr.seqno P.nval, hblock, hxy]

/-- Of a block at most `Nval` packets are received when none is received twice. -/
lemma length_blockPackets_le (hds : ∀ x ∈ ds, x ∈ pkts) {b : ℕ}
    (hnodup : (blockPackets P ds b).Nodup) : (blockPackets P ds b).length ≤ P.nval := by
  have hsub : (_ : List ℕ).Subperm (List.range P.nval) :=
    List.subperm_of_subset (R.nodup_map_esi hds hnodup) fun r hr => by
      obtain ⟨x, -, rfl⟩ := List.mem_map.mp hr
      exact List.mem_range.mpr (Nat.mod_lt _ P.nval_range.1)
  simpa using hsub.length_le

/-- **The pigeonhole.** Among `Kval` different packets of a block there is one with a symbol id of
at least `Kval - 1`. -/
lemma exists_last_symbol (hds : ∀ x ∈ ds, x ∈ pkts) {b : ℕ}
    (hnodup : (blockPackets P ds b).Nodup) (hlen : P.kval ≤ (blockPackets P ds b).length) :
    ∃ y ∈ ds, y.block P = b ∧ P.kval ≤ y.hdr.seqno % P.nval + 1 := by
  by_contra hno
  have hsub : (_ : List ℕ).Subperm (List.range (P.kval - 1)) :=
    List.subperm_of_subset (R.nodup_map_esi hds hnodup) fun r hr => by
      obtain ⟨x, hx, rfl⟩ := List.mem_map.mp hr
      obtain ⟨hxd, hxb⟩ := List.mem_filter.mp hx
      have hlt : ¬P.kval ≤ x.hdr.seqno % P.nval + 1 :=
        fun hk => hno ⟨x, hxd, of_decide_eq_true hxb, hk⟩
      rw [List.mem_range]
      omega
  have hle := hsub.length_le
  rw [List.length_map, List.length_range] at hle
  have := P.kval_range.1
  omega

/-- Behind a packet with a symbol id of at least `Kval - 1` a block has no source packets. -/
lemma symbols_final {y : TxPacket} (hesi : P.kval ≤ y.hdr.seqno % P.nval + 1)
    (i : Fin n) {m : ℕ} (hm : y.hdr.seqno + 1 ≤ m) :
    symbols P pkts (y.block P) i m = symbols P pkts (y.block P) i (y.hdr.seqno + 1) := by
  refine BlockCount.count_eq_of_forall hm fun q hq _ hblock => ?_
  by_cases hlt : q < pkts.length
  · have hmod : P.kval ≤ q % P.nval := by
      have h₁ := Nat.div_add_mod q P.nval
      have h₂ := Nat.div_add_mod y.hdr.seqno P.nval
      rw [hblock, TxPacket.block] at h₁
      omega
    rw [streamid_of_lt hlt, (R.stream q hlt).repair hmod]
    omega
  · simp only [streamid, List.getElem?_eq_none (not_lt.mp hlt)]
    simp

/-- The source symbols of a block from which `Kval` different packets were received: all of them lie
in front of the highest sequence number, and they add up to `Kval`. -/
theorem symbols_frontier (hds : ∀ x ∈ ds, x ∈ pkts) {b : ℕ}
    (hnodup : (blockPackets P ds b).Nodup) (hlen : P.kval ≤ (blockPackets P ds b).length) :
    (∀ i : Fin n, symbols P pkts b i (frontier ds) = taken P pkts b i) ∧
      ∑ i : Fin n, taken P pkts b i = P.kval := by
  obtain ⟨y, hy, rfl, hesi⟩ := R.exists_last_symbol hds hnodup hlen
  have hpkts := hds y hy
  have htaken : ∀ i : Fin n,
      taken P pkts (y.block P) i = symbols P pkts (y.block P) i (y.hdr.seqno + 1) :=
    fun i => (R.taken_eq_symbols _ i).trans (R.symbols_final hesi i (R.seqno_lt hpkts))
  constructor
  · intro i
    rw [htaken i, R.symbols_final hesi i (seqno_lt_frontier hy)]
  · rw [Finset.sum_congr rfl fun i _ => htaken i]
    exact (R.headerAt hpkts).sum.trans (min_eq_right hesi)

/-- No stream has more source symbols in a block than were taken from it. -/
lemma symbols_le_taken (b : ℕ) (i : Fin n) {m : ℕ} (hm : m ≤ pkts.length) :
    symbols P pkts b i m ≤ taken P pkts b i := by
  rw [R.taken_eq_symbols]
  exact BlockCount.count_mono _ _ hm

/-- The highest sequence number received is one of the run. -/
lemma frontier_le (hds : ∀ x ∈ ds, x ∈ pkts) : frontier ds ≤ pkts.length := by
  rcases eq_or_ne ds [] with rfl | hne
  · simp
  · obtain ⟨x, hx, hf⟩ := exists_frontier hne
    rw [hf]
    exact R.seqno_lt (hds x hx)

end Regime

/-- When `Kval` different packets of a block are received among the first packets of a run, all
source packets of the block are among these. -/
lemma EncodedStream.taken_take {P : RqParams} {pkts ds : List TxPacket}
    (h : EncodedStream P n pkts) (hwrap : pkts.length ≤ P.nval * 2 ^ 32)
    (R : Regime P n (pkts.take (2 ^ 31))) (hds : ∀ x ∈ ds, x ∈ pkts.take (2 ^ 31)) {b : ℕ}
    (hnodup : (blockPackets P ds b).Nodup) (hlen : P.kval ≤ (blockPackets P ds b).length)
    (i : Fin n) : taken P (pkts.take (2 ^ 31)) b i = taken P pkts b i := by
  obtain ⟨y, hy, rfl, hesi⟩ := R.exists_last_symbol hds hnodup hlen
  have hylt : y.hdr.seqno < 2 ^ 31 :=
    (R.seqno_lt (hds y hy)).trans_le (List.length_take_le _ _)
  have hrest : sourcePackets P (pkts.drop (2 ^ 31)) (y.block P) i = [] := by
    refine List.filter_eq_nil_iff.mpr fun x hx hcond => ?_
    obtain ⟨p, hp, rfl⟩ := List.mem_drop_iff_getElem.mp hx
    obtain ⟨hblock, hsid⟩ := of_decide_eq_true hcond
    rw [TxPacket.block, h.seqno_getElem hwrap, TxPacket.block] at hblock
    -- the block has only repair packets behind the packet `y`
    have hmod : P.kval ≤ (2 ^ 31 + p) % P.nval := by
      have h₁ := Nat.div_add_mod (2 ^ 31 + p) P.nval
      have h₂ := Nat.div_add_mod y.hdr.seqno P.nval
      rw [hblock] at h₁
      omega
    rw [(h _ (by omega)).repair hmod] at hsid
    omega
  calc taken P (pkts.take (2 ^ 31)) (y.block P) i
      = (sourcePackets P (pkts.take (2 ^ 31)) (y.block P) i ++
          sourcePackets P (pkts.drop (2 ^ 31)) (y.block P) i).length := by
        rw [hrest, List.append_nil, taken]
    _ = taken P pkts (y.block P) i := by
        rw [sourcePackets, sourcePackets, ← List.filter_append, List.take_append_drop, taken,
          sourcePackets]

section NsymbFinal

variable {P : RqParams} {pkts ds : List TxPacket} (R : Regime P n pkts)
  (hds : ∀ x ∈ ds, x ∈ pkts) {d : RqDecoder n} (h : Tracks P pkts ds d) {b : ℕ} (hb : d.sbid = b)
  (hnodup : (blockPackets P ds b).Nodup)

include R hds h hb hnodup

/-- Without duplicates the packet counter does not overflow. -/
lemma Tracks.nrcv_eq : d.nrcv = (blockPackets P ds b).length := by
  have hle := R.length_blockPackets_le hds hnodup
  rw [h.nrcv b hb]
  exact i32_of_range (by omega) (by have := R.nval; omega)

/-- **The symbol counts are final.** Once `Kval` packets of the current source block have been
received, the decoder knows for every stream how many source symbols the encoder took from it. -/
theorem Tracks.nsymb_final (hK : (P.kval : ℤ) ≤ d.nrcv) :
    (∀ i, (d.slotStates i).nsymb = taken P pkts b i) ∧
      ∑ i, (d.slotStates i).nsymb = P.kval := by
  rw [h.nrcv_eq R hds hb hnodup] at hK
  obtain ⟨hfinal, hsum⟩ := R.symbols_frontier hds hnodup (by exact_mod_cast hK)
  have hnsymb : ∀ i, (d.slotStates i).nsymb = taken P pkts b i := fun i => by
    rw [h.nsymb b hb i, hfinal i]
  refine ⟨hnsymb, ?_⟩
  rw [Finset.sum_congr rfl fun i _ => hnsymb i]
  exact_mod_cast hsum

end NsymbFinal

/-- A part of the deliveries of a run is a delivery itself. -/
lemma exists_prefix_of_received {steps more : List (Step n)} {ds : List TxPacket}
    (h : received (steps ++ more) = ds.map TxPacket.bytes) :
    ∃ pre post, ds = pre ++ post ∧ received steps = pre.map TxPacket.bytes := by
  rw [received, List.filterMap_append] at h
  obtain ⟨pre, post, hds, hpre, -⟩ := List.map_eq_append_iff.mp h.symm
  exact ⟨pre, post, hds, hpre.symm⟩

/-- **The symbol counts are final at the decode moment.** Along every run of the decoder on packets
of an encoder run, lost and reordered but none delivered twice: from the moment on at which `Kval`
packets of a source block have been received, the symbol count of every stream is the encoder's
final count of the stream in that block, these counts add up to `Kval`, and they stay as they are
for the rest of the block. -/
theorem nsymb_final_of_nrcv (P : RqParams) [NeZero n] (hn : n ≤ txSlotCount)
    (hKN : P.kval ≤ P.nval) (hN : P.nval < 2 ^ 31) (calls : List (SendCall n))
    (hlen : (RqEncoder.sent P calls).length < 2 ^ 31) {ds : List TxPacket}
    (hds : ds.Subperm (RqEncoder.sent P calls)) (steps more : List (Step n))
    (hsteps : received (steps ++ more) = ds.map TxPacket.bytes) {d : RqDecoder n}
    (hd : (RqDecoder.run P steps).1 = some d) (hK : i32 P.kval ≤ d.nrcv) :
    ∃ b : ℕ, d.sbid = b ∧ (∀ i, (d.slotStates i).nsymb = taken P (RqEncoder.sent P calls) b i) ∧
      ∑ i, (d.slotStates i).nsymb = P.kval ∧
      ∀ d', (RqDecoder.run P (steps ++ more)).1 = some d' → d'.sbid = d.sbid →
        ∀ i, (d'.slotStates i).nsymb = (d.slotStates i).nsymb := by
  have R := regime_sent hn hN hlen.le
  obtain ⟨pre, post, rfl, hpre⟩ := exists_prefix_of_received hsteps
  have hmem : ∀ x ∈ pre ++ post, x ∈ RqEncoder.sent P calls := fun x hx => hds.subset hx
  have hmem' : ∀ x ∈ pre, x ∈ RqEncoder.sent P calls :=
    fun x hx => hmem x (List.mem_append_left _ hx)
  have hnodup := R.nodup_of_subperm hds
  have hnodup' : pre.Nodup := (List.nodup_append.mp hnodup).1
  rw [(i32_natCast_eq_iff _).mpr (by omega)] at hK
  obtain ⟨d₀, hd₀, h⟩ := tracks_run R hmem' hpre
  obtain rfl : d = d₀ := Option.some.inj (hd.symm.trans hd₀)
  have hsbid : 0 ≤ d.sbid := by
    by_contra hneg
    have := h.idle (not_le.mp hneg)
    have := P.kval_range.1
    omega
  obtain ⟨b, hb⟩ := Int.eq_ofNat_of_zero_le hsbid
  obtain ⟨hfinal, hsum⟩ := h.nsymb_final R hmem' hb (hnodup'.filter _) hK
  refine ⟨b, hb, hfinal, hsum, fun d' hd' hsame i => ?_⟩
  obtain ⟨d₁, hd₁, h'⟩ := tracks_run R hmem hsteps
  obtain rfl : d' = d₁ := Option.some.inj (hd'.symm.trans hd₁)
  have hb' : d'.sbid = b := hsame.trans hb
  have hK' : (P.kval : ℤ) ≤ d'.nrcv := by
    rw [h.nrcv_eq R hmem' hb (hnodup'.filter _)] at hK
    rw [h'.nrcv_eq R hmem hb' (hnodup.filter _), blockPackets, List.filter_append,
      List.length_append]
    rw [blockPackets] at hK
    omega
  rw [(h'.nsymb_final R hmem hb' (hnodup.filter _) hK').1 i, hfinal i]

/-- The decode moment of a block of one source packet and one repair packet, from which the repair
packet is received. -/
theorem nsymb_final_of_nrcv_repair :
    ∃ d : RqDecoder 1,
      (RqDecoder.run { kval := 1, nval := 2, tval := 1 }
        (((RqEncoder.sent { kval := 1, nval := 2, tval := 1 }
          (List.replicate 2 (SendCall.ready { kval := 1, nval := 2, tval := 1 } 1))).drop 1).map
            fun x => .recv x.bytes)).1 = some d ∧
      ∑ i, (d.slotStates i).nsymb = 1 := by
  obtain ⟨d, hd, hnrcv⟩ := Option.map_eq_some_iff.mp
    (show ((RqDecoder.run (n := 1) { kval := 1, nval := 2, tval := 1 }
      (((RqEncoder.sent { kval := 1, nval := 2, tval := 1 }
        (List.replicate 2 (SendCall.ready { kval := 1, nval := 2, tval := 1 } 1))).drop 1).map
          fun x => .recv x.bytes)).1.map fun d => d.nrcv) = some 1 by decide +kernel)
  obtain ⟨-, -, -, hsum, -⟩ := nsymb_final_of_nrcv { kval := 1, nval := 2, tval := 1 } (by decide)
    (by decide) (by decide)
    (List.replicate 2 (SendCall.ready { kval := 1, nval := 2, tval := 1 } 1))
    (by decide +kernel)
    (List.drop_sublist 1 _).subperm _ [] (by decide +kernel) hd (by rw [hnrcv]; decide)
  exact ⟨d, hd, hsum⟩

end MeshSim
