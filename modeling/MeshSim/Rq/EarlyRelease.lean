import MeshSim.Rq.InOrder

/-!
# The early release is sound

The decoder does not store which symbols arrived: it releases a symbol early when the count of
contiguous symbols is one below the highest count seen in any packet.  When no packet is delivered
twice this is sound, in whatever order the packets arrive.  The packet that triggers the release is
a source packet of the stream in front of the frontier, the source packets in front of the frontier
are one more than those known to be received in full, and the packet is none of these: so it is the
one that was missing.  `Sound` is the invariant, on top of `Tracks` and `Credits`.
-/

namespace MeshSim

open MachineInt RqDecoder

variable {n : ℕ}

/-- The contiguous symbols and the credits before the decode moment are symbols received, in full
from the start of the block. -/
structure Sound (P : RqParams) (pkts ds : List TxPacket) (d : RqDecoder n)
    (evs : List (Event n)) : Prop where
  /-- The contiguous symbols were received in full. -/
  nsymbcontig : ∀ b : ℕ, d.sbid = b → ∀ i, (d.slotStates i).nsymbcontig ≤ contiguous P pkts ds b i
  /-- What is credited to a block before its decode moment was received in full. -/
  credited : ∀ b : ℕ, (blockPackets P ds b).length < P.kval →
    ∀ i, symbolsCredited evs b i ≤ contiguous P pkts ds b i

/-- The constructed decoder has credited nothing. -/
lemma sound_init (P : RqParams) (pkts : List TxPacket) :
    Sound P pkts [] (RqDecoder.init n) [] where
  nsymbcontig := fun b hb => by simp only [RqDecoder.init] at hb; omega
  credited := fun b _ i => by simp [contiguous]

/-- Sending leaves the contiguous symbols and the credits. -/
lemma Sound.tryToSend {P : RqParams} {pkts ds : List TxPacket} {d : RqDecoder n}
    {evs : List (Event n)} (h : Sound P pkts ds d evs) (slot : Fin n) (txAvailable : Option ℕ) :
    Sound P pkts ds (RqDecoder.tryToSend d slot txAvailable).1
      (evs ++ (RqDecoder.tryToSend d slot txAvailable).2) := by
  have hd := sameCounters_tryToSend d slot txAvailable
  constructor
  · intro b hb i
    rw [hd.nsymbcontig]
    exact h.nsymbcontig b (hd.sbid ▸ hb) i
  · intro b hlen i
    rw [symbolsCredited_append, symbolsCredited_tryToSend, add_zero]
    exact h.credited b hlen i

/-- One more packet does not reduce what is received in full. -/
lemma contiguous_le_concat (P : RqParams) (pkts ds : List TxPacket) (x : TxPacket) (b : ℕ)
    (i : Fin n) : contiguous P pkts ds b i ≤ contiguous P pkts (ds ++ [x]) b i := by
  rw [contiguous, contiguous, List.map_append]
  exact BlockCount.covered_mono (List.subset_append_left _ _)

/-- One more packet does not reduce the packets received for a block. -/
lemma length_blockPackets_le_concat (P : RqParams) (ds : List TxPacket) (x : TxPacket) (b : ℕ) :
    (blockPackets P ds b).length ≤ (blockPackets P (ds ++ [x]) b).length := by
  rw [blockPackets, blockPackets, List.filter_append, List.length_append]
  exact Nat.le_add_right _ _

/-- **The packet that triggers an early release is the missing one.** When the symbols in front of
the frontier are one more than those received in full, a new source packet of the stream extends
what is received in full. -/
lemma Regime.succ_le_contiguous {P : RqParams} {pkts ds : List TxPacket} {x : TxPacket}
    (R : Regime P n pkts) (hds : ∀ y ∈ ds ++ [x], y ∈ pkts) (hnew : x ∉ ds) {i : Fin n}
    (hsid : x.hdr.iseqStreamid = (i : ℕ)) {c : ℕ} (hc : c ≤ contiguous P pkts ds (x.block P) i)
    (hnext : c + 1 = symbols P pkts (x.block P) i (frontier (ds ++ [x]))) :
    c + 1 ≤ contiguous P pkts (ds ++ [x]) (x.block P) i := by
  have hx : x ∈ pkts := hds x (by simp)
  have hfront : (sourcePositions P pkts (x.block P) i).take (c + 1) =
      BlockCount.positions P.nval (streamid pkts) (x.block P) ((i : ℕ) : ℤ)
        (frontier (ds ++ [x])) := by
    rw [hnext]
    exact BlockCount.positions_take _ _ (R.frontier_le hds)
  have hlen : c < (sourcePositions P pkts (x.block P) i).length := by
    have h := congrArg List.length hfront
    rw [BlockCount.length_positions, List.length_take] at h
    have hle : c + 1 ≤ min (c + 1) (sourcePositions P pkts (x.block P) i).length :=
      (hnext.trans h.symm).le
    omega
  have hmem : x.hdr.seqno ∈ (sourcePositions P pkts (x.block P) i).take (c + 1) := by
    rw [hfront, BlockCount.mem_positions]
    exact ⟨seqno_lt_frontier (by simp), rfl, by rw [R.streamid_seqno hx, hsid]⟩
  have hnot : x.hdr.seqno ∉ ds.map fun y => y.hdr.seqno := by
    intro h
    obtain ⟨y, hy, hseq⟩ := List.mem_map.mp h
    have hyx : y = x := R.seqno_inj (hds y (List.mem_append_left _ hy)) hx hseq
    exact hnew (hyx ▸ hy)
  rw [contiguous, List.map_append, List.map_singleton]
  exact BlockCount.succ_le_covered hlen hc hnot hmem

section SoundStep

variable {P : RqParams} {pkts ds : List TxPacket} {x : TxPacket} {d d' : RqDecoder n}
  {evs evs' : List (Event n)} (hs : Sound P pkts ds d evs)

include hs

/-- A discarded packet leaves the contiguous symbols and the credits. -/
lemma Sound.discard : Sound P pkts (ds ++ [x]) d (evs ++ [.rxTrace x.bytes, .discarded]) := by
  have hmono : ∀ (b : ℕ) (i : Fin n), (contiguous P pkts ds b i : ℤ) ≤
      contiguous P pkts (ds ++ [x]) b i :=
    fun b i => by exact_mod_cast contiguous_le_concat P pkts ds x b i
  constructor
  · intro b hb i
    exact (hs.nsymbcontig b hb i).trans (hmono b i)
  · intro b hlen i
    rw [symbolsCredited_append, symbolsCredited_discard, add_zero]
    exact (hs.credited b ((length_blockPackets_le_concat P ds x b).trans_lt hlen) i).trans
      (hmono b i)

variable (R : Regime P n pkts) (hds : ∀ y ∈ ds ++ [x], y ∈ pkts) (hnodup : (ds ++ [x]).Nodup)
  (hK : P.kval < 2 ^ 31) (h : Tracks P pkts ds d) (hle : d.sbid ≤ x.block P)
  (hC : Counted P pkts d x d' evs')

include hle

/-- On entering the source block of a packet, its contiguous symbols were received in full. -/
lemma Sound.enter_nsymbcontig (i : Fin n) :
    ((d.enter (x.block P)).slotStates i).nsymbcontig ≤ contiguous P pkts ds (x.block P) i := by
  rcases hle.lt_or_eq with hlt | heq
  · rw [enter, if_pos hlt]
    exact Int.natCast_nonneg _
  · rw [enter, if_neg heq.not_lt]
    exact hs.nsymbcontig _ heq i

include R hds hnodup h hC

/-- The contiguous symbols after a packet were received in full. -/
lemma Sound.count_nsymbcontig (i : Fin n) :
    (d'.slotStates i).nsymbcontig ≤ contiguous P pkts (ds ++ [x]) (x.block P) i := by
  have hx : x ∈ pkts := hds x (by simp)
  have hbefore := hs.enter_nsymbcontig hle i
  rw [h.count_nsymbcontig R hx hle hC i]
  split
  · rename_i hrel
    obtain ⟨hsid, hnext⟩ := hrel
    obtain ⟨c, hc⟩ := Int.eq_ofNat_of_zero_le (h.enter_nsymbcontig hle i).1
    rw [hc] at hbefore hnext ⊢
    rw [h.count_nsymb hle hC i] at hnext
    have hnew : x ∉ ds := fun hmem => List.disjoint_of_nodup_append hnodup hmem (by simp)
    exact_mod_cast R.succ_le_contiguous hds hnew hsid (by exact_mod_cast hbefore)
      (by exact_mod_cast hnext)
  · rw [add_zero]
    exact hbefore.trans (by exact_mod_cast contiguous_le_concat P pkts ds x _ i)

include hK

/-- **A counted packet keeps the early release sound.** -/
lemma Sound.count (hcr : Credits P pkts ds d evs) : Sound P pkts (ds ++ [x]) d' (evs ++ evs') := by
  have hcontig := hs.count_nsymbcontig R hds hnodup h hle hC
  constructor
  · intro b hb i
    rw [hC.sbid] at hb
    obtain rfl : x.block P = b := by exact_mod_cast hb
    exact hcontig i
  · intro b hlen i
    by_cases hb : x.block P = b
    · subst hb
      rw [(hcr.count R hds hnodup hK h hle hC).before _ hC.sbid hlen i]
      exact hcontig i
    · rw [symbolsCredited_append, h.count_credits R hds hnodup hK hle hC, if_neg hb, add_zero]
      rw [blockPackets_concat_of_ne ds hb] at hlen
      exact (hs.credited b hlen i).trans
        (by exact_mod_cast contiguous_le_concat P pkts ds x b i)

end SoundStep

/-! ### Runs -/

/-- **Every run that delivers no packet twice releases soundly.** -/
theorem sound_run {P : RqParams} {pkts ds : List TxPacket} (R : Regime P n pkts)
    (hds : ∀ x ∈ ds, x ∈ pkts) (hnodup : ds.Nodup) (hK : P.kval < 2 ^ 31) {steps : List (Step n)}
    (hsteps : received steps = ds.map TxPacket.bytes) :
    ∃ d, (RqDecoder.run P steps).1 = some d ∧ Tracks P pkts ds d ∧
      Credits P pkts ds d (RqDecoder.run P steps).2 ∧
      Sound P pkts ds d (RqDecoder.run P steps).2 := by
  refine run_delivery
    (I := fun pre d evs => Tracks P pkts pre d ∧ Credits P pkts pre d evs ∧ Sound P pkts pre d evs)
    hsteps ⟨tracks_init P pkts, credits_init P pkts, sound_init P pkts⟩ ?_ ?_
  · rintro before pre x d evs - hpre - ⟨h, hcr, hs⟩
    have hmem : ∀ y ∈ pre ++ [x], y ∈ pkts := fun y hy => hds y (hpre.subset hy)
    have hx : x ∈ pkts := hmem x (by simp)
    have hnodup' : (pre ++ [x]).Nodup := hnodup.sublist hpre.sublist
    rcases receive_cases R hx d with ⟨hlt, hrecv⟩ | ⟨hle, d', evs', hrecv, hC⟩
    · exact ⟨d, _, hrecv, h.discard hlt, hcr.discard hlt, hs.discard⟩
    · exact ⟨d', evs', hrecv, h.count R hx hle hC, hcr.count R hmem hnodup' hK h hle hC,
        hs.count R hmem hnodup' hK h hle hC hcr⟩
  · rintro pre d evs slot txAvailable ⟨h, hcr, hs⟩
    exact ⟨h.congr (sameCounters_tryToSend d slot txAvailable), hcr.tryToSend slot txAvailable,
      hs.tryToSend slot txAvailable⟩

/-- The beginning of a stream's source packets that is received in full was received. -/
lemma Regime.mem_of_le_contiguous {P : RqParams} {pkts ds : List TxPacket} (R : Regime P n pkts)
    (hds : ∀ x ∈ ds, x ∈ pkts) {b c : ℕ} {i : Fin n} (hc : c ≤ contiguous P pkts ds b i) :
    c ≤ (sourcePackets P pkts b i).length ∧
      ∀ x ∈ (sourcePackets P pkts b i).take c, x ∈ ds := by
  rw [contiguous, sourcePositions, ← R.map_seqno_sourcePackets] at hc
  have hlen : c ≤ (sourcePackets P pkts b i).length := by
    rw [← List.length_map (f := fun x : TxPacket => x.hdr.seqno)]
    exact hc.trans (List.takeWhile_prefix _).length_le
  refine ⟨hlen, fun x hx => ?_⟩
  rw [BlockCount.le_covered_iff (by rwa [List.length_map]), ← List.map_take] at hc
  obtain ⟨y, hy, hseq⟩ := List.mem_map.mp (hc _ (List.mem_map_of_mem hx))
  have hxp : x ∈ pkts := (List.mem_filter.mp (List.mem_of_mem_take hx)).1
  exact R.seqno_inj (hds y hy) hxp hseq ▸ hy

/-- **The early release is sound.** Along every run of the decoder on packets of an encoder run,
lost and reordered but none delivered twice, the count `c` of contiguous symbols of a stream is a
number of source packets that were received: the first `c` that the encoder took from the stream in
the current source block.  Before the decode moment of a source block, everything credited to a
stream for it is of this kind. -/
theorem received_of_nsymbcontig (P : RqParams) [NeZero n] (hn : n ≤ txSlotCount)
    (hK : P.kval < 2 ^ 31) (hN : P.nval < 2 ^ 31) (calls : List (SendCall n))
    (hlen : (RqEncoder.sent P calls).length < 2 ^ 31) {ds : List TxPacket}
    (hds : ds.Subperm (RqEncoder.sent P calls)) (steps : List (Step n))
    (hsteps : received steps = ds.map TxPacket.bytes) :
    ∃ d, (RqDecoder.run P steps).1 = some d ∧
      (∀ b : ℕ, d.sbid = b → ∀ i, ∃ c : ℕ, (d.slotStates i).nsymbcontig = c ∧
        c ≤ (sourcePackets P (RqEncoder.sent P calls) b i).length ∧
        ∀ x ∈ (sourcePackets P (RqEncoder.sent P calls) b i).take c, x ∈ ds) ∧
      ∀ b : ℕ, (blockPackets P ds b).length < P.kval → ∀ i, ∃ c : ℕ,
        symbolsCredited (RqDecoder.run P steps).2 b i = c ∧
        bytesCredited P (RqDecoder.run P steps).2 b i ≤ P.tval * c ∧
        (d.sbid = b → (d.slotStates i).nsymbcontig = c) ∧
        c ≤ (sourcePackets P (RqEncoder.sent P calls) b i).length ∧
        ∀ x ∈ (sourcePackets P (RqEncoder.sent P calls) b i).take c, x ∈ ds := by
  have R := regime_sent hn hN hlen.le
  have hmem : ∀ x ∈ ds, x ∈ RqEncoder.sent P calls := fun x hx => hds.subset hx
  obtain ⟨d, hd, h, hcr, hs⟩ := sound_run R hmem (R.nodup_of_subperm hds) hK hsteps
  refine ⟨d, hd, fun b hb i => ?_, fun b hb i => ?_⟩
  · obtain ⟨c, hc⟩ := Int.eq_ofNat_of_zero_le (h.nsymbcontig i).1
    have hle := hs.nsymbcontig b hb i
    rw [hc] at hle
    exact ⟨c, hc, R.mem_of_le_contiguous hmem (by exact_mod_cast hle)⟩
  · have hbytes := bytesCredited_le P hcr.nonneg (b : ℤ) i
    have hnonneg : 0 ≤ symbolsCredited (RqDecoder.run P steps).2 b i := by
      refine nonneg_of_mul_nonneg_right ((Int.natCast_nonneg _).trans hbytes) ?_
      exact_mod_cast P.tval_range.1
    obtain ⟨c, hc⟩ := Int.eq_ofNat_of_zero_le hnonneg
    have hle := hs.credited b hb i
    rw [hc] at hbytes hle
    refine ⟨c, hc, by exact_mod_cast hbytes, fun hsbid => ?_,
      R.mem_of_le_contiguous hmem (by exact_mod_cast hle)⟩
    rw [← hcr.before b hsbid hb i, hc]

/-- Of a block of two source packets and a repair packet, the second source packet arrives alone. -/
theorem received_of_nsymbcontig_second :
    ∃ (P : RqParams) (calls : List (SendCall 1)) (ds : List TxPacket) (steps : List (Step 1)),
      P.kval = 2 ∧ ds.length = 1 ∧ ds.head? = (RqEncoder.sent P calls)[1]? ∧
      received steps = ds.map TxPacket.bytes ∧
      ∃ d, (RqDecoder.run P steps).1 = some d ∧
        ∀ b : ℕ, d.sbid = b → ∀ i, ∃ c : ℕ, (d.slotStates i).nsymbcontig = c ∧
          c ≤ (sourcePackets P (RqEncoder.sent P calls) b i).length ∧
          ∀ x ∈ (sourcePackets P (RqEncoder.sent P calls) b i).take c, x ∈ ds := by
  let P : RqParams := { kval := 2, nval := 3, tval := 1 }
  let calls := List.replicate 3 (SendCall.ready P 1)
  let ds := ((RqEncoder.sent P calls).drop 1).take 1
  let steps : List (Step 1) := ds.map fun x => .recv x.bytes
  have hsub : ds.Subperm (RqEncoder.sent P calls) :=
    ((List.take_sublist 1 _).trans (List.drop_sublist 1 _)).subperm
  have hsteps : received steps = ds.map TxPacket.bytes := by decide +kernel
  obtain ⟨d, hd, hcontig, -⟩ := received_of_nsymbcontig P (by decide) (by decide) (by decide) calls
    (by decide +kernel) hsub steps hsteps
  exact ⟨P, calls, ds, steps, rfl, by decide +kernel, by decide +kernel, hsteps, d, hd, hcontig⟩

end MeshSim
