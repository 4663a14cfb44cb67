import MeshSim.Rq.InOrder

/-!
# The per-stream counts of a decoding record

A record of the decoder reports, for each slot, `m_nsymb` as the number of source packets received.
The decoder does not count these: `m_nsymb` is the highest count in any header of the block, and so
the number of source symbols of the stream in front of the last packet received.  This is the number
of source packets received exactly when none of them was lost (`slotCounts_iff`).
-/

namespace MeshSim

open MachineInt RqDecoder

variable {n : ℕ}

/-! ### Counting packets by stream -/

/-- Each item of a list with values in `Fin n` is counted under one of them. -/
lemma sum_countP_eq_countP {α : Type*} {l : List α} {f : α → ℤ}
    (h : ∀ x ∈ l, f x = -1 ∨ ∃ i : Fin n, f x = (i : ℕ)) :
    ∑ i : Fin n, l.countP (fun x => f x = ((i : ℕ) : ℤ)) = l.countP fun x => f x ≠ -1 := by
  induction l with
  | nil => simp
  | cons x l ih =>
    simp only [List.countP_cons, Finset.sum_add_distrib]
    rw [ih fun y hy => h y (List.mem_cons_of_mem _ hy)]
    congr 1
    rcases h x List.mem_cons_self with hx | ⟨i, hx⟩
    · rw [hx]
      simp only [ne_eq, not_true_eq_false, decide_false, Bool.false_eq_true, if_false]
      refine Finset.sum_eq_zero fun j _ => ?_
      rw [if_neg]
      simp only [decide_eq_true_eq]
      omega
    · have hne : f x ≠ -1 := by omega
      simp only [hx, Nat.cast_inj, Fin.val_inj, decide_eq_true_eq]
      rw [Finset.sum_ite_eq, if_pos (Finset.mem_univ i), if_pos (hx ▸ hne)]

/-- A part of a list without repetitions is as long as the list exactly when it is all of it. -/
lemma length_eq_iff_subset {α : Type*} {l l' : List α} (h : l.Nodup) (h' : l'.Nodup)
    (hsub : l ⊆ l') : l.length = l'.length ↔ l' ⊆ l := by
  constructor
  · intro hlen
    exact ((List.subperm_of_subset h hsub).perm_of_length_le hlen.ge).symm.subset
  · intro hback
    exact le_antisymm (List.subperm_of_subset h hsub).length_le
      (List.subperm_of_subset h' hback).length_le

/-! ### The records -/

/-- The source packets of a stream among packets received. -/
def receivedOf (got : List TxPacket) (i : Fin n) : List TxPacket :=
  got.filter fun x => x.hdr.iseqStreamid = ((i : ℕ) : ℤ)

/-- The counts of a record on a source block of which the packets `got` were received: the count of
each slot is that of the source packets received of its stream, they add up to the count of the
block, and no count exceeds the next. -/
structure SlotCounts (got : List TxPacket) (info : DecodeInfo n) : Prop where
  /-- Each slot has the number of source packets received of its stream. -/
  received : ∀ i, (info.slotinfo i).1 = (receivedOf got i).length
  /-- The counts of the slots add up to the count of the block. -/
  sum : ∑ i, (info.slotinfo i).1 = info.nSrcRcv
  /-- The contiguous source packets are among the source packets, and those among all packets. -/
  order : ∀ i, (info.slotinfo i).2 ≤ (info.slotinfo i).1 ∧ (info.slotinfo i).1 ≤ info.nRcv

/-- No source packet of a block that was sent in front of a packet received of it was lost. -/
def NothingLost (P : RqParams) (pkts got : List TxPacket) (b : ℕ) : Prop :=
  ∀ x ∈ got, ∀ y ∈ pkts, y.block P = b → y.hdr.iseqStreamid ≠ -1 →
    y.hdr.seqno ≤ x.hdr.seqno → y ∈ got

/-- What is lost of the packets of a run in front of packets with small sequence numbers is lost of
its first packets. -/
lemma EncodedStream.nothingLost_take_iff {P : RqParams} {pkts got : List TxPacket}
    (h : EncodedStream P n pkts) (hwrap : pkts.length ≤ P.nval * 2 ^ 32)
    (hgot : ∀ x ∈ got, x.hdr.seqno < 2 ^ 31) (b : ℕ) :
    NothingLost P (pkts.take (2 ^ 31)) got b ↔ NothingLost P pkts got b := by
  constructor
  · intro hlost x hx y hy hblock hsid hle
    exact hlost x hx y (h.mem_take hwrap hy (hle.trans_lt (hgot x hx))) hblock hsid hle
  · intro hlost x hx y hy
    exact hlost x hx y (List.mem_of_mem_take hy)

/-- The source packets of the current block are counted. -/
def CountsSource (P : RqParams) (ds : List TxPacket) (d : RqDecoder n) : Prop :=
  ∀ b : ℕ, d.sbid = b →
    d.nsrcrcv = (blockPackets P ds b).countP fun x => x.hdr.iseqStreamid ≠ -1

section State

variable {P : RqParams} {pkts ds : List TxPacket} {d : RqDecoder n} (R : Regime P n pkts)
  (hds : ∀ x ∈ ds, x ∈ pkts) (hnodup : ds.Nodup) (h : Tracks P pkts ds d) {b : ℕ} (hb : d.sbid = b)

include R

omit hds hnodup h hb in
/-- The source packets of a stream in front of a packet of the run. -/
lemma Regime.length_front (b : ℕ) (i : Fin n) {m : ℕ} (hm : m ≤ pkts.length) :
    ((sourcePackets P pkts b i).filter fun x => x.hdr.seqno < m).length =
      symbols P pkts b i m := by
  have hfilter : (sourcePackets P pkts b i).map (fun x => x.hdr.seqno) =
      BlockCount.positions P.nval (streamid pkts) b ((i : ℕ) : ℤ) pkts.length :=
    R.map_seqno_sourcePackets b i
  have hperm : ((BlockCount.positions P.nval (streamid pkts) b ((i : ℕ) : ℤ) pkts.length).filter
      fun q => q < m).Perm (BlockCount.positions P.nval (streamid pkts) b ((i : ℕ) : ℤ) m) := by
    refine (List.perm_ext_iff_of_nodup ?_ ?_).mpr fun q => ?_
    · exact (List.nodup_range.filter _).filter _
    · exact List.nodup_range.filter _
    · rw [List.mem_filter, BlockCount.mem_positions, BlockCount.mem_positions, decide_eq_true_eq]
      constructor
      · rintro ⟨⟨-, hq⟩, hlt⟩
        exact ⟨hlt, hq⟩
      · rintro ⟨hlt, hq⟩
        exact ⟨⟨by omega, hq⟩, hlt⟩
  rw [symbols, ← BlockCount.length_positions, ← hperm.length_eq, ← hfilter, List.filter_map,
    List.length_map]
  rfl

include hds hnodup

omit hnodup in
/-- A packet received has the stream id of a repair packet or of a slot. -/
lemma Regime.streamid_cases {x : TxPacket} (hx : x ∈ ds) :
    x.hdr.iseqStreamid = -1 ∨ ∃ i : Fin n, x.hdr.iseqStreamid = (i : ℕ) := by
  have hat := R.headerAt (hds x hx)
  by_cases hk : x.hdr.seqno % P.nval < P.kval
  · exact Or.inr (hat.source hk)
  · exact Or.inl (hat.repair (not_lt.mp hk))

include h hb

/-- The symbol count of a stream is the number of its source packets received exactly when all of
them in front of the frontier were received. -/
lemma Tracks.nsymb_eq_iff (i : Fin n) :
    (d.slotStates i).nsymb = (receivedOf (blockPackets P ds b) i).length ↔
      ∀ y ∈ sourcePackets P pkts b i, y.hdr.seqno < frontier ds → y ∈ blockPackets P ds b := by
  have hfront : (d.slotStates i).nsymb =
      ((sourcePackets P pkts b i).filter fun x => x.hdr.seqno < frontier ds).length := by
    rw [h.nsymb b hb i, R.length_front b i (R.frontier_le hds)]
  have hsub : receivedOf (blockPackets P ds b) i ⊆
      (sourcePackets P pkts b i).filter fun x => x.hdr.seqno < frontier ds := by
    intro x hx
    obtain ⟨hxb, hsid⟩ := List.mem_filter.mp hx
    obtain ⟨hxd, hblock⟩ := List.mem_filter.mp hxb
    have hsource : x ∈ sourcePackets P pkts b i :=
      List.mem_filter.mpr ⟨hds x hxd, decide_eq_true
        ⟨of_decide_eq_true hblock, of_decide_eq_true hsid⟩⟩
    exact List.mem_filter.mpr ⟨hsource, by simpa using seqno_lt_frontier hxd⟩
  have hleft : (receivedOf (blockPackets P ds b) i).Nodup := (hnodup.filter _).filter _
  have hright : ((sourcePackets P pkts b i).filter fun x => x.hdr.seqno < frontier ds).Nodup :=
    (R.nodup.filter _).filter _
  have hiff := length_eq_iff_subset hleft hright hsub
  rw [hfront, Nat.cast_inj, eq_comm, hiff]
  constructor
  · intro hall y hy hlt
    exact (List.mem_filter.mp (hall (List.mem_filter.mpr ⟨hy, by simpa using hlt⟩))).1
  · intro hall y hy
    obtain ⟨hsource, hlt⟩ := List.mem_filter.mp hy
    have hsid := (List.mem_filter.mp hsource).2
    simp only [Bool.decide_and, Bool.and_eq_true, decide_eq_true_eq] at hsid hlt
    exact List.mem_filter.mpr ⟨hall y hsource hlt, by simpa using hsid.2⟩

omit R hnodup in
/-- The last packet received belongs to the current block. -/
lemma Tracks.exists_last : ∃ x ∈ blockPackets P ds b, frontier ds = x.hdr.seqno + 1 := by
  have hne : ds ≠ [] := by
    rintro rfl
    rw [h.sbid, curBlock_nil] at hb
    omega
  obtain ⟨x, hx, hf⟩ := exists_frontier hne
  refine ⟨x, List.mem_filter.mpr ⟨hx, ?_⟩, hf⟩
  rw [h.sbid, curBlock_of_frontier hf] at hb
  rw [decide_eq_true_eq, TxPacket.block]
  exact_mod_cast hb

omit hnodup in
/-- All source packets in front of the frontier were received exactly when nothing was lost. -/
lemma Tracks.nothingLost_iff :
    (∀ (i : Fin n), ∀ y ∈ sourcePackets P pkts b i, y.hdr.seqno < frontier ds →
      y ∈ blockPackets P ds b) ↔ NothingLost P pkts (blockPackets P ds b) b := by
  obtain ⟨z, hz, hf⟩ := h.exists_last hds hb
  constructor
  · intro hall x hx y hy hblock hsid hle
    have hxd : x ∈ ds := (List.mem_filter.mp hx).1
    have hlt : y.hdr.seqno < frontier ds := lt_of_le_of_lt hle (seqno_lt_frontier hxd)
    rcases R.streamid_cases (List.Subset.refl pkts) hy with hrepair | ⟨i, hi⟩
    · exact absurd hrepair hsid
    · exact hall i y (List.mem_filter.mpr ⟨hy, by simpa using ⟨hblock, hi⟩⟩) hlt
  · intro hlost i y hy hlt
    obtain ⟨hyp, hcond⟩ := List.mem_filter.mp hy
    simp only [Bool.decide_and, Bool.and_eq_true, decide_eq_true_eq] at hcond
    exact hlost z hz y hyp hcond.1 (by omega) (by omega)

/-- **When the counts of a record are right.** A record on the current block has the counts of the
packets received exactly when no source packet in front of the last one was lost. -/
theorem Tracks.counts_iff (hsource : CountsSource P ds d) :
    SlotCounts (blockPackets P ds b) (populateDecodeInfo P d) ↔
      NothingLost P pkts (blockPackets P ds b) b := by
  rw [← h.nothingLost_iff R hds hb]
  constructor
  · intro hcounts i
    exact (h.nsymb_eq_iff R hds hnodup hb i).mp (hcounts.received i)
  · intro hall
    have hreceived : ∀ i, (d.slotStates i).nsymb = (receivedOf (blockPackets P ds b) i).length :=
      fun i => (h.nsymb_eq_iff R hds hnodup hb i).mpr (hall i)
    refine ⟨hreceived, ?_, fun i => ⟨(h.nsymbcontig i).2, ?_⟩⟩
    · have hsum := sum_countP_eq_countP (l := blockPackets P ds b)
        (f := fun x => x.hdr.iseqStreamid) fun x hx =>
          R.streamid_cases hds (List.mem_filter.mp hx).1
      change ∑ i, (d.slotStates i).nsymb = d.nsrcrcv
      rw [hsource b hb, ← hsum, Nat.cast_sum]
      refine Finset.sum_congr rfl fun i _ => ?_
      rw [hreceived i, receivedOf, List.countP_eq_length_filter]
    · change (d.slotStates i).nsymb ≤ d.nrcv
      rw [hreceived i, h.nrcv_eq R hds hb (hnodup.filter _)]
      exact_mod_cast List.length_filter_le _ _

end State

/-! ### Runs -/

section Step

variable {P : RqParams} {pkts ds : List TxPacket} {x : TxPacket} {d d' : RqDecoder n}
  {evs : List (Event n)} (R : Regime P n pkts) (hK : P.kval < 2 ^ 31)

include R hK

/-- A source packet is counted as one. -/
lemma Regime.receive_nsrcrcv (hx : x ∈ pkts) (hle : d.sbid ≤ x.block P)
    (hrecv : receive P d x.bytes = some (d', evs)) :
    d'.nsrcrcv = if x.hdr.iseqStreamid ≠ -1 then i32 ((d.enter (x.block P)).nsrcrcv + 1)
      else (d.enter (x.block P)).nsrcrcv := by
  obtain ⟨hdr, size, hpeek, hcases⟩ := receive_eq_some hrecv
  have hat := R.headerAt hx
  obtain rfl := R.hdr_eq_of_peek hx hpeek
  rw [R.sbidOf_seqno hx] at hcases
  rcases hcases with ⟨hlt, -, -⟩ | ⟨-, c, slot, evs', hcount, -⟩
  · exact absurd hlt hle.not_gt
  · have hacc := (accepted_count P (d.enter (x.block P)) c slot (esiOf P x.hdr.seqno)).nsrcrcv
    rw [hcount] at hacc
    have hlt := R.seqno_lt hx
    have hlen := R.length
    have hesi : esiOf P x.hdr.seqno = (x.hdr.seqno % P.nval : ℕ) := by
      rw [esiOf, (i32_natCast_eq_iff _).mpr (by omega), (i32_natCast_eq_iff _).mpr R.nval]
      rfl
    have hlt_iff : esiOf P x.hdr.seqno < i32 P.kval ↔ x.hdr.seqno % P.nval < P.kval := by
      rw [hesi, (i32_natCast_eq_iff _).mpr hK, Nat.cast_lt]
    simp only [hlt_iff] at hacc
    rw [hacc]
    by_cases hk : x.hdr.seqno % P.nval < P.kval
    · obtain ⟨i, hi⟩ := hat.source hk
      rw [if_pos hk, if_pos (by omega)]
    · rw [if_neg hk, if_neg (by simpa using hat.repair (not_lt.mp hk))]

variable (hds : ∀ y ∈ ds ++ [x], y ∈ pkts) (hnodup : (ds ++ [x]).Nodup)

include hds hnodup

/-- A counted packet keeps the count of source packets. -/
lemma CountsSource.count (h : Tracks P pkts ds d) (hsource : CountsSource P ds d)
    (hle : d.sbid ≤ x.block P) (hsbid : d'.sbid = x.block P)
    (hrecv : receive P d x.bytes = some (d', evs)) : CountsSource P (ds ++ [x]) d' := by
  have hx : x ∈ pkts := hds x (by simp)
  have hbefore : (d.enter (x.block P)).nsrcrcv =
      (blockPackets P ds (x.block P)).countP fun y => y.hdr.iseqStreamid ≠ -1 := by
    rcases hle.lt_or_eq with hlt | heq
    · rw [blockPackets_eq_nil (h.sbid ▸ hlt), enter, if_pos hlt]
      rfl
    · rw [enter, if_neg heq.not_lt]
      exact hsource _ heq
  have hlen := R.length_blockPackets_le (fun y hy => hds y (List.mem_append_left _ hy))
    (((List.nodup_append.mp hnodup).1).filter _) (b := x.block P)
  have hcount : (blockPackets P ds (x.block P)).countP (fun y => y.hdr.iseqStreamid ≠ -1) ≤
      P.nval := (List.countP_le_length).trans hlen
  have hlast := R.length_blockPackets_le hds (hnodup.filter _) (b := x.block P)
  rw [blockPackets_concat_self, List.length_append, List.length_singleton] at hlast
  have hN := R.nval
  have hle' := List.countP_le_length (p := fun y : TxPacket => decide (y.hdr.iseqStreamid ≠ -1))
    (l := blockPackets P ds (x.block P))
  intro b hb
  obtain rfl : x.block P = b := by
    rw [hsbid] at hb
    exact_mod_cast hb
  rw [R.receive_nsrcrcv hK hx hle hrecv, hbefore, blockPackets_concat_self, List.countP_append,
    List.countP_singleton]
  by_cases hsid : x.hdr.iseqStreamid ≠ -1
  · rw [if_pos hsid, if_pos (decide_eq_true hsid)]
    push_cast
    exact i32_of_range (by omega) (by omega)
  · rw [if_neg hsid, if_neg (by simpa using hsid), add_zero]

omit hds hnodup in
/-- **What a packet reports**, received in order: the counts of each record are those of the packets
received exactly when nothing in front of them was lost. -/
theorem Tracks.record_iff (hsub : (ds ++ [x]).Sublist pkts) (h : Tracks P pkts ds d)
    (hsource : CountsSource P ds d) {info : DecodeInfo n}
    (hinfo : Event.decodeInfo info ∈ (RqDecoder.step P (some d) (.recv x.bytes)).2) :
    SlotCounts (blockPackets P (ds ++ [x]) info.sbid) info ↔
      NothingLost P pkts (blockPackets P (ds ++ [x]) info.sbid) info.sbid := by
  have hmem : ∀ y ∈ ds ++ [x], y ∈ pkts := fun y hy => hsub.subset hy
  have hnodup : (ds ++ [x]).Nodup := R.nodup.sublist hsub
  have hx := hmem x (by simp)
  have hle := h.sbid_le_of_in_order R hsub
  rcases receive_cases R hx d with ⟨hlt, -⟩ | ⟨-, d', evs', hrecv, hC⟩
  · exact absurd hlt (not_lt.mpr hle)
  have hsmall : ∀ y ∈ pkts, u32 (y.block P : ℤ) = y.block P := by
    intro y hy
    have hlt := R.seqno_lt hy
    have hlen := R.length
    exact u32_natCast (lt_of_le_of_lt (Nat.div_le_self _ _) (by omega))
  rw [step_of_receive hrecv] at hinfo
  rcases hC.decodeInfo info hinfo with ⟨h0, hlt, rfl⟩ | ⟨rfl, -⟩
  · -- the block that is left has no packet among the new ones
    obtain ⟨b, hb⟩ := Int.eq_ofNat_of_zero_le h0
    obtain ⟨z, hz, hblock⟩ : ∃ z ∈ ds, z.block P = b := by
      obtain ⟨z, hz, -⟩ := h.exists_last (fun y hy => hmem y (List.mem_append_left _ hy)) hb
      obtain ⟨hzd, hzb⟩ := List.mem_filter.mp hz
      exact ⟨z, hzd, of_decide_eq_true hzb⟩
    have hsbid : (populateDecodeInfo P d).sbid = b := by
      change u32 d.sbid = b
      rw [hb, ← hblock]
      exact hsmall z (hmem z (List.mem_append_left _ hz))
    rw [hsbid, blockPackets_concat_of_ne ds (by omega)]
    exact h.counts_iff R (fun y hy => hmem y (List.mem_append_left _ hy))
      (List.nodup_append.mp hnodup).1 hb hsource
  · have hsbid : (populateDecodeInfo P d').sbid = x.block P := by
      change u32 d'.sbid = x.block P
      rw [hC.sbid]
      exact hsmall x hx
    rw [hsbid]
    exact (h.count R hx hle hC).counts_iff R hmem hnodup hC.sbid
      (hsource.count R hK hmem hnodup h hle hC.sbid hrecv)

end Step

/-- Every in-order run counts the source packets of the current block. -/
theorem countsSource_run {P : RqParams} {pkts ds : List TxPacket} (R : Regime P n pkts)
    (hsub : ds.Sublist pkts) (hK : P.kval < 2 ^ 31) {steps : List (Step n)}
    (hsteps : received steps = ds.map TxPacket.bytes) :
    ∃ d, (RqDecoder.run P steps).1 = some d ∧ Tracks P pkts ds d ∧ CountsSource P ds d := by
  refine run_delivery (I := fun pre d _ => Tracks P pkts pre d ∧ CountsSource P pre d) hsteps
    ⟨tracks_init P pkts, fun b hb => by simp only [RqDecoder.init] at hb; omega⟩ ?_ ?_
  · rintro before pre x d evs - hpre - ⟨h, hsource⟩
    have hsub' : (pre ++ [x]).Sublist pkts := hpre.sublist.trans hsub
    have hx : x ∈ pkts := hsub'.subset (by simp)
    have hle := h.sbid_le_of_in_order R hsub'
    rcases receive_cases R hx d with ⟨hlt, -⟩ | ⟨-, d', evs', hrecv, hC⟩
    · exact absurd hlt (not_lt.mpr hle)
    · exact ⟨d', evs', hrecv, h.count R hx hle hC, hsource.count R hK
        (fun y hy => hsub'.subset hy) (R.nodup.sublist hsub') h hle hC.sbid hrecv⟩
  · rintro pre d evs slot txAvailable ⟨h, hsource⟩
    have hd := sameCounters_tryToSend d slot txAvailable
    exact ⟨h.congr hd, fun b hb => by rw [hd.nsrcrcv]; exact hsource b (hd.sbid ▸ hb)⟩

/-- **When the per-stream counts are those of the packets received.** Along every run of the decoder
on packets of an encoder run, lost but not reordered, whose sequence numbers fit into an `int`: a
record that is emitted when a packet is read has for every stream the number of source packets
received of the block, with the counts adding up and in order, if and only if no source packet of
the block that was sent in front of a packet received of it was lost. -/
theorem slotCounts_iff (P : RqParams) [NeZero n] (hn : n ≤ txSlotCount) (hK : P.kval < 2 ^ 31)
    (hN : P.nval < 2 ^ 31) (calls : List (SendCall n))
    (hwrap : (RqEncoder.sent P calls).length ≤ P.nval * 2 ^ 32) {ds : List TxPacket}
    (hds : ds.Sublist (RqEncoder.sent P calls)) (hseq : ∀ x ∈ ds, x.hdr.seqno < 2 ^ 31)
    (steps : List (Step n)) (hsteps : received steps = ds.map TxPacket.bytes) :
    ∀ pre s, pre ++ [s] <+: steps → ∃ d, (RqDecoder.run P pre).1 = some d ∧
      ∀ info, Event.decodeInfo info ∈ (RqDecoder.step P (some d) s).2 →
        (SlotCounts (blockPackets P (ds.take (received (pre ++ [s])).length) info.sbid) info ↔
          NothingLost P (RqEncoder.sent P calls)
            (blockPackets P (ds.take (received (pre ++ [s])).length) info.sbid) info.sbid) := by
  have hstream := encodedStream_sent hN calls
  have R := regime_early hn hN calls
  have hearly := hstream.sublist_take hwrap hds hseq
  rintro pre s ⟨rest, rfl⟩
  obtain ⟨done, post, rfl, hdone⟩ := exists_prefix_of_received hsteps
  have hdone_sub : done.Sublist ((RqEncoder.sent P calls).take (2 ^ 31)) :=
    (List.sublist_append_left _ _).trans hearly
  have htake : (done ++ post).take (received (pre ++ [s])).length = done := by
    rw [hdone, List.length_map, List.take_left]
  rw [htake]
  cases s with
  | tryToSend slot txAvailable =>
    rw [received_concat_tryToSend] at hdone
    obtain ⟨d, hd, -⟩ := countsSource_run R hdone_sub hK hdone
    refine ⟨d, hd, fun info hinfo => ?_⟩
    obtain ⟨amount, he⟩ := mem_tryToSend hinfo
    cases he
  | recv pkt =>
    obtain ⟨before, x, rfl, hbefore, rfl⟩ := exists_of_received_concat_recv hdone
    obtain ⟨d, hd, h, hsource⟩ :=
      countsSource_run R ((List.sublist_append_left _ _).trans hdone_sub) hK hbefore
    refine ⟨d, hd, fun info hinfo => ?_⟩
    have hgot : ∀ y ∈ blockPackets P (before ++ [x]) info.sbid, y.hdr.seqno < 2 ^ 31 :=
      fun y hy => hseq y (List.mem_append_left _ (List.mem_filter.mp hy).1)
    rw [h.record_iff R hK hdone_sub hsource hinfo, hstream.nothingLost_take_iff hwrap hgot]

/-- All packets of a block of one source packet and one repair packet are delivered. -/
theorem slotCounts_iff_all :
    ∃ (P : RqParams) (calls : List (SendCall 1)) (ds : List TxPacket) (steps : List (Step 1)),
      ds.length = 2 ∧ received steps = ds.map TxPacket.bytes ∧
      ∀ pre s, pre ++ [s] <+: steps → ∃ d, (RqDecoder.run P pre).1 = some d ∧
        ∀ info, Event.decodeInfo info ∈ (RqDecoder.step P (some d) s).2 →
          (SlotCounts (blockPackets P (ds.take (received (pre ++ [s])).length) info.sbid) info ↔
            NothingLost P (RqEncoder.sent P calls)
              (blockPackets P (ds.take (received (pre ++ [s])).length) info.sbid) info.sbid) := by
  let P : RqParams := { kval := 1, nval := 2, tval := 1 }
  let calls := List.replicate 2 (SendCall.ready P 1)
  let steps : List (Step 1) := (RqEncoder.sent P calls).map fun x => .recv x.bytes
  have hsteps : received steps = (RqEncoder.sent P calls).map TxPacket.bytes := by decide +kernel
  exact ⟨P, calls, RqEncoder.sent P calls, steps, by decide +kernel, hsteps,
    slotCounts_iff P (by decide) (by decide) (by decide) calls (by decide +kernel)
      (List.Sublist.refl _) (by decide +kernel) steps hsteps⟩

/-- The counts that the records among events report for a slot. -/
def reportedCounts (evs : List (Event n)) (i : Fin n) : List ℤ :=
  evs.filterMap fun e => match e with
    | .decodeInfo info => some (info.slotinfo i).1
    | _ => none

/-- **A lost source packet is reported as received.** Of a block of two source packets and one
repair packet the first is lost: the record says that two source packets of the stream were
received. -/
theorem not_slotCounts :
    ¬∀ (P : RqParams) (calls : List (SendCall 1)) (ds : List TxPacket) (steps : List (Step 1)),
      ds.Sublist (RqEncoder.sent P calls) → received steps = ds.map TxPacket.bytes →
      ∀ pre s, pre ++ [s] <+: steps → ∀ d, (RqDecoder.run P pre).1 = some d →
        ∀ info, Event.decodeInfo info ∈ (RqDecoder.step P (some d) s).2 →
          SlotCounts (blockPackets P (ds.take (received (pre ++ [s])).length) info.sbid) info := by
  let P : RqParams := { kval := 2, nval := 3, tval := 1 }
  let calls := List.replicate 3 (SendCall.ready P 1)
  let ds := (RqEncoder.sent P calls).drop 1
  let steps : List (Step 1) := ds.map fun x => .recv x.bytes
  intro h
  have hsteps : received steps = ds.map TxPacket.bytes := by decide +kernel
  have hlen : steps.length = 1 + 1 := by decide +kernel
  have hsource : ∀ m b, (receivedOf (blockPackets P (ds.take m) b) (0 : Fin 1)).length ≤ 1 := by
    intro m b
    have hsub : (receivedOf (blockPackets P (ds.take m) b) (0 : Fin 1)).Sublist
        (receivedOf ds (0 : Fin 1)) :=
      (List.filter_sublist.trans (List.take_sublist _ _)).filter _
    exact hsub.length_le.trans (by decide +kernel)
  have hpre : steps.take 1 ++ [steps[1]] <+: steps := by
    rw [← List.take_succ_eq_append_getElem]
    exact List.take_prefix _ _
  have hrecord : (RqDecoder.run P (steps.take 1)).1.map
      (fun d => reportedCounts (RqDecoder.step P (some d) steps[1]).2 0) = some [2] := by
    decide +kernel
  obtain ⟨d, hd, hcounts⟩ := Option.map_eq_some_iff.mp hrecord
  obtain ⟨e, he, hcount⟩ : ∃ e ∈ (RqDecoder.step P (some d) steps[1]).2, ∃ info,
      e = .decodeInfo info ∧ (info.slotinfo 0).1 = 2 := by
    have hmem : (2 : ℤ) ∈ reportedCounts (RqDecoder.step P (some d) steps[1]).2 0 := by
      rw [hcounts]
      exact List.mem_singleton_self 2
    obtain ⟨e, he, hval⟩ := List.mem_filterMap.mp hmem
    cases e with
    | decodeInfo info => exact ⟨_, he, info, rfl, Option.some.inj hval⟩
    | _ => cases hval
  obtain ⟨info, rfl, htwo⟩ := hcount
  obtain ⟨m, b, hm⟩ : ∃ m b, (info.slotinfo 0).1 =
      (receivedOf (blockPackets P (ds.take m) b) (0 : Fin 1)).length :=
    ⟨_, _, (h P calls ds steps (List.drop_sublist 1 _) hsteps _ _ hpre d hd info he).received 0⟩
  have hle := hsource m b
  omega

end MeshSim
