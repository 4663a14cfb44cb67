import MeshSim.Rq.DecodeMoment

/-!
# Packets delivered more than once

The decoder counts every packet of the current source block, whether or not it has received it
before.  As long as no packet of the then-current block is delivered again, the packet counter is
the number of different packets of the block (`DistinctReports`), and a success report stands for
`Kval` of them.  One packet delivered again is counted again (`nrcv_redelivery`), so the absence of
such deliveries is also necessary.
-/

namespace MeshSim

open MachineInt RqDecoder

variable {n : ℕ}

/-- No packet of the then-current source block is delivered again. -/
def NoRedelivery (P : RqParams) (ds : List TxPacket) : Prop :=
  ∀ pre x, pre ++ [x] <+: ds → x ∈ pre → (x.block P : ℤ) ≠ curBlock P pre

/-- The counters and the buffers of two decoders agree. -/
structure Unchanged (d d' : RqDecoder n) : Prop where
  /-- `m_sb_nrcv`. -/
  nrcv : d'.nrcv = d.nrcv
  /-- `m_sb_nsrcrcv`. -/
  nsrcrcv : d'.nsrcrcv = d.nsrcrcv
  /-- Every `m_nsymb`, `m_nsymbcontig` and `m_nbuffered`. -/
  slotStates : ∀ i, d'.slotStates i = d.slotStates i

/-- Along a run that delivers the packets `ds`, delivering again a packet of the current source
block leaves the decoder unchanged. -/
def RedeliveryUnchanged (P : RqParams) (steps : List (Step n)) (ds : List TxPacket) : Prop :=
  ∀ before pre x d d', before ++ [.recv x.bytes] <+: steps → pre ++ [x] <+: ds →
    received before = pre.map TxPacket.bytes → x ∈ pre → (RqDecoder.run P before).1 = some d →
    (x.block P : ℤ) = d.sbid → (RqDecoder.run P (before ++ [.recv x.bytes])).1 = some d' →
    Unchanged d d'

/-- Along a run that delivers the packets `ds`, success is reported for a source block only when at
least `Kval` different packets of the block have been received. -/
def SuccessIsDistinct (P : RqParams) (steps : List (Step n)) (ds : List TxPacket) : Prop :=
  ∀ done pre info, done <+: steps → pre <+: ds → received done = pre.map TxPacket.bytes →
    Event.decodeInfo info ∈ (RqDecoder.run P done).2 → info.success = true →
    P.kval ≤ (blockPackets P pre info.sbid).toFinset.card

/-! ### A packet is counted every time -/

section Redelivery

variable {P : RqParams} {pkts ds : List TxPacket} {d : RqDecoder n}

/-- A packet of the current source block changes the packet counter. -/
lemma nrcv_redelivery (R : Regime P n pkts) {x : TxPacket} (hx : x ∈ pkts)
    (hcur : (x.block P : ℤ) = d.sbid) {d' : RqDecoder n} {evs : List (Event n)}
    (hrecv : receive P d x.bytes = some (d', evs)) : d'.nrcv ≠ d.nrcv := by
  rcases receive_cases R hx d with ⟨hlt, -⟩ | ⟨-, d₁, evs₁, hrecv₁, hC⟩
  · exact absurd hcur hlt.ne
  · rw [hrecv] at hrecv₁
    obtain ⟨rfl, rfl⟩ := Prod.mk.inj (Option.some.inj hrecv₁)
    rw [hC.nrcv, enter, if_neg hcur.le.not_gt]
    exact i32_succ_ne d.nrcv

/-! ### Reports without redelivery -/

/-- The reports of a decoder that has received `ds` without redelivery. -/
structure DistinctReports (P : RqParams) (ds : List TxPacket) (d : RqDecoder n)
    (evs : List (Event n)) : Prop where
  /-- The packets of the current source block are different. -/
  nodup : ∀ b : ℕ, d.sbid = b → (blockPackets P ds b).Nodup
  /-- A success report stands for `Kval` different packets. -/
  success : ∀ info, Event.decodeInfo info ∈ evs → info.success = true →
    P.kval ≤ (blockPackets P ds info.sbid).toFinset.card

/-- More packets contain more different packets. -/
lemma card_blockPackets_mono (P : RqParams) {ds ds' : List TxPacket} (h : ds ⊆ ds') (b : ℕ) :
    (blockPackets P ds b).toFinset.card ≤ (blockPackets P ds' b).toFinset.card := by
  refine Finset.card_le_card fun x hx => ?_
  rw [List.mem_toFinset, blockPackets, List.mem_filter] at hx ⊢
  exact ⟨h hx.1, hx.2⟩

/-- The source block id survives its conversion in the report. -/
lemma Tracks.sbid_report (R : Regime P n pkts) (hds : ∀ x ∈ ds, x ∈ pkts)
    (h : Tracks P pkts ds d) (h0 : 0 ≤ d.sbid) : ((populateDecodeInfo P d).sbid : ℤ) = d.sbid := by
  have hlt : d.sbid < 2 ^ 31 := by
    have hle := R.frontier_le hds
    have hlen := R.length
    rw [h.sbid, curBlock]
    refine (Int.ediv_lt_iff_lt_mul (by exact_mod_cast P.nval_range.1)).mpr ?_
    have hN : (1 : ℤ) ≤ P.nval := by exact_mod_cast P.nval_range.1
    calc (frontier ds : ℤ) - 1 < 2 ^ 31 := by omega
      _ ≤ 2 ^ 31 * P.nval := le_mul_of_one_le_right (by norm_num) hN
  exact u32_of_lt h0 (by omega)

/-- The report of a decoder whose packets of the current source block are different. -/
lemma Tracks.success_report (R : Regime P n pkts) (hds : ∀ x ∈ ds, x ∈ pkts)
    (hK : P.kval < 2 ^ 31) (h : Tracks P pkts ds d) (h0 : 0 ≤ d.sbid)
    (hnodup : ∀ b : ℕ, d.sbid = b → (blockPackets P ds b).Nodup)
    (hsuccess : (populateDecodeInfo P d).success = true) :
    P.kval ≤ (blockPackets P ds (populateDecodeInfo P d).sbid).toFinset.card := by
  have hb := (h.sbid_report R hds h0).symm
  have hnrcv : i32 P.kval ≤ d.nrcv := of_decide_eq_true hsuccess
  rw [(i32_natCast_eq_iff _).mpr hK, h.nrcv_eq R hds hb (hnodup _ hb)] at hnrcv
  rw [List.toFinset_card_of_nodup (hnodup _ hb)]
  exact_mod_cast hnrcv

/-- Without redelivery every run reports success for different packets only. -/
theorem distinctReports_run (R : Regime P n pkts) (hds : ∀ x ∈ ds, x ∈ pkts)
    (hK : P.kval < 2 ^ 31) (hno : NoRedelivery P ds) {steps : List (Step n)}
    (hsteps : received steps = ds.map TxPacket.bytes) :
    ∃ d, (RqDecoder.run P steps).1 = some d ∧ Tracks P pkts ds d ∧
      DistinctReports P ds d (RqDecoder.run P steps).2 := by
  refine run_delivery (I := fun pre d evs => Tracks P pkts pre d ∧ DistinctReports P pre d evs)
    hsteps ⟨tracks_init P pkts, fun b _ => List.nodup_nil, fun _ hinfo => by cases hinfo⟩ ?_ ?_
  · rintro before pre x d evs - hpre - ⟨h, hrep⟩
    have hmem : ∀ y ∈ pre ++ [x], y ∈ pkts := fun y hy => hds y (hpre.subset hy)
    have hmem' : ∀ y ∈ pre, y ∈ pkts := fun y hy => hmem y (List.mem_append_left _ hy)
    have hx : x ∈ pkts := hmem x (by simp)
    have hgrow : ∀ b, (blockPackets P pre b).toFinset.card ≤
        (blockPackets P (pre ++ [x]) b).toFinset.card :=
      card_blockPackets_mono P (List.subset_append_left pre [x])
    rcases receive_cases R hx d with ⟨hlt, hrecv⟩ | ⟨hle, d', evs', hrecv, hC⟩
    · refine ⟨d, _, hrecv, h.discard hlt, fun b hb => ?_, fun info hinfo hsuccess => ?_⟩
      · rw [blockPackets_concat_of_ne pre (by omega)]
        exact hrep.nodup b hb
      · rcases List.mem_append.mp hinfo with hinfo | hinfo
        · exact (hrep.success info hinfo hsuccess).trans (hgrow _)
        · simp at hinfo
    · have htracks := h.count R hx hle hC
      have hnodup : ∀ b : ℕ, d'.sbid = b → (blockPackets P (pre ++ [x]) b).Nodup := by
        intro b hb
        obtain rfl : x.block P = b := by
          rw [hC.sbid] at hb
          exact_mod_cast hb
        rw [blockPackets_concat_self]
        rcases hle.lt_or_eq with hlt | heq
        · rw [blockPackets_eq_nil (h.sbid ▸ hlt)]
          exact List.nodup_singleton x
        · rw [← List.concat_eq_append]
          refine (List.nodup_concat _ _).mpr ⟨fun hxmem => ?_, hrep.nodup _ heq⟩
          exact hno pre x hpre (List.mem_filter.mp hxmem).1 (heq.symm.trans h.sbid)
      refine ⟨d', evs', hrecv, htracks, hnodup, fun info hinfo hsuccess => ?_⟩
      rcases List.mem_append.mp hinfo with hinfo | hinfo
      · exact (hrep.success info hinfo hsuccess).trans (hgrow _)
      · rcases hC.decodeInfo info hinfo with ⟨h0, -, rfl⟩ | ⟨rfl, -⟩
        · exact (h.success_report R hmem' hK h0 hrep.nodup hsuccess).trans (hgrow _)
        · exact htracks.success_report R hmem hK (by rw [hC.sbid]; omega) hnodup hsuccess
  · rintro pre d evs slot txAvailable ⟨h, hrep⟩
    have hd := sameCounters_tryToSend d slot txAvailable
    refine ⟨h.congr hd, fun b hb => hrep.nodup b (hd.sbid ▸ hb), fun info hinfo hsuccess => ?_⟩
    rcases List.mem_append.mp hinfo with hinfo | hinfo
    · exact hrep.success info hinfo hsuccess
    · obtain ⟨amount, he⟩ := mem_tryToSend hinfo
      cases he

end Redelivery

/-! ### When duplicates do not count -/

/-- A part of a delivery without redelivery has none either. -/
lemma NoRedelivery.of_prefix {P : RqParams} {pre ds : List TxPacket} (h : NoRedelivery P ds)
    (hpre : pre <+: ds) : NoRedelivery P pre :=
  fun pre' x hx => h pre' x (hx.trans hpre)

/-- **When duplicates do not count.** Along every run of the decoder on packets of an encoder run,
lost, reordered and duplicated, whose sequence numbers fit into an `int`: delivering a packet of the
current source block again leaves the decoder unchanged, and success is reported only for `Kval`
different packets of a block, exactly when no packet of the then-current block is delivered
again. -/
theorem redelivery_unchanged_iff (P : RqParams) [NeZero n] (hn : n ≤ txSlotCount)
    (hK : P.kval < 2 ^ 31) (hN : P.nval < 2 ^ 31) (calls : List (SendCall n))
    (hwrap : (RqEncoder.sent P calls).length ≤ P.nval * 2 ^ 32) {ds : List TxPacket}
    (hds : ∀ x ∈ ds, x ∈ RqEncoder.sent P calls) (hseq : ∀ x ∈ ds, x.hdr.seqno < 2 ^ 31)
    (steps : List (Step n)) (hsteps : received steps = ds.map TxPacket.bytes) :
    (RedeliveryUnchanged P steps ds ∧ SuccessIsDistinct P steps ds) ↔ NoRedelivery P ds := by
  have R := regime_early hn hN calls
  have hearly : ∀ x ∈ ds, x ∈ (RqEncoder.sent P calls).take (2 ^ 31) :=
    fun x hx => (encodedStream_sent hN calls).mem_take hwrap (hds x hx) (hseq x hx)
  constructor
  · rintro ⟨hsame, -⟩ pre x hpre hxpre hcur
    obtain ⟨before, hbefore, hrecv⟩ := exists_before_of_prefix hsteps hpre
    have hmem : ∀ y ∈ pre ++ [x], y ∈ (RqEncoder.sent P calls).take (2 ^ 31) :=
      fun y hy => hearly y (hpre.subset hy)
    obtain ⟨d, hd, h⟩ := tracks_run R (fun y hy => hmem y (List.mem_append_left _ hy)) hrecv
    obtain ⟨d', evs, hrecv', -⟩ := h.receive R (hmem x (by simp))
    have hsbid : (x.block P : ℤ) = d.sbid := hcur.trans h.sbid.symm
    have hd' : (RqDecoder.run P (before ++ [.recv x.bytes])).1 = some d' := by
      rw [run_concat_recv hd hrecv']
    exact nrcv_redelivery R (hmem x (by simp)) hsbid hrecv'
      (hsame before pre x d d' hbefore hpre hrecv hxpre hd hsbid hd').nrcv
  · intro hno
    constructor
    · intro before pre x d d' hbefore hpre hrecv hxpre hd hsbid _
      obtain ⟨d₀, hd₀, h⟩ := tracks_run R (fun y hy => hearly y
        (hpre.subset (List.mem_append_left _ hy))) hrecv
      obtain rfl : d = d₀ := Option.some.inj (hd.symm.trans hd₀)
      exact absurd (hsbid.trans h.sbid) (hno pre x hpre hxpre)
    · intro done pre info _ hpre hrecv hinfo hsuccess
      obtain ⟨_, -, -, hrep⟩ := distinctReports_run R (fun y hy => hearly y (hpre.subset hy)) hK
        (hno.of_prefix hpre) hrecv
      exact hrep.success info hinfo hsuccess

/-- A source packet and a repair packet, each delivered once. -/
theorem redelivery_unchanged_iff_once :
    ∃ (P : RqParams) (calls : List (SendCall 1)) (steps : List (Step 1)),
      (RqEncoder.sent P calls).length = 2 ∧
      received steps = (RqEncoder.sent P calls).map TxPacket.bytes ∧
      ((RedeliveryUnchanged P steps (RqEncoder.sent P calls) ∧
        SuccessIsDistinct P steps (RqEncoder.sent P calls)) ↔
          NoRedelivery P (RqEncoder.sent P calls)) := by
  let P : RqParams := { kval := 1, nval := 2, tval := 1 }
  let calls := List.replicate 2 (SendCall.ready P 1)
  let steps : List (Step 1) := (RqEncoder.sent P calls).map fun x => .recv x.bytes
  have hsteps : received steps = (RqEncoder.sent P calls).map TxPacket.bytes := by decide +kernel
  exact ⟨P, calls, steps, by decide +kernel, hsteps,
    redelivery_unchanged_iff P (by decide) (by decide) (by decide) calls (by decide +kernel)
      (fun _ hx => hx) (by decide +kernel) steps hsteps⟩

/-- **A packet delivered twice counts twice.** Of a block of two source packets the first one is
delivered twice: the second delivery changes the packet counter, and success is reported for one
packet. -/
theorem not_redelivery_unchanged :
    ∃ (P : RqParams) (calls : List (SendCall 1)) (ds : List TxPacket) (steps : List (Step 1)),
      (∀ x ∈ ds, x ∈ RqEncoder.sent P calls) ∧ received steps = ds.map TxPacket.bytes ∧
      ¬RedeliveryUnchanged P steps ds ∧ ¬SuccessIsDistinct P steps ds := by
  let P : RqParams := { kval := 2, nval := 2, tval := 1 }
  let calls := List.replicate 2 (SendCall.ready P 1)
  let x : TxPacket := (RqEncoder.sent P calls).head (by decide +kernel)
  let ds := [x, x]
  let steps : List (Step 1) := [.recv x.bytes, .recv x.bytes]
  have hsteps : received steps = ds.map TxPacket.bytes := rfl
  refine ⟨P, calls, ds, steps, ?_, hsteps, ?_, ?_⟩
  · intro y hy
    have : y = x := by simpa [ds] using hy
    exact this ▸ List.head_mem _
  · intro h
    obtain ⟨d, hd, hd₀⟩ := Option.map_eq_some_iff.mp
      (show (RqDecoder.run P [.recv x.bytes] : Option (RqDecoder 1) × _).1.map
        (fun d => (d.sbid, d.nrcv)) = some (0, 1) by decide +kernel)
    obtain ⟨d', hd', hd₀'⟩ := Option.map_eq_some_iff.mp
      (show (RqDecoder.run P steps).1.map (fun d => d.nrcv) = some 2 by decide +kernel)
    have hsame := h [.recv x.bytes] [x] x d d' List.prefix_rfl List.prefix_rfl rfl (by simp) hd
      (by rw [(Prod.mk.inj hd₀).1]; decide +kernel) hd'
    have hnrcv := hsame.nrcv
    rw [hd₀', (Prod.mk.inj hd₀).2] at hnrcv
    exact absurd hnrcv (by decide)
  · intro h
    have hreport : ∃ info, Event.decodeInfo info ∈ (RqDecoder.run P steps).2 ∧
        (info.sbid, info.success) = (0, true) := by
      have hlist : (((RqDecoder.run P steps).2.filterMap Event.decodeInfo?).map fun info =>
          (info.sbid, info.success)) = [(0, true)] := by decide +kernel
      have hmem : ((0, true) : ℕ × Bool) ∈
          ((RqDecoder.run P steps).2.filterMap Event.decodeInfo?).map fun info =>
            (info.sbid, info.success) := by
        rw [hlist]
        exact List.mem_singleton_self _
      obtain ⟨info, hinfo, heq⟩ := List.mem_map.mp hmem
      obtain ⟨e, he, hsome⟩ := List.mem_filterMap.mp hinfo
      cases e with
      | decodeInfo info =>
        cases hsome
        exact ⟨info, he, heq⟩
      | _ => cases hsome
    obtain ⟨info, hinfo, heq⟩ := hreport
    have hcard := h steps ds info List.prefix_rfl List.prefix_rfl hsteps hinfo (Prod.mk.inj heq).2
    rw [(Prod.mk.inj heq).1] at hcard
    exact absurd hcard (by decide +kernel)

end MeshSim
