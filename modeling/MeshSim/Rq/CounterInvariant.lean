import MeshSim.Rq.Delivery

/-!
# The counters of the decoder for arbitrary packets

The counters of `RqDecoder` for packets that no encoder need have sent: any sequence numbers, any
counts, any stream ids, in any order and any number of times.  Of the headers received, those of the
current source block determine the counters, and the contiguous symbols never pass the symbol count
(`Counters`).  One packet preserves this (`Counters.counted`), and so does a whole run
(`counters_run`): no amount that is added to a send buffer comes from a negative number of symbols,
and what a source block holds back is released at most once (`counter_invariant`).
-/

namespace MeshSim

open MachineInt RqDecoder

variable {n : ℕ}

namespace RqDecoder

/-! ### What one packet does -/

/-- The packets that are counted have a count for each slot and address a slot state. -/
lemma wellFormed_of_accept {P : RqParams} {d : RqDecoder n} {hdr : RqHeader}
    {r : RqDecoder n × List (Event n)} (h : accept P d hdr = some r) :
    ∃ (c : Fin n → ℤ) (slot : Option (Fin n)),
      hdr.iseqData = List.ofFn c ∧ addressed n hdr.iseqStreamid = some slot := by
  rw [accept] at h
  split at h
  · rename_i hlen
    split at h
    · cases h
    · rename_i slot hslot
      refine ⟨fun i => hdr.iseqData.get (i.cast hlen.symm), slot, ?_, hslot⟩
      refine List.ext_getElem (by simpa using hlen) fun i hi hi' => ?_
      simp
  · cases h

/-- **What a packet can do**, with the counts of its header. -/
theorem receive_accepted {P : RqParams} {d d' : RqDecoder n} {pkt : Packet} {evs : List (Event n)}
    (h : receive P d pkt = some (d', evs)) :
    ∃ hdr size, RqHeader.peek pkt = some (hdr, size) ∧
      ((sbidOf P hdr.seqno < d.sbid ∧ d' = d ∧ evs = [.rxTrace pkt, .discarded]) ∨
        (d.sbid ≤ sbidOf P hdr.seqno ∧ ∃ c slot pre evs', hdr.iseqData = List.ofFn c ∧
          Accepted P (d.enter (sbidOf P hdr.seqno)) slot c (esiOf P hdr.seqno) d' evs' ∧
          evs = .rxTrace pkt :: (pre ++ evs') ∧ (pre = [] ∨ pre = d.leaveBlock P))) := by
  obtain ⟨hdr, size, evs, hpeek, hr, rfl⟩ := exists_decode_of_receive h
  refine ⟨hdr, size, hpeek, ?_⟩
  by_cases hlt : sbidOf P hdr.seqno < d.sbid
  · rw [decode, if_neg hlt.not_gt, if_pos hlt] at hr
    cases hr
    exact Or.inl ⟨hlt, rfl, rfl⟩
  · have hwf : ∃ (c : Fin n → ℤ) (slot : Option (Fin n)), hdr.iseqData = List.ofFn c ∧
        addressed n hdr.iseqStreamid = some slot := by
      rw [decode, if_neg hlt] at hr
      split at hr
      · obtain ⟨s, hs, -⟩ := Option.map_eq_some_iff.mp hr
        exact wellFormed_of_accept hs
      · exact wellFormed_of_accept hr
    obtain ⟨c, slot, hiseq, hslot⟩ := hwf
    rcases decode_cases P d hiseq hslot with ⟨hold, -⟩ | ⟨hle, d', evs', pre, hdec, hacc, hpre⟩
    · exact absurd hold hlt
    · obtain ⟨rfl, rfl⟩ := Prod.mk.inj (Option.some.inj (hr.symm.trans hdec))
      exact Or.inr ⟨hle, c, slot, pre, evs', hiseq, hacc, rfl, hpre.imp_right And.right⟩

/-- The source block of a packet that is counted becomes the current one. -/
lemma enter_sbid {d : RqDecoder n} {b : ℤ} (hle : d.sbid ≤ b) : (d.enter b).sbid = b := by
  unfold enter
  split
  · rfl
  · omega

end RqDecoder

/-! ### The headers received -/

/-- The headers of packets. -/
def headersOf (pkts : List Packet) : List RqHeader :=
  pkts.filterMap fun pkt => (RqHeader.peek pkt).map Prod.fst

/-- The headers of a source block. -/
def blockHeaders (P : RqParams) (hdrs : List RqHeader) (b : ℤ) : List RqHeader :=
  hdrs.filter fun hdr => sbidOf P hdr.seqno = b

/-- The headers of the packets that are not ignored, from the source block `b` on. -/
def acceptedHeaders (P : RqParams) (b : ℤ) : List RqHeader → List RqHeader
  | [] => []
  | hdr :: hdrs =>
    if sbidOf P hdr.seqno < b then acceptedHeaders P b hdrs
    else hdr :: acceptedHeaders P (sbidOf P hdr.seqno) hdrs

/-- The maximum of 0 and all values `iseq[i]` of some headers. -/
def maxIseq (hdrs : List RqHeader) (i : ℕ) : ℤ :=
  (hdrs.map fun hdr => hdr.iseqData.getD i 0).foldl max 0

/-- One more header. -/
lemma maxIseq_concat (hdrs : List RqHeader) (hdr : RqHeader) (i : ℕ) :
    maxIseq (hdrs ++ [hdr]) i = max (maxIseq hdrs i) (hdr.iseqData.getD i 0) := by
  simp [maxIseq]

/-- The packets of a block that no packet is beyond are not ignored. -/
lemma blockHeaders_sublist (P : RqParams) {hdrs : List RqHeader} {b₀ b : ℤ} (hb₀ : b₀ ≤ b)
    (hle : ∀ hdr ∈ hdrs, sbidOf P hdr.seqno ≤ b) :
    (blockHeaders P hdrs b).Sublist (acceptedHeaders P b₀ hdrs) := by
  induction hdrs generalizing b₀ with
  | nil => exact List.Sublist.slnil
  | cons hdr hdrs ih =>
    rw [List.forall_mem_cons] at hle
    rw [acceptedHeaders]
    by_cases hlt : sbidOf P hdr.seqno < b₀
    · rw [if_pos hlt, blockHeaders, List.filter_cons_of_neg (by simpa using (by omega))]
      exact ih hb₀ hle.2
    · have hrest := ih hle.1 hle.2
      rw [if_neg hlt, blockHeaders, List.filter_cons]
      split
      · exact hrest.cons_cons hdr
      · exact hrest.cons hdr

/-- The packets that are not ignored at first are so whatever follows. -/
lemma prefix_acceptedHeaders_append (P : RqParams) (b : ℤ) (hdrs hdrs' : List RqHeader) :
    acceptedHeaders P b hdrs <+: acceptedHeaders P b (hdrs ++ hdrs') := by
  induction hdrs generalizing b with
  | nil => exact List.nil_prefix
  | cons hdr hdrs ih =>
    rw [List.cons_append, acceptedHeaders, acceptedHeaders]
    split
    · exact ih b
    · exact (List.prefix_cons_inj hdr).mpr (ih _)

/-! ### The invariant -/

/-- What the counters are when the headers `hdrs` have been received. -/
structure Counters (P : RqParams) (hdrs : List RqHeader) (d : RqDecoder n) : Prop where
  /-- There is a current source block, or none yet. -/
  start : -1 ≤ d.sbid
  /-- No packet is beyond the current source block. -/
  latest : ∀ hdr ∈ hdrs, sbidOf P hdr.seqno ≤ d.sbid
  /-- The packets of the current block are counted. -/
  nrcv : d.nrcv = (blockHeaders P hdrs d.sbid).length
  /-- The source packets are among them. -/
  nsrcrcv : 0 ≤ d.nsrcrcv ∧ d.nsrcrcv ≤ d.nrcv
  /-- The symbol counts are the maxima of the counts received. -/
  nsymb : ∀ i : Fin n, (d.slotStates i).nsymb = maxIseq (blockHeaders P hdrs d.sbid) i
  /-- The contiguous symbols are among the symbols counted. -/
  nsymbcontig : ∀ i : Fin n, 0 ≤ (d.slotStates i).nsymbcontig ∧
    (d.slotStates i).nsymbcontig ≤ (d.slotStates i).nsymb
  /-- Each contiguous symbol took a packet. -/
  contig_le : ∀ i : Fin n, (d.slotStates i).nsymbcontig ≤ d.nrcv

/-- Counters at zero are right for a source block of which nothing has been received. -/
lemma counters_zero {P : RqParams} {hdrs : List RqHeader} {d : RqDecoder n} (hstart : -1 ≤ d.sbid)
    (hlatest : ∀ hdr ∈ hdrs, sbidOf P hdr.seqno ≤ d.sbid)
    (hnone : blockHeaders P hdrs d.sbid = []) (hnrcv : d.nrcv = 0) (hnsrcrcv : d.nsrcrcv = 0)
    (hslots : ∀ i, (d.slotStates i).nsymb = 0 ∧ (d.slotStates i).nsymbcontig = 0) :
    Counters P hdrs d where
  start := hstart
  latest := hlatest
  nrcv := by rw [hnone, hnrcv, List.length_nil, Nat.cast_zero]
  nsrcrcv := by rw [hnsrcrcv, hnrcv]; exact ⟨le_rfl, le_rfl⟩
  nsymb := fun i => by rw [hnone, (hslots i).1]; rfl
  nsymbcontig := fun i => by rw [(hslots i).1, (hslots i).2]; exact ⟨le_rfl, le_rfl⟩
  contig_le := fun i => by rw [(hslots i).2, hnrcv]

/-- The constructed decoder has received nothing. -/
lemma counters_init (P : RqParams) : Counters P [] (RqDecoder.init n) :=
  counters_zero le_rfl (fun _ hhdr => absurd hhdr List.not_mem_nil) rfl rfl rfl
    fun _ => ⟨rfl, rfl⟩

namespace Counters

variable {P : RqParams} {hdrs : List RqHeader} {hdr : RqHeader} {d d' : RqDecoder n}

/-- Only the counters matter. -/
lemma congr (h : Counters P hdrs d) (hd : SameCounters d d') : Counters P hdrs d' where
  start := hd.sbid ▸ h.start
  latest := hd.sbid ▸ h.latest
  nrcv := by rw [hd.nrcv, hd.sbid, h.nrcv]
  nsrcrcv := by rw [hd.nrcv, hd.nsrcrcv]; exact h.nsrcrcv
  nsymb := fun i => by rw [hd.nsymb, hd.sbid, h.nsymb]
  nsymbcontig := fun i => by rw [hd.nsymbcontig, hd.nsymb]; exact h.nsymbcontig i
  contig_le := fun i => by rw [hd.nsymbcontig, hd.nrcv]; exact h.contig_le i

/-- A packet of an already processed block changes nothing. -/
lemma ignored (h : Counters P hdrs d) (hlt : sbidOf P hdr.seqno < d.sbid) :
    Counters P (hdrs ++ [hdr]) d := by
  have hblock : blockHeaders P (hdrs ++ [hdr]) d.sbid = blockHeaders P hdrs d.sbid := by
    rw [blockHeaders, List.filter_append, List.filter_cons_of_neg (by simpa using hlt.ne),
      List.filter_nil, List.append_nil, blockHeaders]
  refine ⟨h.start, fun x hx => ?_, by rw [hblock]; exact h.nrcv, h.nsrcrcv,
    fun i => by rw [hblock]; exact h.nsymb i, h.nsymbcontig, h.contig_le⟩
  rcases List.mem_append.mp hx with hx | hx
  · exact h.latest x hx
  · rw [List.mem_singleton.mp hx]
    exact hlt.le

/-- Moving to a subsequent block resets the counters. -/
lemma enter (h : Counters P hdrs d) {b : ℤ} (hle : d.sbid ≤ b) : Counters P hdrs (d.enter b) := by
  unfold RqDecoder.enter
  split
  · rename_i hlt
    have hlatest : ∀ x ∈ hdrs, sbidOf P x.seqno ≤ b := fun x hx => (h.latest x hx).trans hle
    have hnone : blockHeaders P hdrs b = [] := by
      refine List.filter_eq_nil_iff.mpr fun x hx => ?_
      have hx := h.latest x hx
      rw [decide_eq_true_eq]
      omega
    exact counters_zero (h.start.trans hle) hlatest hnone rfl rfl fun _ => ⟨rfl, rfl⟩
  · exact h

/-- **One packet.** A packet of the current block preserves the invariant, as long as the number of
packets of the block fits into an `int`. -/
theorem counted (h : Counters P hdrs d) (hblock : d.sbid = sbidOf P hdr.seqno) {c : Fin n → ℤ}
    (hiseq : hdr.iseqData = List.ofFn c) {slot : Option (Fin n)} {esi : ℤ} {evs : List (Event n)}
    (hacc : Accepted P d slot c esi d' evs)
    (hlen : (blockHeaders P (hdrs ++ [hdr]) d.sbid).length < 2 ^ 31) :
    Counters P (hdrs ++ [hdr]) d' := by
  have hconcat : blockHeaders P (hdrs ++ [hdr]) d.sbid = blockHeaders P hdrs d.sbid ++ [hdr] := by
    rw [blockHeaders, List.filter_append, List.filter_cons_of_pos (by simp [hblock]),
      List.filter_nil, blockHeaders]
  have hnrcv := h.nrcv
  rw [hconcat, List.length_append, List.length_singleton] at hlen
  have hnrcv' : d'.nrcv = d.nrcv + 1 := by
    rw [hacc.nrcv, i32_of_range (by omega) (by omega)]
  have hc : ∀ i : Fin n, hdr.iseqData.getD i 0 = c i := by
    intro i
    simp [hiseq]
  have hcontig : ∀ i : Fin n, (d'.slotStates i).nsymbcontig = (d.slotStates i).nsymbcontig ∨
      ((d'.slotStates i).nsymbcontig = (d.slotStates i).nsymbcontig + 1 ∧
        (d'.slotStates i).nsymbcontig = (d'.slotStates i).nsymb) := by
    intro i
    have hbefore := h.nsymbcontig i
    have hfew := h.contig_le i
    rw [hacc.nsymbcontig i]
    split
    · -- the contiguous symbols catch up with the symbol count
      rename_i hrel
      refine Or.inr ⟨i32_of_range (by omega) (by omega), ?_⟩
      rw [hacc.nsymb i]
      exact hrel.2
    · exact Or.inl rfl
  constructor
  · exact hacc.sbid ▸ h.start
  · intro x hx
    rw [hacc.sbid]
    rcases List.mem_append.mp hx with hx | hx
    · exact h.latest x hx
    · rw [List.mem_singleton.mp hx, hblock]
  · rw [hnrcv', hacc.sbid, hconcat, List.length_append, List.length_singleton, hnrcv]
    push_cast
    rfl
  · have hsrc := h.nsrcrcv
    rw [hacc.nsrcrcv, hnrcv']
    split
    · rw [i32_of_range (by omega) (by omega)]
      omega
    · omega
  · intro i
    rw [hacc.nsymb, hacc.sbid, hconcat, maxIseq_concat, hc, h.nsymb]
  · intro i
    have hbefore := h.nsymbcontig i
    have hgrow : (d.slotStates i).nsymb ≤ (d'.slotStates i).nsymb := by
      rw [hacc.nsymb i]
      exact le_max_left _ _
    rcases hcontig i with hsame | ⟨hone, hall⟩ <;> omega
  · intro i
    have hfew := h.contig_le i
    rcases hcontig i with hsame | ⟨hone, -⟩ <;> omega

/-- **Reading a packet** preserves the invariant, as long as the number of packets that are not
ignored fits into an `int`, and releases no negative number of symbols. -/
theorem receive {pkt : Packet} {evs : List (Event n)} (h : Counters P hdrs d)
    (hrecv : RqDecoder.receive P d pkt = some (d', evs))
    (hlen : ∀ hdr size, RqHeader.peek pkt = some (hdr, size) →
      (acceptedHeaders P (-1) (hdrs ++ [hdr])).length < 2 ^ 31) :
    ∃ hdr size, RqHeader.peek pkt = some (hdr, size) ∧ Counters P (hdrs ++ [hdr]) d' ∧
      ∀ b i s, Event.credit b i s ∈ evs → 0 ≤ s := by
  obtain ⟨hdr, size, hpeek, hcases⟩ := receive_accepted hrecv
  refine ⟨hdr, size, hpeek, ?_⟩
  rcases hcases with ⟨hlt, rfl, rfl⟩ | ⟨hle, c, slot, pre, evs', hiseq, hacc, rfl, hpre⟩
  · exact ⟨h.ignored hlt, fun b i s hs => by simp at hs⟩
  · have hsbid := enter_sbid hle
    have hlatest : ∀ x ∈ hdrs ++ [hdr], sbidOf P x.seqno ≤ sbidOf P hdr.seqno := by
      intro x hx
      rcases List.mem_append.mp hx with hx | hx
      · exact (h.latest x hx).trans hle
      · rw [List.mem_singleton.mp hx]
    have hfew := (blockHeaders_sublist P (h.start.trans hle) hlatest).length_le.trans_lt
      (hlen hdr size hpeek)
    have hafter := (h.enter hle).counted hsbid hiseq hacc (hsbid.symm ▸ hfew)
    refine ⟨hafter, fun b i s hs => ?_⟩
    rcases List.mem_cons.mp hs with hs | hs
    · cases hs
    · rcases List.mem_append.mp hs with hs | hs
      · -- the report on the block that is left
        rcases hpre with rfl | rfl
        · cases hs
        · unfold leaveBlock at hs
          split at hs
          · cases List.mem_singleton.mp hs
          · cases hs
      · have hcontig := hafter.nsymbcontig i
        rcases hacc.credit b i s hs with rfl | rfl <;> omega

end Counters

/-! ### Runs -/

/-- The headers of the packets that a run reads. -/
abbrev headers (steps : List (Step n)) : List RqHeader := headersOf (received steps)

/-- One more packet. -/
lemma headers_concat {steps : List (Step n)} {pkt : Packet} {hdr : RqHeader} {size : ℕ}
    (h : RqHeader.peek pkt = some (hdr, size)) :
    headers (steps ++ [.recv pkt]) = headers steps ++ [hdr] := by
  rw [headers, received_concat_recv, headersOf, List.filterMap_append, ← headersOf]
  simp [h]

/-- More steps read more packets. -/
lemma prefix_headers_of_run {pre steps : List (Step n)} (h : pre <+: steps) :
    headers pre <+: headers steps :=
  (h.filterMap _).filterMap _

/-- Fewer packets are not ignored in a part of the run. -/
lemma length_acceptedHeaders_le (P : RqParams) {pre steps : List (Step n)} (h : pre <+: steps) :
    (acceptedHeaders P (-1) (headers pre)).length ≤
      (acceptedHeaders P (-1) (headers steps)).length := by
  obtain ⟨rest, hrest⟩ := prefix_headers_of_run h
  rw [← hrest]
  exact (prefix_acceptedHeaders_append P (-1) (headers pre) rest).length_le

/-- Reading a packet never decreases the source block id. -/
lemma sbid_le_of_receive {P : RqParams} {d d' : RqDecoder n} {pkt : Packet} {evs : List (Event n)}
    (h : receive P d pkt = some (d', evs)) : d.sbid ≤ d'.sbid := by
  obtain ⟨hdr, size, -, ⟨-, rfl, -⟩ | ⟨hle, c, slot, pre, evs', -, hacc, -, -⟩⟩ :=
    receive_accepted h
  · exact le_rfl
  · rw [hacc.sbid, enter_sbid hle]
    exact hle

/-- The packet of a step that does not abort has been received. -/
lemma receive_of_step {P : RqParams} {d d' : RqDecoder n} {pkt : Packet} {evs : List (Event n)}
    (h : step P (some d) (.recv pkt) = (some d', evs)) : receive P d pkt = some (d', evs) := by
  cases hrecv : receive P d pkt with
  | none => simp only [step, hrecv, Prod.mk.injEq, reduceCtorEq, false_and] at h
  | some r =>
    rw [step_of_receive hrecv] at h
    obtain ⟨hd, rfl⟩ := Prod.mk.inj h
    rw [← Option.some.inj hd]

/-- A run that does not abort has not aborted before, and its source block id has not decreased. -/
lemma run_of_append {P : RqParams} {pre post : List (Step n)} {d : RqDecoder n}
    {evs : List (Event n)} (h : RqDecoder.run P (pre ++ post) = (some d, evs)) :
    ∃ d₀ evs₀, RqDecoder.run P pre = (some d₀, evs₀) ∧ d₀.sbid ≤ d.sbid := by
  induction post using List.reverseRecOn generalizing d evs with
  | nil => exact ⟨d, evs, by rwa [List.append_nil] at h, le_rfl⟩
  | append_singleton post s ih =>
    rw [← List.append_assoc] at h
    obtain ⟨d₁, evs₁, evs₂, hrun, hstep, -⟩ := run_concat_eq_some h
    obtain ⟨d₀, evs₀, hpre, hle⟩ := ih hrun
    refine ⟨d₀, evs₀, hpre, hle.trans ?_⟩
    cases s with
    | recv pkt => exact sbid_le_of_receive (receive_of_step hstep)
    | tryToSend slot txAvailable =>
      obtain ⟨hd, -⟩ := Prod.mk.inj hstep
      rw [← Option.some.inj hd]
      exact (sameCounters_tryToSend d₁ slot txAvailable).sbid.ge

/-- **Every run** preserves the invariant and releases no negative number of symbols. -/
theorem counters_run {P : RqParams} {steps : List (Step n)} {d : RqDecoder n}
    {evs : List (Event n)} (hrun : RqDecoder.run P steps = (some d, evs))
    (hlen : (acceptedHeaders P (-1) (headers steps)).length < 2 ^ 31) :
    Counters P (headers steps) d ∧ ∀ b i s, Event.credit b i s ∈ evs → 0 ≤ s := by
  induction steps using List.reverseRecOn generalizing d evs with
  | nil =>
    cases hrun
    exact ⟨counters_init P, fun b i s hs => absurd hs List.not_mem_nil⟩
  | append_singleton steps s ih =>
    obtain ⟨d₀, evs₀, evs₁, hbefore, hstep, rfl⟩ := run_concat_eq_some hrun
    obtain ⟨h, hcredits⟩ := ih hbefore
      ((length_acceptedHeaders_le P (List.prefix_append steps [s])).trans_lt hlen)
    cases s with
    | recv pkt =>
      obtain ⟨hdr, size, hpeek, h', hcredits'⟩ := h.receive (receive_of_step hstep)
        fun hdr size hpeek => by rwa [← headers_concat hpeek]
      refine ⟨by rwa [headers_concat hpeek], fun b i s hs => ?_⟩
      rcases List.mem_append.mp hs with hs | hs
      · exact hcredits b i s hs
      · exact hcredits' b i s hs
    | tryToSend slot txAvailable =>
      obtain ⟨hd, rfl⟩ := Prod.mk.inj hstep
      rw [headers, received_concat_tryToSend, ← Option.some.inj hd]
      refine ⟨h.congr (sameCounters_tryToSend d₀ slot txAvailable), fun b i s hs => ?_⟩
      rcases List.mem_append.mp hs with hs | hs
      · exact hcredits b i s hs
      · exact absurd hs (credit_notMem_tryToSend d₀ slot txAvailable b i s)

/-! ### The release of a source block -/

/-- Behind the steps `pre`, the packet `pkt` is counted in the source block `b`, and the test
`m_sb_nrcv == m_rqkval` succeeds for it. -/
def LumpRelease (P : RqParams) (pre : List (Step n)) (pkt : Packet) (b : ℤ) : Prop :=
  ∃ d d' evs hdr size, (RqDecoder.run P pre).1 = some d ∧ receive P d pkt = some (d', evs) ∧
    RqHeader.peek pkt = some (hdr, size) ∧ d.sbid ≤ sbidOf P hdr.seqno ∧ d'.sbid = b ∧
    d'.nrcv = i32 P.kval

/-- The packet that releases a block is the `Kval`-th of it. -/
lemma LumpRelease.length_eq {P : RqParams} {pre : List (Step n)} {pkt : Packet} {b : ℤ}
    (h : LumpRelease P pre pkt b)
    (hlen : (acceptedHeaders P (-1) (headers (pre ++ [.recv pkt]))).length < 2 ^ 31) :
    ((blockHeaders P (headers (pre ++ [.recv pkt])) b).length : ℤ) = i32 P.kval ∧
      (blockHeaders P (headers (pre ++ [.recv pkt])) b).length =
        (blockHeaders P (headers pre) b).length + 1 := by
  obtain ⟨d, d', evs, hdr, size, hd, hrecv, hpeek, hle, rfl, hk⟩ := h
  have hrun := run_concat_recv hd hrecv
  obtain ⟨hcounters, -⟩ := counters_run hrun hlen
  refine ⟨by rw [← hcounters.nrcv, hk], ?_⟩
  obtain ⟨hdr', size', hpeek', hcases⟩ := receive_accepted hrecv
  obtain ⟨rfl, rfl⟩ := Prod.mk.inj (Option.some.inj (hpeek'.symm.trans hpeek))
  have hblock : sbidOf P hdr'.seqno = d'.sbid := by
    rcases hcases with ⟨hlt, -, -⟩ | ⟨-, c, slot, left, evs', -, hacc, -, -⟩
    · exact absurd hlt hle.not_gt
    · rw [hacc.sbid, enter_sbid hle]
  rw [headers_concat hpeek, blockHeaders, List.filter_append,
    List.filter_cons_of_pos (by simp [hblock]), List.filter_nil, List.length_append,
    List.length_singleton, blockHeaders]

/-- A block is not released by two packets. -/
lemma LumpRelease.not_prefix {P : RqParams} {pre pre' : List (Step n)} {pkt pkt' : Packet} {b : ℤ}
    (h : LumpRelease P pre pkt b) (h' : LumpRelease P pre' pkt' b)
    (hlen : (acceptedHeaders P (-1) (headers (pre' ++ [.recv pkt']))).length < 2 ^ 31) :
    ¬pre ++ [.recv pkt] <+: pre' := by
  intro hpre
  have hpre' : pre ++ [.recv pkt] <+: pre' ++ [.recv pkt'] := hpre.trans (List.prefix_append _ _)
  obtain ⟨hk, -⟩ := h.length_eq ((length_acceptedHeaders_le P hpre').trans_lt hlen)
  obtain ⟨hk', hone⟩ := h'.length_eq hlen
  have hgrow : (blockHeaders P (headers (pre ++ [.recv pkt])) b).length ≤
      (blockHeaders P (headers pre') b).length :=
    ((prefix_headers_of_run hpre).sublist.filter _).length_le
  omega

/-- **The counter invariant.** In every state that a run of the decoder reaches, whatever packets it
has read, when fewer than `2 ^ 31` of them were not ignored: no more symbols of a slot are
contiguous than there are, the symbol count is the maximum of the counts received for the source
block, and no more source packets than packets are counted.  The source block id has never
decreased, each source block was released at most once, and no number of symbols released was
negative. -/
theorem counter_invariant (P : RqParams) (steps : List (Step n)) {d : RqDecoder n}
    (hrun : (RqDecoder.run P steps).1 = some d)
    (hlen : (acceptedHeaders P (-1) (headers steps)).length < 2 ^ 31) :
    (∀ i : Fin n, 0 ≤ (d.slotStates i).nsymbcontig ∧
      (d.slotStates i).nsymbcontig ≤ (d.slotStates i).nsymb ∧
      (d.slotStates i).nsymb = maxIseq (blockHeaders P (headers steps) d.sbid) i) ∧
    (0 ≤ d.nsrcrcv ∧ d.nsrcrcv ≤ d.nrcv) ∧
    (∀ pre, pre <+: steps → ∃ d₀, (RqDecoder.run P pre).1 = some d₀ ∧ d₀.sbid ≤ d.sbid) ∧
    (∀ pre pkt pre' pkt' b, pre ++ [.recv pkt] <+: steps → pre' ++ [.recv pkt'] <+: steps →
      LumpRelease P pre pkt b → LumpRelease P pre' pkt' b → pre = pre') ∧
    ∀ b i s, Event.credit b i s ∈ (RqDecoder.run P steps).2 → 0 ≤ s := by
  have hrun' : RqDecoder.run P steps = (some d, (RqDecoder.run P steps).2) := Prod.ext hrun rfl
  obtain ⟨hcounters, hcredits⟩ := counters_run hrun' hlen
  refine ⟨fun i => ?_, hcounters.nsrcrcv, fun pre hpre => ?_, ?_, hcredits⟩
  · obtain ⟨hnonneg, hle⟩ := hcounters.nsymbcontig i
    exact ⟨hnonneg, hle, hcounters.nsymb i⟩
  · obtain ⟨post, rfl⟩ := hpre
    obtain ⟨d₀, evs₀, hbefore, hle⟩ := run_of_append hrun'
    exact ⟨d₀, congrArg Prod.fst hbefore, hle⟩
  · -- of two packets, the steps before one of them include the other
    intro pre pkt pre' pkt' b hpre hpre' h h'
    have hbound := (length_acceptedHeaders_le P hpre).trans_lt hlen
    have hbound' := (length_acceptedHeaders_le P hpre').trans_lt hlen
    have hnot := h.not_prefix h' hbound'
    have hnot' := h'.not_prefix h hbound
    rcases lt_trichotomy pre.length pre'.length with hlt | heq | hlt
    · refine absurd (List.prefix_of_prefix_length_le hpre
        ((List.prefix_append _ _).trans hpre') ?_) hnot
      simpa using hlt
    · exact List.IsPrefix.eq_of_length (List.prefix_of_prefix_length_le
        ((List.prefix_append _ _).trans hpre) ((List.prefix_append _ _).trans hpre') heq.le) heq
    · refine absurd (List.prefix_of_prefix_length_le hpre'
        ((List.prefix_append _ _).trans hpre) ?_) hnot'
      simpa using hlt

/-- A packet of the second source block arrives before two copies of one of the first, and a count
is far beyond what was received. -/
theorem counter_invariant_reordered :
    ∃ (P : RqParams) (steps : List (Step 1)) (d : RqDecoder 1),
      (RqDecoder.run P steps).1 = some d ∧ (d.slotStates 0).nsymbcontig ≤ (d.slotStates 0).nsymb ∧
      (d.slotStates 0).nsymb = 1000 ∧ d.sbid = 1 := by
  let P : RqParams := { kval := 1, nval := 2, tval := 1 }
  let hdrs := [RqHeader.ofStream 2 0 [7], RqHeader.ofStream 0 0 [1], RqHeader.ofStream 0 0 [1],
    RqHeader.ofStream 3 (-1) [1000]]
  let steps : List (Step 1) := hdrs.map fun hdr => .recv hdr.serialize
  obtain ⟨d, hd, hsbid⟩ := Option.map_eq_some_iff.mp
    (show (RqDecoder.run P steps).1.map RqDecoder.sbid = some 1 by decide +kernel)
  obtain ⟨-, hle, hmax⟩ := (counter_invariant P steps hd (by decide +kernel)).1 0
  rw [hsbid] at hmax
  exact ⟨P, steps, d, hd, hle, hmax.trans (by decide +kernel), hsbid⟩

end MeshSim
