import MeshSim.Foundation.LastPerKey
import MeshSim.Foundation.PythonText
import MeshSim.Rq.Decoder

/-!
# The decode trace

`sim/app_rq_dec_cb.cc`: the callback that writes what the decoder reports on its decoding trace to a
file.  The decoder reports on a source block when its `Kval`-th packet is counted, and again when
the block is left; the callback keeps the last report in a cache of one entry, which it writes when
a report on another block arrives, and in its destructor.

What the file holds is stated in terms of the sequence numbers received (`IsTraceLine`): a packet is
accepted unless a packet of a later source block was received before it.  The file has one line for
each block that was left, and one for the last block once it is decoded.
-/

namespace MeshSim

open MachineInt PythonText

variable {n : ℕ}

/-! ### The callback -/

/-- `print_decinfo`. -/
def printDecinfo (I : DecodeInfo n) : List Char :=
  line [formatLong (i32 I.sbid), formatLong (if I.success then 1 else 0), formatLong I.nRcv,
    formatLong I.nSrcRcv]

/-- The members of `AppRqDecCb`. -/
structure AppRqDecCb (n : ℕ) where
  /-- What was written to `fp`. -/
  fp : List Char
  /-- `C`, if `has_cached`. -/
  cached : Option (DecodeInfo n)

namespace AppRqDecCb

/-- `AppRqDecCb::AppRqDecCb`. -/
def init : AppRqDecCb n where
  fp := []
  cached := none

/-- `rqDecCb`. -/
def rqDecCb (S : AppRqDecCb n) (I : DecodeInfo n) : AppRqDecCb n where
  fp := match S.cached with
    | none => S.fp
    | some C => if C.sbid = I.sbid then S.fp else S.fp ++ printDecinfo C
  cached := some I

/-- `AppRqDecCb::~AppRqDecCb`: what the file holds in the end. -/
def destroy (S : AppRqDecCb n) : List Char :=
  match S.cached with
  | none => S.fp
  | some C => S.fp ++ printDecinfo C

/-- The callback is a cache of one report in front of a log. -/
lemma destroy_foldl_rqDecCb (infos : List (DecodeInfo n)) :
    (infos.foldl rqDecCb init).destroy =
      (infos.foldl (LastPerKey.push DecodeInfo.sbid) []).flatMap printDecinfo := by
  rw [← LastPerKey.Cache.flush_foldl_record]
  suffices h : ∀ c : LastPerKey.Cache (DecodeInfo n),
      infos.foldl rqDecCb ⟨c.log.flatMap printDecinfo, c.cached⟩ =
        ⟨(infos.foldl (LastPerKey.Cache.record DecodeInfo.sbid) c).log.flatMap printDecinfo,
          (infos.foldl (LastPerKey.Cache.record DecodeInfo.sbid) c).cached⟩ by
    have hinit := h LastPerKey.Cache.empty
    have hempty : (⟨(LastPerKey.Cache.empty : LastPerKey.Cache (DecodeInfo n)).log.flatMap
        printDecinfo, LastPerKey.Cache.empty.cached⟩ : AppRqDecCb n) = init := rfl
    rw [hempty] at hinit
    rw [hinit, LastPerKey.Cache.flush, List.flatMap_append, destroy]
    cases (infos.foldl (LastPerKey.Cache.record DecodeInfo.sbid) LastPerKey.Cache.empty).cached with
    | none => exact (List.append_nil _).symm
    | some C => simp
  induction infos with
  | nil => exact fun _ => rfl
  | cons I infos ih =>
    rintro ⟨log, cached⟩
    rw [List.foldl_cons, List.foldl_cons, ← ih]
    congr 1
    cases cached with
    | none => rfl
    | some C =>
      simp only [rqDecCb, LastPerKey.Cache.record]
      split <;> simp

end AppRqDecCb

/-- The file that a callback attached to the decoder has written when it is destroyed. -/
def decodeTrace (P : RqParams) (steps : List (RqDecoder.Step n)) : List Char :=
  (((RqDecoder.run P steps).2.filterMap RqDecoder.Event.decodeInfo?).foldl AppRqDecCb.rqDecCb
    AppRqDecCb.init).destroy

/-! ### What the file should hold -/

/-- The sequence numbers of packets. -/
def seqnos (pkts : List Packet) : List ℕ :=
  pkts.filterMap fun pkt => (RqHeader.peek pkt).map fun r => r.1.seqno

/-- The sequence numbers of the packets that are accepted: no packet of a later source block was
accepted before. -/
def accepted (N : ℕ) (qs : List ℕ) : List ℕ :=
  qs.foldl (fun acc q => if ∀ a ∈ acc, a / N ≤ q / N then acc ++ [q] else acc) []

/-- The sequence numbers of the packets accepted for a source block. -/
def acceptedFor (N : ℕ) (qs : List ℕ) (b : ℕ) : List ℕ :=
  (accepted N qs).filter fun q => q / N = b

/-- The source block of the latest packet, and `-1` when there is none. -/
def latestBlock (N : ℕ) (qs : List ℕ) : ℤ := qs.foldl (fun b q => max b ((q / N : ℕ) : ℤ)) (-1)

/-- A line of the file. -/
@[ext] structure TraceLine where
  /-- The source block id. -/
  sbid : ℕ
  /-- Decoding success. -/
  success : Bool
  /-- The packets received. -/
  nRcv : ℤ
  /-- The source packets received. -/
  nSrcRcv : ℤ
deriving DecidableEq

/-- The text of a line. -/
def TraceLine.text (l : TraceLine) : List Char :=
  line [formatLong l.sbid, formatLong (if l.success then 1 else 0), formatLong l.nRcv,
    formatLong l.nSrcRcv]

/-- The line on a source block of which the packets with certain sequence numbers were accepted. -/
def TraceLine.ofPackets (P : RqParams) (b : ℕ) (qs : List ℕ) : TraceLine where
  sbid := b
  success := decide (P.kval ≤ qs.length)
  nRcv := qs.length
  nSrcRcv := (qs.filter fun q => q % P.nval < P.kval).length

/-- The lines of the file: for each source block that was left a line with all packets accepted for
it, and for the last one, once `Kval` packets of it were accepted, a line with these. -/
def IsTraceLine (P : RqParams) (qs : List ℕ) (l : TraceLine) : Prop :=
  acceptedFor P.nval qs l.sbid ≠ [] ∧
    if (l.sbid : ℤ) < latestBlock P.nval qs then
      l = .ofPackets P l.sbid (acceptedFor P.nval qs l.sbid)
    else
      P.kval ≤ (acceptedFor P.nval qs l.sbid).length ∧
        l = .ofPackets P l.sbid ((acceptedFor P.nval qs l.sbid).take P.kval)

/-! ### Accepted packets -/

section Accepted

variable (N : ℕ) (qs : List ℕ) (q : ℕ)

/-- One more packet may move the latest block. -/
lemma latestBlock_concat :
    latestBlock N (qs ++ [q]) = max (latestBlock N qs) ((q / N : ℕ) : ℤ) := by
  rw [latestBlock, List.foldl_append]
  rfl

/-- One more packet may be accepted. -/
lemma accepted_concat : accepted N (qs ++ [q]) =
    if ∀ a ∈ accepted N qs, a / N ≤ q / N then accepted N qs ++ [q] else accepted N qs := by
  rw [accepted, List.foldl_append]
  rfl

/-- No more packets are accepted than received. -/
lemma length_accepted_le : (accepted N qs).length ≤ qs.length := by
  induction qs using List.reverseRecOn with
  | nil => exact le_rfl
  | append_singleton qs q ih =>
    rw [accepted_concat, List.length_append, List.length_singleton]
    split
    · rw [List.length_append, List.length_singleton]
      omega
    · omega

/-- Accepted packets were received. -/
lemma mem_of_mem_accepted {a : ℕ} (ha : a ∈ accepted N qs) : a ∈ qs := by
  induction qs using List.reverseRecOn with
  | nil => exact ha
  | append_singleton qs q ih =>
    rw [accepted_concat] at ha
    split at ha
    · rcases List.mem_append.mp ha with ha | ha
      · exact List.mem_append_left _ (ih ha)
      · exact List.mem_append_right _ ha
    · exact List.mem_append_left _ (ih ha)

/-- The latest block is the latest one of the accepted packets. -/
lemma latestBlock_le_iff (b : ℕ) : latestBlock N qs ≤ b ↔ ∀ a ∈ accepted N qs, a / N ≤ b := by
  induction qs using List.reverseRecOn with
  | nil =>
    refine iff_of_true ?_ fun a ha => (List.not_mem_nil ha).elim
    change (-1 : ℤ) ≤ b
    omega
  | append_singleton qs q ih =>
    rw [latestBlock_concat, max_le_iff, ih, Nat.cast_le, accepted_concat]
    split
    · rw [List.forall_mem_append, List.forall_mem_singleton]
    · rename_i hsome
      push Not at hsome
      obtain ⟨a, ha, hlt⟩ := hsome
      exact ⟨fun h => h.1, fun h => ⟨h, hlt.le.trans (h a ha)⟩⟩

/-- A packet of an earlier block is not accepted. -/
lemma accepted_concat_of_lt (h : ((q / N : ℕ) : ℤ) < latestBlock N qs) :
    accepted N (qs ++ [q]) = accepted N qs ∧ latestBlock N (qs ++ [q]) = latestBlock N qs := by
  rw [accepted_concat, latestBlock_concat, max_eq_left h.le, if_neg]
  · exact ⟨rfl, rfl⟩
  · rw [← latestBlock_le_iff]
    exact not_le.mpr h

/-- A packet of the latest block or of a later one is accepted. -/
lemma accepted_concat_of_le (h : latestBlock N qs ≤ ((q / N : ℕ) : ℤ)) :
    accepted N (qs ++ [q]) = accepted N qs ++ [q] ∧
      latestBlock N (qs ++ [q]) = ((q / N : ℕ) : ℤ) := by
  rw [accepted_concat, latestBlock_concat, max_eq_right h,
    if_pos ((latestBlock_le_iff N qs _).mp h)]
  exact ⟨rfl, rfl⟩

/-- Some packet of the latest block was accepted. -/
lemma acceptedFor_latestBlock {b : ℕ} (h : latestBlock N qs = b) : acceptedFor N qs b ≠ [] := by
  induction qs using List.reverseRecOn with
  | nil =>
    change (-1 : ℤ) = b at h
    omega
  | append_singleton qs q ih =>
    rcases lt_or_ge ((q / N : ℕ) : ℤ) (latestBlock N qs) with hlt | hle
    · obtain ⟨hacc, hlatest⟩ := accepted_concat_of_lt N qs q hlt
      rw [acceptedFor, hacc]
      exact ih (hlatest ▸ h)
    · obtain ⟨hacc, hlatest⟩ := accepted_concat_of_le N qs q hle
      have hb : q / N = b := by
        rw [hlatest] at h
        exact_mod_cast h
      rw [acceptedFor, hacc, List.filter_append, List.filter_singleton, decide_eq_true hb]
      exact List.append_ne_nil_of_right_ne_nil _ (List.cons_ne_nil q [])

/-- No packet received is of a block behind the latest one. -/
lemma block_le_latestBlock {a : ℕ} (ha : a ∈ qs) : ((a / N : ℕ) : ℤ) ≤ latestBlock N qs := by
  induction qs using List.reverseRecOn with
  | nil => cases ha
  | append_singleton qs q ih =>
    rw [latestBlock_concat]
    rcases List.mem_append.mp ha with ha | ha
    · exact le_max_of_le_left (ih ha)
    · rw [List.mem_singleton.mp ha]
      exact le_max_right _ _

/-- No packet of a block behind the latest one was accepted. -/
lemma acceptedFor_eq_nil {b : ℕ} (h : latestBlock N qs < b) : acceptedFor N qs b = [] := by
  refine List.filter_eq_nil_iff.mpr fun a ha hab => ?_
  have hle := block_le_latestBlock N qs (mem_of_mem_accepted N qs ha)
  rw [of_decide_eq_true hab] at hle
  exact absurd h (not_lt.mpr hle)

/-- One more packet is accepted for its own block only. -/
lemma acceptedFor_concat (h : latestBlock N qs ≤ ((q / N : ℕ) : ℤ)) (b : ℕ) :
    acceptedFor N (qs ++ [q]) b =
      if b = q / N then acceptedFor N qs b ++ [q] else acceptedFor N qs b := by
  rw [acceptedFor, (accepted_concat_of_le N qs q h).1, List.filter_append, List.filter_singleton]
  by_cases hb : q / N = b
  · rw [decide_eq_true hb, if_pos hb.symm]
    rfl
  · rw [decide_eq_false hb, if_neg (Ne.symm hb)]
    exact List.append_nil _

end Accepted

/-! ### One more packet -/

section Concat

variable {P : RqParams} {qs : List ℕ} {q : ℕ} (l : TraceLine)

/-- A packet of an earlier block changes no line. -/
lemma isTraceLine_concat_of_lt (h : ((q / P.nval : ℕ) : ℤ) < latestBlock P.nval qs) :
    IsTraceLine P (qs ++ [q]) l ↔ IsTraceLine P qs l := by
  obtain ⟨hacc, hlatest⟩ := accepted_concat_of_lt P.nval qs q h
  have hfor : acceptedFor P.nval (qs ++ [q]) l.sbid = acceptedFor P.nval qs l.sbid := by
    rw [acceptedFor, hacc, acceptedFor]
  rw [IsTraceLine, IsTraceLine, hfor, hlatest]

/-- The line of the latest block, or of a later one: that with its first `Kval` packets. -/
lemma isTraceLine_iff_of_le (h : latestBlock P.nval qs ≤ l.sbid) :
    IsTraceLine P qs l ↔ P.kval ≤ (acceptedFor P.nval qs l.sbid).length ∧
      l = .ofPackets P l.sbid ((acceptedFor P.nval qs l.sbid).take P.kval) := by
  rw [IsTraceLine, if_neg (not_lt.mpr h)]
  refine and_iff_right_of_imp fun ⟨hlen, _⟩ hnil => ?_
  rw [hnil, List.length_nil] at hlen
  exact absurd P.kval_range.1 (by omega)

/-- The lines of other blocks stay when the packet is of the latest block. -/
lemma isTraceLine_concat_of_eq (h : latestBlock P.nval qs = ((q / P.nval : ℕ) : ℤ))
    (hl : l.sbid ≠ q / P.nval) : IsTraceLine P (qs ++ [q]) l ↔ IsTraceLine P qs l := by
  rw [IsTraceLine, IsTraceLine, acceptedFor_concat _ _ _ h.le, if_neg hl,
    (accepted_concat_of_le _ _ _ h.le).2, h]

/-- The line of the latest block when the packet is of a later one: that with all its packets. -/
lemma isTraceLine_concat_latest (h : latestBlock P.nval qs < ((q / P.nval : ℕ) : ℤ))
    (hl : latestBlock P.nval qs = l.sbid) :
    IsTraceLine P (qs ++ [q]) l ↔ l = .ofPackets P l.sbid (acceptedFor P.nval qs l.sbid) := by
  have hne : l.sbid ≠ q / P.nval := by
    rintro heq
    rw [hl, heq] at h
    exact lt_irrefl _ h
  rw [IsTraceLine, acceptedFor_concat _ _ _ h.le, if_neg hne, (accepted_concat_of_le _ _ _ h.le).2,
    if_pos (hl ▸ h)]
  exact and_iff_right (acceptedFor_latestBlock _ _ hl)

/-- The lines of other blocks stay when the packet is of a later block. -/
lemma isTraceLine_concat_of_ne (h : latestBlock P.nval qs < ((q / P.nval : ℕ) : ℤ))
    (hl : l.sbid ≠ q / P.nval) (hlatest : latestBlock P.nval qs ≠ l.sbid) :
    IsTraceLine P (qs ++ [q]) l ↔ IsTraceLine P qs l := by
  rw [IsTraceLine, IsTraceLine, acceptedFor_concat _ _ _ h.le, if_neg hl,
    (accepted_concat_of_le _ _ _ h.le).2]
  rcases lt_or_gt_of_ne hlatest with hlt | hgt
  · rw [acceptedFor_eq_nil _ _ hlt]
    exact iff_of_false (fun h => h.1 rfl) fun h => h.1 rfl
  · rw [if_pos hgt, if_pos (hgt.trans h)]

/-- The lines in between, when a packet of a later block has arrived and is not counted yet: the
line with all packets of the block that is left comes in place of the one there was. -/
lemma isTraceLine_leave_iff {b : ℕ} (hb : latestBlock P.nval qs = b) (hlt : b < q / P.nval) :
    (l = .ofPackets P b (acceptedFor P.nval qs b) ∨ IsTraceLine P qs l ∧ l.sbid ≠ b) ↔
      if l.sbid = q / P.nval then IsTraceLine P qs l else IsTraceLine P (qs ++ [q]) l := by
  have hlatest : latestBlock P.nval qs < ((q / P.nval : ℕ) : ℤ) := by
    rw [hb]
    exact_mod_cast hlt
  split
  · rename_i hl
    have hnot : ¬ IsTraceLine P qs l := by
      intro hline
      refine hline.1 (acceptedFor_eq_nil _ _ ?_)
      rw [hl]
      exact hlatest
    refine iff_of_false ?_ hnot
    rintro (rfl | ⟨hline, -⟩)
    · exact absurd hl hlt.ne
    · exact hnot hline
  · rename_i hl
    by_cases hlb : l.sbid = b
    · rw [isTraceLine_concat_latest l hlatest (by rw [hb, hlb]), hlb]
      exact or_iff_left fun h => h.2 rfl
    · rw [isTraceLine_concat_of_ne l hlatest hl (by rw [hb]; exact_mod_cast Ne.symm hlb)]
      constructor
      · rintro (rfl | ⟨hline, -⟩)
        · exact absurd rfl hlb
        · exact hline
      · exact fun hline => Or.inr ⟨hline, hlb⟩

/-- The line of the latest block behind a packet for it. -/
lemma isTraceLine_concat_self (h : latestBlock P.nval qs ≤ ((q / P.nval : ℕ) : ℤ))
    (hl : l.sbid = q / P.nval) : IsTraceLine P (qs ++ [q]) l ↔
      P.kval ≤ (acceptedFor P.nval qs (q / P.nval)).length + 1 ∧
        l = .ofPackets P (q / P.nval)
          ((acceptedFor P.nval qs (q / P.nval) ++ [q]).take P.kval) := by
  rw [isTraceLine_iff_of_le l (by rw [(accepted_concat_of_le _ _ _ h).2, hl]),
    acceptedFor_concat _ _ _ h, if_pos hl, hl, List.length_append]
  rfl

/-- The lines when the packet is the `Kval`-th of the latest block: its line comes in. -/
lemma isTraceLine_decoded_iff (h : latestBlock P.nval qs ≤ ((q / P.nval : ℕ) : ℤ))
    (hdecode : (acceptedFor P.nval qs (q / P.nval)).length + 1 = P.kval) :
    (l = .ofPackets P (q / P.nval) (acceptedFor P.nval qs (q / P.nval) ++ [q]) ∨
      (if l.sbid = q / P.nval then IsTraceLine P qs l else IsTraceLine P (qs ++ [q]) l) ∧
        l.sbid ≠ q / P.nval) ↔ IsTraceLine P (qs ++ [q]) l := by
  have hlen : (acceptedFor P.nval qs (q / P.nval) ++ [q]).length = P.kval := by
    rw [List.length_append, ← hdecode]
    rfl
  by_cases hl : l.sbid = q / P.nval
  · rw [isTraceLine_concat_self l h hl, List.take_of_length_le hlen.le]
    exact ⟨fun hor => ⟨hdecode.ge, hor.resolve_right fun h => h.2 hl⟩, fun h => Or.inl h.2⟩
  · rw [if_neg hl]
    constructor
    · rintro (rfl | ⟨hline, -⟩)
      · exact absurd rfl hl
      · exact hline
    · exact fun hline => Or.inr ⟨hline, hl⟩

/-- The lines when the packet is another one of the latest block: its line stays as it is, if there
is one. -/
lemma isTraceLine_counted_iff (h : latestBlock P.nval qs ≤ ((q / P.nval : ℕ) : ℤ))
    (hdecode : (acceptedFor P.nval qs (q / P.nval)).length + 1 ≠ P.kval) :
    (if l.sbid = q / P.nval then IsTraceLine P qs l else IsTraceLine P (qs ++ [q]) l) ↔
      IsTraceLine P (qs ++ [q]) l := by
  split
  · rename_i hl
    rw [isTraceLine_concat_self l h hl, isTraceLine_iff_of_le l (by rw [hl]; exact h), hl]
    by_cases hlen : P.kval ≤ (acceptedFor P.nval qs (q / P.nval)).length
    · rw [List.take_append_of_le_length hlen]
      exact and_congr_left fun _ => iff_of_true hlen (by omega)
    · exact iff_of_false (fun h => hlen h.1) fun h => absurd h.1 (by omega)
  · exact Iff.rfl

end Concat

/-! ### What the decoder reports -/

namespace RqDecoder

/-- The reports among events. -/
def reports (evs : List (Event n)) : List (DecodeInfo n) := evs.filterMap Event.decodeInfo?

/-- Reports of a concatenation of events. -/
@[simp] lemma reports_append (evs evs' : List (Event n)) :
    reports (evs ++ evs') = reports evs ++ reports evs' :=
  List.filterMap_append

/-- The trace of a packet reports nothing. -/
@[simp] lemma reports_rxTrace (pkt : Packet) (evs : List (Event n)) :
    reports (.rxTrace pkt :: evs) = reports evs := rfl

/-- The early release reports nothing. -/
lemma reports_releaseContig (P : RqParams) (d : RqDecoder n) (slot : Option (Fin n)) :
    reports (releaseContig P d slot).2 = [] := by
  refine List.filterMap_eq_nil_iff.mpr fun e he => ?_
  obtain ⟨i, rfl⟩ := mem_releaseContig P d he
  rfl

/-- The release of a block reports on it at its `Kval`-th packet. -/
lemma reports_releaseBlock (P : RqParams) (d : RqDecoder n) :
    reports (releaseBlock P d).2 =
      if d.nrcv = i32 P.kval then [populateDecodeInfo P (releaseBlock P d).1] else [] := by
  unfold releaseBlock
  split
  · have hcredits : ∀ f : Fin n → Event n, (∀ i, (f i).decodeInfo? = none) →
        reports (List.ofFn f) = [] := by
      intro f hf
      refine List.filterMap_eq_nil_iff.mpr fun e he => ?_
      obtain ⟨i, rfl⟩ := List.mem_ofFn.mp he
      exact hf i
    rw [reports_append, hcredits _ fun _ => rfl]
    rfl
  · rfl

/-- Counting a packet reports on its block at its `Kval`-th packet. -/
lemma reports_count (P : RqParams) (d : RqDecoder n) (c : Fin n → ℤ) (slot : Option (Fin n))
    (esi : ℤ) : reports (count P d c slot esi).2 =
      if (count P d c slot esi).1.nrcv = i32 P.kval then
        [populateDecodeInfo P (count P d c slot esi).1]
      else [] := by
  have hevs : (count P d c slot esi).2 = (releaseContig P (d.raiseNsymb c) slot).2 ++
      (releaseBlock P ((releaseContig P (d.raiseNsymb c) slot).1.countSymbol P esi)).2 := rfl
  rw [hevs, reports_append, reports_releaseContig, reports_releaseBlock, List.nil_append]
  have hcount : (count P d c slot esi).1 =
      (releaseBlock P ((releaseContig P (d.raiseNsymb c) slot).1.countSymbol P esi)).1 := rfl
  rw [hcount, (releaseBlock_counters P _).2.1]

end RqDecoder

/-! ### The invariant -/

open RqDecoder

/-- A report as a line. -/
def DecodeInfo.toLine (I : DecodeInfo n) : TraceLine where
  sbid := I.sbid
  success := I.success
  nRcv := I.nRcv
  nSrcRcv := I.nSrcRcv

/-- A report is printed as its line, as long as the source block id is an `int`. -/
lemma printDecinfo_eq {I : DecodeInfo n} (h : I.sbid < 2 ^ 31) :
    printDecinfo I = I.toLine.text := by
  rw [printDecinfo, i32_of_range (by omega) (by omega), TraceLine.text]
  rfl

/-- The report of a decoder that has counted certain packets for its source block. -/
lemma toLine_populateDecodeInfo {P : RqParams} (hK : P.kval < 2 ^ 31) {d : RqDecoder n} {b : ℕ}
    {acc : List ℕ} (hb : d.sbid = b) (hlt : b < 2 ^ 31) (hnrcv : d.nrcv = acc.length)
    (hnsrcrcv : d.nsrcrcv = (acc.filter fun q => q % P.nval < P.kval).length) :
    (populateDecodeInfo P d).toLine = .ofPackets P b acc := by
  have hkval : i32 (P.kval : ℤ) = P.kval := i32_of_range (by omega) (by omega)
  ext
  · change u32 d.sbid = b
    rw [hb, u32_natCast (by omega)]
  · change decide (i32 P.kval ≤ d.nrcv) = decide (P.kval ≤ acc.length)
    rw [decide_eq_decide, hkval, hnrcv, Nat.cast_le]
  · exact hnrcv
  · exact hnsrcrcv

/-- The lines that reports leave behind. -/
def linesOf (infos : List (DecodeInfo n)) : List TraceLine :=
  (infos.map DecodeInfo.toLine).foldl (LastPerKey.push TraceLine.sbid) []

/-- One more report. -/
lemma linesOf_concat (infos : List (DecodeInfo n)) (I : DecodeInfo n) :
    linesOf (infos ++ [I]) = LastPerKey.push TraceLine.sbid (linesOf infos) I.toLine := by
  rw [linesOf, List.map_append, List.foldl_append]
  rfl

/-- The state of a decoder that has received packets with certain sequence numbers, and what it has
reported. -/
structure Reported (P : RqParams) (qs : List ℕ) (d : RqDecoder n) (infos : List (DecodeInfo n)) :
    Prop where
  /-- The current source block is the latest one. -/
  sbid : d.sbid = latestBlock P.nval qs
  /-- The packets accepted for it are counted. -/
  nrcv : ∀ b : ℕ, d.sbid = b → d.nrcv = (acceptedFor P.nval qs b).length
  /-- The source packets among them are counted. -/
  nsrcrcv : ∀ b : ℕ, d.sbid = b →
    d.nsrcrcv = ((acceptedFor P.nval qs b).filter fun q => q % P.nval < P.kval).length
  /-- The lines are in the order of the source blocks. -/
  sorted : (linesOf infos).Pairwise fun l l' => l.sbid < l'.sbid
  /-- The lines are those of the trace. -/
  mem : ∀ l, l ∈ linesOf infos ↔ IsTraceLine P qs l

namespace Reported

variable {P : RqParams} {qs : List ℕ} {d : RqDecoder n} {infos : List (DecodeInfo n)}

/-- The constructed decoder has reported nothing. -/
lemma init (P : RqParams) : Reported P [] (RqDecoder.init n) [] where
  sbid := rfl
  nrcv := fun b hb => by
    change (-1 : ℤ) = b at hb
    omega
  nsrcrcv := fun b hb => by
    change (-1 : ℤ) = b at hb
    omega
  sorted := List.Pairwise.nil
  mem := fun l => iff_of_false List.not_mem_nil fun h => h.1 rfl

/-- No line is on a block behind the current one. -/
lemma sbid_le (h : Reported P qs d infos) {l : TraceLine} (hl : l ∈ linesOf infos) :
    (l.sbid : ℤ) ≤ d.sbid := by
  by_contra hlt
  refine ((h.mem l).mp hl).1 (acceptedFor_eq_nil _ _ ?_)
  rw [← h.sbid]
  exact not_le.mp hlt

end Reported

/-- The state of a decoder that has entered the source block of a packet and not counted it yet. -/
structure Entered (P : RqParams) (qs : List ℕ) (q : ℕ) (d : RqDecoder n)
    (infos : List (DecodeInfo n)) : Prop where
  /-- The source block is that of the packet. -/
  sbid : d.sbid = ((q / P.nval : ℕ) : ℤ)
  /-- The packets accepted for it before are counted. -/
  nrcv : d.nrcv = (acceptedFor P.nval qs (q / P.nval)).length
  /-- The source packets among them are counted. -/
  nsrcrcv : d.nsrcrcv =
    ((acceptedFor P.nval qs (q / P.nval)).filter fun q => q % P.nval < P.kval).length
  /-- The packet will be accepted. -/
  latest_le : latestBlock P.nval qs ≤ ((q / P.nval : ℕ) : ℤ)
  /-- The lines are in the order of the source blocks. -/
  sorted : (linesOf infos).Pairwise fun l l' => l.sbid < l'.sbid
  /-- No line is on a later block. -/
  le : ∀ l ∈ linesOf infos, l.sbid ≤ q / P.nval
  /-- The lines on other blocks are those of the trace with the packet, and the line on the block of
  the packet is that of the trace without it. -/
  mem : ∀ l, l ∈ linesOf infos ↔
    if l.sbid = q / P.nval then IsTraceLine P qs l else IsTraceLine P (qs ++ [q]) l

section Step

variable {P : RqParams} {qs : List ℕ} {q : ℕ} {d : RqDecoder n} {infos : List (DecodeInfo n)}

/-- A packet of the current source block. -/
lemma Reported.enter_same (h : Reported P qs d infos) (hq : d.sbid = ((q / P.nval : ℕ) : ℤ)) :
    Entered P qs q d infos := by
  have hlatest : latestBlock P.nval qs = ((q / P.nval : ℕ) : ℤ) := h.sbid ▸ hq
  refine ⟨hq, h.nrcv _ hq, h.nsrcrcv _ hq, hlatest.le, h.sorted, fun l hl => ?_, fun l => ?_⟩
  · exact_mod_cast hq ▸ h.sbid_le hl
  · rw [h.mem]
    split
    · exact Iff.rfl
    · rename_i hl
      exact (isTraceLine_concat_of_eq l hlatest hl).symm

/-- The first packet enters its source block, and there is no block to report on. -/
lemma Reported.enter_first (h : Reported P qs d infos) (hneg : ¬ 0 ≤ d.sbid) :
    Entered P qs q (d.newBlock (q / P.nval : ℕ)) (infos ++ reports (d.leaveBlock P)) := by
  have hlatest : latestBlock P.nval qs < ((q / P.nval : ℕ) : ℤ) := by
    rw [← h.sbid]
    exact (not_le.mp hneg).trans_le (Int.natCast_nonneg _)
  have hnil := acceptedFor_eq_nil P.nval qs hlatest
  have hreport : reports (d.leaveBlock P) = [] := by
    rw [leaveBlock, if_neg hneg]
    rfl
  rw [hreport, List.append_nil]
  refine ⟨rfl, ?_, ?_, hlatest.le, h.sorted, fun l hl => ?_, fun l => ?_⟩
  · rw [hnil]
    rfl
  · rw [hnil]
    rfl
  · have := h.sbid_le hl
    omega
  · rw [h.mem]
    split
    · exact Iff.rfl
    · rename_i hl
      rw [isTraceLine_concat_of_ne l hlatest hl (by rw [← h.sbid]; omega)]

/-- A packet of a later source block: the report on the block that is left gives its line. -/
lemma Reported.enter_later (h : Reported P qs d infos) (hK : P.kval < 2 ^ 31)
    (hqs : ∀ a ∈ qs, a < 2 ^ 31) {b : ℕ} (hb : d.sbid = b) (hlt : b < q / P.nval) :
    Entered P qs q (d.newBlock (q / P.nval : ℕ)) (infos ++ reports (d.leaveBlock P)) := by
  have hlatest : latestBlock P.nval qs = b := h.sbid ▸ hb
  have hq : latestBlock P.nval qs < ((q / P.nval : ℕ) : ℤ) := by
    rw [hlatest]
    exact_mod_cast hlt
  have hnil := acceptedFor_eq_nil P.nval qs hq
  have hsbid : b < 2 ^ 31 := by
    obtain ⟨a, ha⟩ := List.exists_mem_of_ne_nil _ (acceptedFor_latestBlock P.nval qs hlatest)
    obtain ⟨hmem, hab⟩ := List.mem_filter.mp ha
    have hbound := hqs a (mem_of_mem_accepted _ _ hmem)
    have hdiv := Nat.div_le_self a P.nval
    rw [of_decide_eq_true hab] at hdiv
    omega
  have hreport : reports (d.leaveBlock P) = [populateDecodeInfo P d] := by
    rw [leaveBlock, if_pos (by omega)]
    rfl
  have hline := toLine_populateDecodeInfo hK hb hsbid (h.nrcv b hb) (h.nsrcrcv b hb)
  have hkey : ∀ l ∈ linesOf infos, l.sbid ≤ (populateDecodeInfo P d).toLine.sbid := by
    intro l hl
    rw [hline]
    exact_mod_cast hb ▸ h.sbid_le hl
  obtain ⟨hsorted, hmem⟩ := LastPerKey.mem_push h.sorted hkey
  rw [hreport]
  refine ⟨rfl, ?_, ?_, hq.le, ?_, fun l hl => ?_, fun l => ?_⟩
  · rw [hnil]
    rfl
  · rw [hnil]
    rfl
  · rw [linesOf_concat]
    exact hsorted
  · rw [linesOf_concat, hmem, hline] at hl
    rcases hl with rfl | ⟨hl, -⟩
    · exact hlt.le
    · have := h.sbid_le hl
      omega
  · rw [linesOf_concat, hmem, hline, h.mem]
    exact isTraceLine_leave_iff l hlatest hlt

/-- The counters behind the packet. -/
lemma Entered.counters (h : Entered P qs q d infos) (hK : P.kval < 2 ^ 31)
    (hN : P.nval < 2 ^ 31) (hq : q < 2 ^ 31) (hlen : qs.length + 1 < 2 ^ 31) {d' : RqDecoder n}
    {evs : List (Event n)} {c : Fin n → ℤ} {slot : Option (Fin n)}
    (hcount : RqDecoder.count P d c slot (esiOf P q) = (d', evs)) :
    d'.sbid = ((q / P.nval : ℕ) : ℤ) ∧
      d'.nrcv = (acceptedFor P.nval qs (q / P.nval) ++ [q]).length ∧
      d'.nsrcrcv =
        ((acceptedFor P.nval qs (q / P.nval) ++ [q]).filter
          fun q => q % P.nval < P.kval).length := by
  have hA := accepted_count P d c slot (esiOf P q)
  rw [hcount] at hA
  have hbefore := h.nrcv
  have hsrcbefore := h.nsrcrcv
  have hle : (acceptedFor P.nval qs (q / P.nval)).length ≤ qs.length :=
    (List.length_filter_le _ _).trans (length_accepted_le P.nval qs)
  generalize acceptedFor P.nval qs (q / P.nval) = acc at hbefore hsrcbefore hle ⊢
  have hK' : i32 (P.kval : ℤ) = P.kval := i32_of_range (by omega) (by omega)
  have hesi : esiOf P q = ((q % P.nval : ℕ) : ℤ) := by
    rw [esiOf, i32_of_range (by omega) (by omega), i32_of_range (by omega) (by omega)]
    rfl
  have hsrcle : (acc.filter fun q => q % P.nval < P.kval).length ≤ acc.length :=
    List.length_filter_le _ _
  refine ⟨hA.sbid.trans h.sbid, ?_, ?_⟩
  · rw [hA.nrcv, hbefore, i32_of_range (by omega) (by omega), List.length_append]
    rfl
  · rw [hA.nsrcrcv, hsrcbefore, hesi, hK', List.filter_append, List.length_append]
    by_cases hsrc : q % P.nval < P.kval
    · rw [if_pos (by exact_mod_cast hsrc), i32_of_range (by omega) (by omega),
        List.filter_singleton, decide_eq_true hsrc]
      rfl
    · rw [if_neg (by exact_mod_cast hsrc), List.filter_singleton, decide_eq_false hsrc]
      exact (Int.add_zero _).symm

/-- The counters of the current block and the lines are all there is to the invariant. -/
lemma Reported.of_counters {b : ℕ} (hlatest : latestBlock P.nval qs = b) (hsbid : d.sbid = b)
    (hnrcv : d.nrcv = (acceptedFor P.nval qs b).length)
    (hnsrcrcv : d.nsrcrcv =
      ((acceptedFor P.nval qs b).filter fun q => q % P.nval < P.kval).length)
    (hsorted : (linesOf infos).Pairwise fun l l' => l.sbid < l'.sbid)
    (hmem : ∀ l, l ∈ linesOf infos ↔ IsTraceLine P qs l) : Reported P qs d infos where
  sbid := hsbid.trans hlatest.symm
  nrcv := by
    intro b' hb'
    have heq : b' = b := by exact_mod_cast hb'.symm.trans hsbid
    rw [heq, hnrcv]
  nsrcrcv := by
    intro b' hb'
    have heq : b' = b := by exact_mod_cast hb'.symm.trans hsbid
    rw [heq, hnsrcrcv]
  sorted := hsorted
  mem := hmem

/-- Counting the packet. -/
lemma Entered.count (h : Entered P qs q d infos) (hK : P.kval < 2 ^ 31)
    (hN : P.nval < 2 ^ 31) (hq : q < 2 ^ 31) (hlen : qs.length + 1 < 2 ^ 31) {d' : RqDecoder n}
    {evs : List (Event n)} {c : Fin n → ℤ} {slot : Option (Fin n)}
    (hcount : RqDecoder.count P d c slot (esiOf P q) = (d', evs)) :
    Reported P (qs ++ [q]) d' (infos ++ reports evs) := by
  obtain ⟨hsbid, hnrcv, hnsrcrcv⟩ := h.counters hK hN hq hlen hcount
  have hreports := reports_count P d c slot (esiOf P q)
  have hK' : i32 (P.kval : ℤ) = P.kval := i32_of_range (by omega) (by omega)
  rw [hcount, hnrcv, hK', List.length_append, List.length_singleton] at hreports
  have hlatest := (accepted_concat_of_le P.nval qs q h.latest_le).2
  have hacc : acceptedFor P.nval (qs ++ [q]) (q / P.nval) =
      acceptedFor P.nval qs (q / P.nval) ++ [q] := by
    rw [acceptedFor_concat _ _ _ h.latest_le, if_pos rfl]
  by_cases hdecode : (acceptedFor P.nval qs (q / P.nval)).length + 1 = P.kval
  · -- the `Kval`-th packet: its report is the line on the block
    have hdiv := Nat.div_le_self q P.nval
    have hline := toLine_populateDecodeInfo hK hsbid (by omega) hnrcv hnsrcrcv
    have hkey : ∀ l ∈ linesOf infos, l.sbid ≤ (populateDecodeInfo P d').toLine.sbid := by
      rw [hline]
      exact h.le
    obtain ⟨hsorted, hmem⟩ := LastPerKey.mem_push h.sorted hkey
    rw [if_pos (by exact_mod_cast hdecode)] at hreports
    rw [hreports]
    refine .of_counters hlatest hsbid (hacc ▸ hnrcv) (hacc ▸ hnsrcrcv) ?_ fun l => ?_
    · rw [linesOf_concat]
      exact hsorted
    · rw [linesOf_concat, hmem, hline, h.mem]
      exact isTraceLine_decoded_iff l h.latest_le hdecode
  · -- no report: the line on the block stays as it is, if there is one
    rw [if_neg (by exact_mod_cast hdecode)] at hreports
    rw [hreports, List.append_nil]
    refine .of_counters hlatest hsbid (hacc ▸ hnrcv) (hacc ▸ hnsrcrcv) h.sorted fun l => ?_
    rw [h.mem]
    exact isTraceLine_counted_iff l h.latest_le hdecode

/-- **One packet.** -/
theorem Reported.receive (h : Reported P qs d infos) (hK : P.kval < 2 ^ 31)
    (hN : P.nval < 2 ^ 31) (hqs : ∀ a ∈ qs ++ [q], a < 2 ^ 31) (hlen : qs.length + 1 < 2 ^ 31)
    {pkt : Packet} {hdr : RqHeader} {size : ℕ} (hpeek : RqHeader.peek pkt = some (hdr, size))
    (hq : hdr.seqno = q) {d' : RqDecoder n} {evs : List (Event n)}
    (hrecv : receive P d pkt = some (d', evs)) :
    Reported P (qs ++ [q]) d' (infos ++ reports evs) := by
  obtain ⟨hdr', size', hpeek', hcases⟩ := receive_eq_some hrecv
  rw [hpeek] at hpeek'
  obtain ⟨rfl, rfl⟩ := Prod.mk.inj (Option.some.inj hpeek')
  subst hq
  have hlt : hdr.seqno < 2 ^ 31 := hqs _ (List.mem_append_right _ (List.mem_singleton_self _))
  have hqs' : ∀ a ∈ qs, a < 2 ^ 31 := fun a ha => hqs a (List.mem_append_left _ ha)
  have hblock : sbidOf P hdr.seqno = ((hdr.seqno / P.nval : ℕ) : ℤ) := by
    rw [sbidOf, i32_of_range (by omega) (by omega), i32_of_range (by omega) (by omega)]
    rfl
  rw [hblock] at hcases
  rcases hcases with ⟨hblk, rfl, rfl⟩ | ⟨hle, c, slot, evs', hcount, rfl⟩
  · -- the packet is discarded
    have hold : ((hdr.seqno / P.nval : ℕ) : ℤ) < latestBlock P.nval qs := h.sbid ▸ hblk
    obtain ⟨hacc, hlatest⟩ := accepted_concat_of_lt P.nval qs hdr.seqno hold
    have hfor : ∀ b, acceptedFor P.nval (qs ++ [hdr.seqno]) b = acceptedFor P.nval qs b :=
      fun b => by rw [acceptedFor, hacc, acceptedFor]
    have hnone : reports [.rxTrace pkt, .discarded] = ([] : List (DecodeInfo n)) := rfl
    rw [hnone, List.append_nil]
    refine ⟨h.sbid.trans hlatest.symm, fun b hb => ?_, fun b hb => ?_, h.sorted, fun l => ?_⟩
    · rw [hfor, h.nrcv b hb]
    · rw [hfor, h.nsrcrcv b hb]
    · rw [h.mem, isTraceLine_concat_of_lt l hold]
  · rw [reports_rxTrace, reports_append]
    rcases hle.lt_or_eq with hblk | hblk
    · rw [if_pos hblk, ← List.append_assoc]
      rw [enter, if_pos hblk] at hcount
      have hentered : Entered P qs hdr.seqno (d.newBlock (hdr.seqno / P.nval : ℕ))
          (infos ++ reports (d.leaveBlock P)) := by
        by_cases hpos : 0 ≤ d.sbid
        · obtain ⟨b, hb⟩ := Int.eq_ofNat_of_zero_le hpos
          refine h.enter_later hK hqs' hb ?_
          rw [hb] at hblk
          exact_mod_cast hblk
        · exact h.enter_first hpos
      exact hentered.count hK hN hlt hlen hcount
    · rw [if_neg hblk.not_lt]
      rw [enter, if_neg hblk.not_lt] at hcount
      exact (h.enter_same hblk).count hK hN hlt hlen hcount

end Step

/-! ### The trace of a run -/

/-- Sending changes no counter and reports nothing. -/
lemma Reported.tryToSend {P : RqParams} {qs : List ℕ} {d : RqDecoder n}
    {infos : List (DecodeInfo n)} (h : Reported P qs d infos) (slot : Fin n)
    (txAvailable : Option ℕ) :
    Reported P qs (RqDecoder.tryToSend d slot txAvailable).1
      (infos ++ reports (RqDecoder.tryToSend d slot txAvailable).2) := by
  have hsame : (RqDecoder.tryToSend d slot txAvailable).1.sbid = d.sbid ∧
      (RqDecoder.tryToSend d slot txAvailable).1.nrcv = d.nrcv ∧
      (RqDecoder.tryToSend d slot txAvailable).1.nsrcrcv = d.nsrcrcv ∧
      reports (RqDecoder.tryToSend d slot txAvailable).2 = [] := by
    unfold RqDecoder.tryToSend
    split
    · exact ⟨rfl, rfl, rfl, rfl⟩
    · dsimp only
      split
      · exact ⟨rfl, rfl, rfl, rfl⟩
      · split <;> exact ⟨rfl, rfl, rfl, rfl⟩
  obtain ⟨hsbid, hnrcv, hnsrcrcv, hreports⟩ := hsame
  rw [hreports, List.append_nil]
  refine ⟨hsbid.trans h.sbid, fun b hb => ?_, fun b hb => ?_, h.sorted, h.mem⟩
  · rw [hnrcv]
    exact h.nrcv b (hsbid ▸ hb)
  · rw [hnsrcrcv]
    exact h.nsrcrcv b (hsbid ▸ hb)

/-- The packets of a run that does not abort have headers. -/
lemma seqnos_concat (pkts : List Packet) {pkt : Packet} {hdr : RqHeader} {size : ℕ}
    (h : RqHeader.peek pkt = some (hdr, size)) :
    seqnos (pkts ++ [pkt]) = seqnos pkts ++ [hdr.seqno] := by
  rw [seqnos, List.filterMap_append]
  congr 1
  simp [h]

/-- **Every run reports the lines of the trace.** -/
theorem reported_run (P : RqParams) (hK : P.kval < 2 ^ 31) (hN : P.nval < 2 ^ 31)
    {steps : List (Step n)} (hlen : (received steps).length < 2 ^ 31)
    (hseqnos : ∀ q ∈ seqnos (received steps), q < 2 ^ 31) :
    ∀ d, (run P steps).1 = some d →
      Reported P (seqnos (received steps)) d (reports (run P steps).2) := by
  refine Mealy.run_invariant (step P) (s := some (RqDecoder.init n))
    (I := fun pre o evs => ∀ d, o = some d → Reported P (seqnos (received pre)) d (reports evs))
    steps ?_ ?_
  · rintro d ⟨rfl⟩
    exact Reported.init P
  · intro pre s hpre ih d' hd'
    revert ih hd'
    cases (Mealy.run (step P) (some (RqDecoder.init n)) pre).1 with
    | none => exact fun _ hd' => by cases s <;> cases hd'
    | some d =>
      intro ih hd'
      rw [reports_append]
      cases s with
      | recv pkt =>
        have hrcv : received (pre ++ [.recv pkt]) = received pre ++ [pkt] := by
          rw [received, List.filterMap_append]
          rfl
        cases hr : receive P d pkt with
        | none => simp only [step, hr, reduceCtorEq] at hd'
        | some r =>
          simp only [step, hr] at hd' ⊢
          cases hd'
          obtain ⟨hdr, size, hpeek, -⟩ := receive_eq_some hr
          have hstart : received (pre ++ [.recv pkt]) <+: received steps := hpre.filterMap _
          rw [hrcv] at hstart ⊢
          have hle := hstart.length_le
          rw [List.length_append, List.length_singleton] at hle
          have hshort : (seqnos (received pre)).length ≤ (received pre).length :=
            List.length_filterMap_le _ _
          have hsub : ∀ a ∈ seqnos (received pre ++ [pkt]), a ∈ seqnos (received steps) :=
            fun a ha => (hstart.filterMap _).subset ha
          rw [seqnos_concat _ hpeek] at hsub ⊢
          exact (ih d rfl).receive hK hN (fun a ha => hseqnos a (hsub a ha)) (by omega) hpeek rfl hr
      | tryToSend slot txAvailable =>
        have hrcv : received (pre ++ [.tryToSend slot txAvailable]) = received pre := by
          rw [received, List.filterMap_append]
          exact List.append_nil _
        cases hd'
        rw [hrcv]
        exact (ih d rfl).tryToSend slot txAvailable

/-- **One line for each source block.** The file of a run that does not abort holds, in the order of
the source blocks, a line for each block that was left, with all packets accepted for it, and for
the last one, once `Kval` packets of it were accepted, a line with the first `Kval` of them. The
current source block is always that of the latest packet. -/
theorem decodeTrace_eq (P : RqParams) (hK : P.kval < 2 ^ 31) (hN : P.nval < 2 ^ 31)
    {steps : List (Step n)} (hlen : (received steps).length < 2 ^ 31)
    (hseqnos : ∀ q ∈ seqnos (received steps), q < 2 ^ 31) {d : RqDecoder n}
    (hd : (run P steps).1 = some d) :
    (∀ before d', before <+: steps → (run P before).1 = some d' →
        d'.sbid = latestBlock P.nval (seqnos (received before))) ∧
      ∃ ls : List TraceLine, decodeTrace P steps = ls.flatMap TraceLine.text ∧
        (ls.Pairwise fun l l' => l.sbid < l'.sbid) ∧
        ∀ l, l ∈ ls ↔ IsTraceLine P (seqnos (received steps)) l := by
  constructor
  · intro before d' hbefore hd'
    have hstart : received before <+: received steps := hbefore.filterMap _
    refine (reported_run P hK hN (hstart.length_le.trans_lt hlen) (fun q hq => ?_) d' hd').sbid
    exact hseqnos q ((hstart.filterMap _).subset hq)
  · have h := reported_run P hK hN hlen hseqnos d hd
    refine ⟨linesOf (reports (run P steps).2), ?_, h.sorted, h.mem⟩
    have hmap : ((reports (run P steps).2).foldl (LastPerKey.push DecodeInfo.sbid) []).map
        DecodeInfo.toLine = linesOf (reports (run P steps).2) :=
      LastPerKey.map_foldl_push DecodeInfo.toLine TraceLine.sbid [] (reports (run P steps).2)
    have hrange : ∀ l ∈ linesOf (reports (run P steps).2), l.sbid < 2 ^ 31 := by
      intro l hl
      obtain ⟨a, ha⟩ := List.exists_mem_of_ne_nil _ ((h.mem l).mp hl).1
      obtain ⟨hmem, hab⟩ := List.mem_filter.mp ha
      have hdiv := Nat.div_le_self a P.nval
      rw [of_decide_eq_true hab] at hdiv
      exact hdiv.trans_lt (hseqnos a (mem_of_mem_accepted _ _ hmem))
    rw [decodeTrace, AppRqDecCb.destroy_foldl_rqDecCb, ← hmap, List.flatMap_map]
    refine List.flatMap_congr fun I hI => printDecinfo_eq (hrange I.toLine ?_)
    rw [← hmap]
    exact List.mem_map_of_mem hI

/-- Two source packets of different blocks, for `Kval = 1` and `Nval = 2`. -/
theorem decodeTrace_eq_two :
    let P : RqParams := { kval := 1, nval := 2, tval := 1 }
    let pkts := [(RqHeader.ofStream 0 0 [1]).serialize, (RqHeader.ofStream 2 0 [1]).serialize]
    ∃ ls : List TraceLine,
      decodeTrace P (pkts.map (Step.recv (n := 1))) = ls.flatMap TraceLine.text ∧
      ⟨0, true, 1, 1⟩ ∈ ls ∧ ⟨1, true, 1, 1⟩ ∈ ls := by
  intro P pkts
  have hsome : (run P (pkts.map (Step.recv (n := 1)))).1.isSome = true := by decide +kernel
  obtain ⟨d, hd⟩ := Option.isSome_iff_exists.mp hsome
  have hseqnos : seqnos (received (pkts.map (Step.recv (n := 1)))) = [0, 2] := by decide +kernel
  obtain ⟨-, ls, htext, -, hmem⟩ := decodeTrace_eq P (by decide) (by decide) (by decide +kernel)
    (by rw [hseqnos]; decide) hd
  refine ⟨ls, htext, (hmem _).mpr ?_, (hmem _).mpr ?_⟩
  · rw [hseqnos]
    exact ⟨by decide, by decide⟩
  · rw [hseqnos]
    exact ⟨by decide, by decide⟩

end MeshSim
