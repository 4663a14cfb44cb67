import MeshSim.Foundation.BlockCount
import MeshSim.Rq.Encoder

/-!
# The header stream of the encoder

What an encoder run hands to its TX socket, as a function of the packet's number alone.
`EncodedStream` describes the headers of a list of packets: the sequence numbers count up, the first
`Kval` packets of a block name the stream they were taken from, the others are repair packets, and
every header carries for each stream the number of its source packets in the block so far.

`Encodes` ties the counters of the encoder to the packets sent.  One expiry of the send timer is
silent, sends a source packet or sends a repair packet (`sendPacket_cases`); each of the three keeps
`Encodes`, so every run does (`encodes_run`).
-/

namespace MeshSim

open MachineInt

variable {n : ℕ}

/-! ### Counting source packets -/

/-- The stream id of a packet of the list, and `-1` behind its end. -/
def streamid (pkts : List TxPacket) (q : ℕ) : ℤ :=
  (pkts[q]?.map fun pkt => pkt.hdr.iseqStreamid).getD (-1)

/-- The number of source packets of stream `i` in source block `b` among the first `m` packets. -/
def symbols (P : RqParams) (pkts : List TxPacket) (b : ℕ) (i : Fin n) (m : ℕ) : ℕ :=
  BlockCount.count P.nval (streamid pkts) b ((i : ℕ) : ℤ) m

/-- The stream id of a packet inside the list. -/
lemma streamid_of_lt {pkts : List TxPacket} {q : ℕ} (h : q < pkts.length) :
    streamid pkts q = pkts[q].hdr.iseqStreamid := by
  simp [streamid, h]

/-- A further packet leaves the stream ids of the earlier ones. -/
lemma streamid_concat_of_lt {pkts : List TxPacket} (x : TxPacket) {q : ℕ} (h : q < pkts.length) :
    streamid (pkts ++ [x]) q = streamid pkts q := by
  simp [streamid, List.getElem?_append_left h]

/-- The stream id of the last packet. -/
lemma streamid_concat_length (pkts : List TxPacket) (x : TxPacket) :
    streamid (pkts ++ [x]) pkts.length = x.hdr.iseqStreamid := by
  simp [streamid]

/-- A further packet leaves the counts up to earlier packets. -/
lemma symbols_concat_of_le (P : RqParams) {pkts : List TxPacket} (x : TxPacket) (b : ℕ) (i : Fin n)
    {m : ℕ} (h : m ≤ pkts.length) : symbols P (pkts ++ [x]) b i m = symbols P pkts b i m :=
  BlockCount.count_congr fun _ hq => streamid_concat_of_lt x (hq.trans_le h)

/-- A further packet is counted when it belongs to the stream and the block. -/
lemma symbols_concat_succ (P : RqParams) (pkts : List TxPacket) (x : TxPacket) (b : ℕ)
    (i : Fin n) :
    symbols P (pkts ++ [x]) b i (pkts.length + 1) =
      symbols P pkts b i pkts.length +
        if pkts.length / P.nval = b ∧ x.hdr.iseqStreamid = (i : ℕ) then 1 else 0 := by
  rw [symbols, BlockCount.count_succ, streamid_concat_length]
  congr 1
  exact symbols_concat_of_le P x b i le_rfl

/-! ### What a stream of encoded packets looks like -/

/-- The header that the `p`-th packet of an encoder run carries, given the packets up to it. -/
structure HeaderAt (P : RqParams) (n : ℕ) (pkts : List TxPacket) (p : ℕ) (h : RqHeader) :
    Prop where
  /-- The header is marked valid. -/
  valid : h.valid = true
  /-- The sequence number is the number of the packet, up to the wrap of the block counter. -/
  seqno : h.seqno = p % (P.nval * 2 ^ 32)
  /-- The first `Kval` packets of a block are source packets of some stream. -/
  source : p % P.nval < P.kval → ∃ i : Fin n, h.iseqStreamid = (i : ℕ)
  /-- The other packets of a block are repair packets. -/
  repair : P.kval ≤ p % P.nval → h.iseqStreamid = -1
  /-- Every stream's count of source packets in the block so far. -/
  iseq : h.iseqData = List.ofFn fun i : Fin n => (symbols P pkts (p / P.nval) i (p + 1) : ℤ)
  /-- The counts add up to the source packets of the block so far. -/
  sum : ∑ i : Fin n, symbols P pkts (p / P.nval) i (p + 1) = min (p % P.nval + 1) P.kval

/-- The headers of a list of packets are those of an encoder run. -/
def EncodedStream (P : RqParams) (n : ℕ) (pkts : List TxPacket) : Prop :=
  ∀ (p : ℕ) (hp : p < pkts.length), HeaderAt P n pkts p pkts[p].hdr

/-- The description of a header does not change when a packet follows. -/
lemma HeaderAt.concat {P : RqParams} {pkts : List TxPacket} {p : ℕ} {h : RqHeader}
    (hh : HeaderAt P n pkts p h) (hp : p < pkts.length) (x : TxPacket) :
    HeaderAt P n (pkts ++ [x]) p h where
  valid := hh.valid
  seqno := hh.seqno
  source := hh.source
  repair := hh.repair
  iseq := by
    rw [hh.iseq]
    refine congrArg List.ofFn (funext fun i => ?_)
    rw [symbols_concat_of_le P x _ i hp]
  sum := by
    rw [← hh.sum]
    exact Finset.sum_congr rfl fun i _ => symbols_concat_of_le P x _ i hp

/-- An encoded stream continued by the packet it prescribes is an encoded stream. -/
lemma EncodedStream.concat {P : RqParams} {pkts : List TxPacket} (hs : EncodedStream P n pkts)
    {x : TxPacket} (hx : HeaderAt P n (pkts ++ [x]) pkts.length x.hdr) :
    EncodedStream P n (pkts ++ [x]) := by
  intro p hp
  rw [List.length_append, List.length_singleton] at hp
  rcases Nat.lt_succ_iff_lt_or_eq.mp hp with h | rfl
  · rw [List.getElem_append_left h]
    exact (hs p h).concat h x
  · rw [List.getElem_concat_length rfl]
    exact hx

/-- The first packets of an encoded stream are an encoded stream. -/
lemma EncodedStream.take {P : RqParams} {pkts : List TxPacket} (h : EncodedStream P n pkts)
    (m : ℕ) : EncodedStream P n (pkts.take m) := by
  intro p hp
  have hpm : p < m := (List.length_take ▸ hp).trans_le (min_le_left _ _)
  have hpl : p < pkts.length := (List.length_take ▸ hp).trans_le (min_le_right _ _)
  have hsid : ∀ q, q < p + 1 → streamid (pkts.take m) q = streamid pkts q := by
    intro q hq
    rw [streamid, List.getElem?_take_of_lt (by omega), streamid]
  have hsymb : ∀ i : Fin n, symbols P (pkts.take m) (p / P.nval) i (p + 1) =
      symbols P pkts (p / P.nval) i (p + 1) := fun i => BlockCount.count_congr hsid
  have hh := h p hpl
  rw [List.getElem_take]
  constructor
  · exact hh.valid
  · exact hh.seqno
  · exact hh.source
  · exact hh.repair
  · rw [hh.iseq]
    exact congrArg List.ofFn (funext fun i => by rw [hsymb i])
  · rw [← hh.sum]
    exact Finset.sum_congr rfl fun i _ => hsymb i

/-- Up to the wrap of the block counter the sequence number of a packet is its number. -/
lemma EncodedStream.seqno_getElem {P : RqParams} {pkts : List TxPacket}
    (h : EncodedStream P n pkts) (hwrap : pkts.length ≤ P.nval * 2 ^ 32) {p : ℕ}
    (hp : p < pkts.length) : pkts[p].hdr.seqno = p := by
  rw [(h p hp).seqno, Nat.mod_eq_of_lt (hp.trans_le hwrap)]

/-- Up to the wrap of the block counter, the packets whose sequence numbers fit into an `int` are
the first `2 ^ 31` ones. -/
lemma EncodedStream.filter_seqno {P : RqParams} {pkts : List TxPacket} (h : EncodedStream P n pkts)
    (hwrap : pkts.length ≤ P.nval * 2 ^ 32) :
    pkts.filter (fun x => x.hdr.seqno < 2 ^ 31) = pkts.take (2 ^ 31) := by
  have hfront : ∀ x ∈ pkts.take (2 ^ 31), x.hdr.seqno < 2 ^ 31 := by
    intro x hx
    obtain ⟨p, hp, rfl⟩ := List.mem_take_iff_getElem.mp hx
    rw [h.seqno_getElem hwrap (hp.trans_le (min_le_right _ _))]
    exact hp.trans_le (min_le_left _ _)
  have hrest : ∀ x ∈ pkts.drop (2 ^ 31), ¬x.hdr.seqno < 2 ^ 31 := by
    intro x hx
    obtain ⟨p, hp, rfl⟩ := List.mem_drop_iff_getElem.mp hx
    rw [h.seqno_getElem hwrap (by omega)]
    omega
  calc pkts.filter (fun x => x.hdr.seqno < 2 ^ 31)
      = (pkts.take (2 ^ 31) ++ pkts.drop (2 ^ 31)).filter fun x => x.hdr.seqno < 2 ^ 31 := by
        rw [List.take_append_drop]
    _ = pkts.take (2 ^ 31) := by
        rw [List.filter_append, List.filter_eq_self.mpr fun x hx => decide_eq_true (hfront x hx),
          List.filter_eq_nil_iff.mpr fun x hx => by simpa using hrest x hx, List.append_nil]

/-! ### What one expiry of the timer can do -/

/-- Whether the TX socket has room for a whole packet. -/
def RqEncoder.HasRoom (P : RqParams) (c : SendCall n) : Prop :=
  u32 (P.tval + RqHeader.minSerializedSize + n * 4) ≤ c.txAvailable

/-- **What `SendPacket` can do.** It sends nothing and leaves the encoder as it is, it sends a
source symbol read from a readable slot, or it sends a repair symbol. -/
theorem RqEncoder.sendPacket_cases (P : RqParams) (e : RqEncoder n) (c : SendCall n) :
    sendPacket P e c = (e, []) ∨
      (∃ slot, HasRoom P c ∧ e.esi < P.kval ∧ readable P c slot = true ∧
        sendPacket P e c =
          ((sendCreated P (e.takeSymbol (advance slot) slot (c.recv slot)) slot.val
              (c.recv slot)).1,
            .rxTrace slot (c.recv slot) ::
              (sendCreated P (e.takeSymbol (advance slot) slot (c.recv slot)) slot.val
                (c.recv slot)).2)) ∨
      (HasRoom P c ∧ P.kval ≤ e.esi ∧
        sendPacket P e c = sendCreated P e (-1) (List.replicate P.tval 0)) := by
  unfold sendPacket
  split
  · exact Or.inl rfl
  · rename_i hroom
    split
    · rename_i hesi
      rcases scan_spec (readable P c) e.nextRxSlot n e.nextRxSlot (distance_le _ _) with
        ⟨slot, hread, hscan⟩ | hscan
      · rw [hscan]
        exact Or.inr (Or.inl ⟨slot, not_lt.mp hroom, hesi, hread, rfl⟩)
      · rw [hscan]
        exact Or.inl rfl
    · rename_i hesi
      exact Or.inr (Or.inr ⟨not_lt.mp hroom, not_lt.mp hesi, rfl⟩)

/-- The header that `sendCreated` puts in front of the payload. -/
def RqEncoder.nextHeader (P : RqParams) (e : RqEncoder n) (streamid : ℤ) : RqHeader :=
  RqHeader.ofStream (u64 (P.nval * e.sbid + e.esi)) streamid (List.ofFn e.symbcounts)

/-- `sendCreated` hands exactly one packet to the TX socket. -/
lemma RqEncoder.sent_sendCreated (P : RqParams) (e : RqEncoder n) (streamid : ℤ)
    (payload : Packet) :
    (sendCreated P e streamid payload).2.filterMap Event.sent? =
      [{ hdr := nextHeader P e streamid, payload := payload }] := by
  unfold sendCreated nextHeader
  dsimp only
  split <;> rfl

/-! ### The encoder's counters follow the stream -/

/-- The state of an encoder that has sent `pkts`. -/
structure Encodes (P : RqParams) (e : RqEncoder n) (pkts : List TxPacket) : Prop where
  /-- The symbol id counts the packets of the block. -/
  esi : e.esi = pkts.length % P.nval
  /-- The block id counts the complete blocks, modulo its width. -/
  sbid : e.sbid = pkts.length / P.nval % 2 ^ 32
  /-- The symbol counts are those of the current block. -/
  symbcounts : ∀ i, e.symbcounts i = symbols P pkts (pkts.length / P.nval) i pkts.length
  /-- The symbol counts add up to the source packets of the current block. -/
  sum : ∑ i, e.symbcounts i = min e.esi P.kval
  /-- The packets sent so far form an encoded stream. -/
  stream : EncodedStream P n pkts

/-- The constructed encoder has sent nothing. -/
lemma encodes_init (P : RqParams) [NeZero n] : Encodes P (RqEncoder.init n) [] where
  esi := by simp [RqEncoder.init]
  sbid := by simp [RqEncoder.init]
  symbcounts := by simp [RqEncoder.init, symbols]
  sum := by simp [RqEncoder.init]
  stream := fun p hp => by simp at hp

/-- Counts that add up to at most `Nval` fit into an `int`. -/
lemma lt_of_sum_eq {P : RqParams} (hN : P.nval < 2 ^ 31) {c : Fin n → ℕ} {esi : ℕ}
    (hesi : esi < P.nval) (hsum : ∑ i, c i = min (esi + 1) P.kval) (i : Fin n) : c i < 2 ^ 31 := by
  have : c i ≤ ∑ j, c j := Finset.single_le_sum (fun _ _ => Nat.zero_le _) (Finset.mem_univ i)
  omega

/-- The numbers of the block after the last packet of a block. -/
lemma div_mod_succ_of_last {N p : ℕ} (hN : 0 < N) (h : p % N + 1 = N) :
    (p + 1) % N = 0 ∧ (p + 1) / N = p / N + 1 := by
  have hp : p + 1 = N * (p / N + 1) := by
    have := Nat.div_add_mod p N
    rw [Nat.mul_add]
    omega
  rw [hp]
  exact ⟨Nat.mul_mod_right _ _, Nat.mul_div_cancel_left _ hN⟩

/-- The numbers of the block after another packet of a block. -/
lemma div_mod_succ_of_not_last {N p : ℕ} (hN : 0 < N) (h : p % N + 1 ≠ N) :
    (p + 1) % N = p % N + 1 ∧ (p + 1) / N = p / N := by
  have hlt : p % N + 1 < N := by
    have := Nat.mod_lt p hN
    omega
  have hp : p + 1 = p % N + 1 + N * (p / N) := by
    have := Nat.div_add_mod p N
    omega
  constructor
  · rw [hp, Nat.add_mul_mod_self_left, Nat.mod_eq_of_lt hlt]
  · rw [hp, Nat.add_mul_div_left _ _ hN, Nat.div_eq_of_lt hlt, Nat.zero_add]

section SendCreated

variable {P : RqParams} {e : RqEncoder n} {pkts : List TxPacket} {sid : ℤ} (payload : Packet)

/-- The header of the next packet continues the stream, when the symbol counts already include the
packet. -/
lemma headerAt_nextHeader (hN : P.nval < 2 ^ 31) (hesi : e.esi = pkts.length % P.nval)
    (hsbid : e.sbid = pkts.length / P.nval % 2 ^ 32)
    (hcounts : ∀ i : Fin n, e.symbcounts i =
      symbols P pkts (pkts.length / P.nval) i pkts.length + if sid = (i : ℕ) then 1 else 0)
    (hsum : ∑ i, e.symbcounts i = min (e.esi + 1) P.kval)
    (hsource : e.esi < P.kval → ∃ i : Fin n, sid = (i : ℕ))
    (hrepair : P.kval ≤ e.esi → sid = -1) :
    HeaderAt P n (pkts ++ [{ hdr := e.nextHeader P sid, payload := payload }]) pkts.length
      (e.nextHeader P sid) := by
  have hpos : 0 < P.nval := P.nval_range.1
  have hlt : e.esi < P.nval := hesi ▸ Nat.mod_lt _ hpos
  have hsymb : ∀ i : Fin n,
      symbols P (pkts ++ [{ hdr := e.nextHeader P sid, payload := payload }])
        (pkts.length / P.nval) i (pkts.length + 1) = e.symbcounts i := by
    intro i
    rw [symbols_concat_succ, hcounts i]
    simp [RqEncoder.nextHeader, RqHeader.ofStream]
  constructor
  · rfl
  · have hmod : pkts.length % (P.nval * 2 ^ 32) = P.nval * e.sbid + e.esi := by
      rw [Nat.mod_mul, hesi, hsbid, Nat.add_comm]
    have hbound : P.nval * e.sbid + e.esi < 2 ^ 64 := by
      have h1 : pkts.length % (P.nval * 2 ^ 32) < P.nval * 2 ^ 32 := Nat.mod_lt _ (by omega)
      omega
    rw [hmod]
    exact_mod_cast u64_of_lt hbound
  · rw [← hesi]
    exact hsource
  · rw [← hesi]
    exact hrepair
  · have hmap : (e.nextHeader P sid).iseqData =
        List.ofFn fun i => i32 (e.symbcounts i : ℤ) := by
      simp only [RqEncoder.nextHeader, RqHeader.ofStream, List.map_ofFn, Function.comp_def]
    rw [hmap]
    refine congrArg List.ofFn (funext fun i => ?_)
    rw [hsymb i]
    have := lt_of_sum_eq hN hlt hsum i
    exact i32_of_range (by omega) (by omega)
  · rw [← hesi, ← hsum]
    exact Finset.sum_congr rfl fun i _ => hsymb i

/-- Sending a created packet keeps the encoder and its stream in step. -/
lemma encodes_sendCreated (hN : P.nval < 2 ^ 31) (hstream : EncodedStream P n pkts)
    (hesi : e.esi = pkts.length % P.nval) (hsbid : e.sbid = pkts.length / P.nval % 2 ^ 32)
    (hcounts : ∀ i : Fin n, e.symbcounts i =
      symbols P pkts (pkts.length / P.nval) i pkts.length + if sid = (i : ℕ) then 1 else 0)
    (hsum : ∑ i, e.symbcounts i = min (e.esi + 1) P.kval)
    (hsource : e.esi < P.kval → ∃ i : Fin n, sid = (i : ℕ))
    (hrepair : P.kval ≤ e.esi → sid = -1) :
    Encodes P (e.sendCreated P sid payload).1
      (pkts ++ [{ hdr := e.nextHeader P sid, payload := payload }]) := by
  have hpos : 0 < P.nval := P.nval_range.1
  have hlt : e.esi < P.nval := hesi ▸ Nat.mod_lt _ hpos
  have hesi' : u32 (e.esi + 1 : ℤ) = e.esi + 1 := by
    exact_mod_cast u32_natCast (m := e.esi + 1) (by omega)
  have hhdr := headerAt_nextHeader payload hN hesi hsbid hcounts hsum hsource hrepair
  have hnew := hstream.concat hhdr
  unfold RqEncoder.sendCreated
  dsimp only
  rw [hesi']
  by_cases hlast : e.esi + 1 = P.nval
  · obtain ⟨hmod, hdiv⟩ := div_mod_succ_of_last hpos (hesi ▸ hlast)
    rw [if_pos hlast]
    constructor
    · simp [hmod]
    · simp only [List.length_append, List.length_singleton, hdiv, hsbid]
      unfold u32
      omega
    · intro i
      have hge : pkts.length + 1 ≤ P.nval * ((pkts.length + 1) / P.nval) := by
        have := Nat.div_add_mod (pkts.length + 1) P.nval
        omega
      simp only [List.length_append, List.length_singleton]
      exact (BlockCount.count_eq_zero hpos hge).symm
    · simp
    · exact hnew
  · obtain ⟨hmod, hdiv⟩ := div_mod_succ_of_not_last hpos (hesi ▸ hlast)
    rw [if_neg hlast]
    constructor
    · simp [hmod, hesi]
    · simp [hdiv, hsbid]
    · intro i
      simp only [List.length_append, List.length_singleton, hdiv]
      rw [symbols_concat_succ, hcounts i]
      simp [RqEncoder.nextHeader, RqHeader.ofStream]
    · exact hsum
    · exact hnew

end SendCreated

/-- **One expiry of the send timer keeps the encoder and its stream in step.** -/
theorem Encodes.sendPacket {P : RqParams} {e : RqEncoder n} {pkts : List TxPacket}
    (h : Encodes P e pkts) (hN : P.nval < 2 ^ 31) (c : SendCall n) :
    Encodes P (e.sendPacket P c).1
      (pkts ++ (e.sendPacket P c).2.filterMap RqEncoder.Event.sent?) := by
  have hlt : e.esi < P.nval := h.esi ▸ Nat.mod_lt _ P.nval_range.1
  rcases e.sendPacket_cases P c with hc | ⟨slot, -, hesi, -, hc⟩ | ⟨-, hesi, hc⟩
  · rw [hc]
    simpa using h
  · rw [hc, List.filterMap_cons_none rfl, RqEncoder.sent_sendCreated]
    have hslot : e.symbcounts slot < 2 ^ 31 := by
      have : e.symbcounts slot ≤ ∑ j, e.symbcounts j :=
        Finset.single_le_sum (fun _ _ => Nat.zero_le _) (Finset.mem_univ slot)
      have := h.sum
      omega
    have hu : u32 (e.symbcounts slot + 1 : ℤ) = e.symbcounts slot + 1 := by
      exact_mod_cast u32_natCast (m := e.symbcounts slot + 1) (by omega)
    have htake : ∀ i, (e.takeSymbol (RqEncoder.advance slot) slot (c.recv slot)).symbcounts i =
        e.symbcounts i + if slot = i then 1 else 0 := by
      intro i
      simp only [RqEncoder.takeSymbol, hu]
      by_cases hi : i = slot
      · subst hi
        simp
      · rw [Function.update_of_ne hi, if_neg (Ne.symm hi), add_zero]
    refine encodes_sendCreated _ hN h.stream h.esi h.sbid ?_ ?_ ?_ ?_
    · intro i
      rw [htake i, h.symbcounts i]
      simp [Fin.ext_iff]
    · simp only [htake, Finset.sum_add_distrib, h.sum]
      simp only [RqEncoder.takeSymbol, Finset.sum_ite_eq, Finset.mem_univ, if_true]
      omega
    · exact fun _ => ⟨slot, rfl⟩
    · intro hge
      exact absurd hesi (not_lt.mpr hge)
  · rw [hc, RqEncoder.sent_sendCreated]
    refine encodes_sendCreated _ hN h.stream h.esi h.sbid ?_ ?_ ?_ ?_
    · intro i
      rw [h.symbcounts i, if_neg (by omega), add_zero]
    · rw [h.sum]
      omega
    · intro hlt'
      exact absurd hesi (not_le.mpr hlt')
    · exact fun _ => rfl

/-- **Every run keeps the encoder and its stream in step.** -/
theorem encodes_run {P : RqParams} [NeZero n] (hN : P.nval < 2 ^ 31) (calls : List (SendCall n)) :
    Encodes P (RqEncoder.run P calls).1 (RqEncoder.sent P calls) := by
  refine Mealy.run_invariant (RqEncoder.sendPacket P)
    (I := fun _ e evs => Encodes P e (evs.filterMap RqEncoder.Event.sent?)) calls
    (encodes_init P) ?_
  intro is c _ h
  rw [List.filterMap_append]
  exact h.sendPacket hN c

/-- The packets of a run form an encoded stream. -/
theorem encodedStream_sent {P : RqParams} [NeZero n] (hN : P.nval < 2 ^ 31)
    (calls : List (SendCall n)) : EncodedStream P n (RqEncoder.sent P calls) :=
  (encodes_run hN calls).stream

/-! ### Received bytes and payloads -/

namespace RqEncoder

/-- Every socket from which a symbol is read returns a whole symbol. -/
def RecvReturnsSymbol (P : RqParams) (calls : List (SendCall n)) : Prop :=
  ∀ c ∈ calls, ∀ slot, readable P c slot = true → (c.recv slot).length = P.tval

/-- One more expiry of the timer adds what it sends to the packets sent. -/
lemma sent_concat (P : RqParams) [NeZero n] (calls : List (SendCall n)) (c : SendCall n) :
    sent P (calls ++ [c]) =
      sent P calls ++ (sendPacket P (run P calls).1 c).2.filterMap Event.sent? := by
  rw [sent, sent, run, Mealy.run_concat, List.filterMap_append]
  rfl

/-- Handing a packet to the TX socket leaves the received bytes. -/
lemma sendCreated_rxTotal (P : RqParams) (e : RqEncoder n) (streamid : ℤ) (payload : Packet) :
    (sendCreated P e streamid payload).1.rxTotal = e.rxTotal := by
  unfold sendCreated
  dsimp only
  split <;> rfl

/-- Every run counts the bytes received from a slot: one symbol for each packet sent with its
stream id, in 64-bit arithmetic. -/
theorem rxTotal_run {P : RqParams} [NeZero n] {calls : List (SendCall n)}
    (hrecv : RecvReturnsSymbol P calls) (i : Fin n) :
    (run P calls).1.rxTotal i =
      P.tval * ((sent P calls).countP fun pkt => pkt.hdr.iseqStreamid = ((i : ℕ) : ℤ)) % 2 ^ 64 := by
  induction calls using List.reverseRecOn with
  | nil => simp [run, sent, init]
  | append_singleton calls c ih =>
    have ih := ih fun d hd => hrecv d (List.mem_append_left _ hd)
    rw [sent_concat, run, Mealy.run_concat, List.countP_append]
    change (sendPacket P (run P calls).1 c).1.rxTotal i = _
    generalize run P calls = r at ih ⊢
    rcases r.1.sendPacket_cases P c with hc | ⟨slot, -, -, hread, hc⟩ | ⟨-, -, hc⟩
    · rw [hc]
      simpa using ih
    · have hlen : (c.recv slot).length = P.tval := hrecv c (by simp) slot hread
      rw [hc, List.filterMap_cons_none rfl, sent_sendCreated, sendCreated_rxTotal]
      simp only [takeSymbol, nextHeader, RqHeader.ofStream, List.countP_singleton, hlen]
      by_cases hi : i = slot
      · subst hi
        rw [Function.update_self, ih, if_pos (by simp), Nat.mul_add, Nat.mul_one]
        unfold u64
        omega
      · have hne : ((slot : ℕ) : ℤ) ≠ (i : ℕ) := fun h => hi (Fin.ext (by omega))
        rw [Function.update_of_ne hi, ih, if_neg (by simpa using hne), add_zero]
    · rw [hc, sent_sendCreated, sendCreated_rxTotal, ih]
      simp only [nextHeader, RqHeader.ofStream, List.countP_singleton]
      rw [if_neg (by simp), add_zero]

/-- A source packet carries what the call that sent it read from the slot the packet names. -/
theorem exists_call_of_source {P : RqParams} [NeZero n] {calls : List (SendCall n)} {p : ℕ}
    (hp : p < (sent P calls).length) {slot : Fin n}
    (hslot : (sent P calls)[p].hdr.iseqStreamid = (slot : ℕ)) :
    ∃ pre c post, calls = pre ++ c :: post ∧ (sent P pre).length = p ∧
      readable P c slot = true ∧ (sent P calls)[p].payload = c.recv slot := by
  induction calls using List.reverseRecOn with
  | nil => simp [sent, run] at hp
  | append_singleton calls c ih =>
    by_cases hlt : p < (sent P calls).length
    · have hget : (sent P (calls ++ [c]))[p] = (sent P calls)[p] := by
        simp only [sent_concat, List.getElem_append_left hlt]
      rw [hget] at hslot ⊢
      obtain ⟨pre, d, post, hcalls, hpre⟩ := ih hlt hslot
      exact ⟨pre, d, post ++ [c], by simp [hcalls], hpre⟩
    · have hsent := sent_concat P calls c
      rcases (run P calls).1.sendPacket_cases P c with hc | ⟨slot', -, -, hread, hc⟩ | ⟨-, -, hc⟩
      · rw [hc, List.filterMap_nil, List.append_nil] at hsent
        rw [hsent] at hp
        exact absurd hp hlt
      all_goals
        rw [hc] at hsent
        try rw [List.filterMap_cons_none rfl] at hsent
        rw [sent_sendCreated] at hsent
        have hpe : p = (sent P calls).length := by
          rw [hsent, List.length_append, List.length_singleton] at hp
          omega
        subst hpe
        simp only [hsent, List.getElem_concat_length] at hslot ⊢
        simp only [nextHeader, RqHeader.ofStream] at hslot
      · have hs : slot' = slot := Fin.ext (by omega)
        subst hs
        exact ⟨calls, c, [], rfl, rfl, hread, rfl⟩
      · omega

/-- **The header stream of the encoder.** Along every run, whatever the sockets answer: the `p`-th
packet handed to the TX socket carries the sequence number `p`, up to the wrap of the 32-bit block
counter; it names a stream exactly when it belongs to the first `Kval` packets of its block, and
then it carries what was read from that slot; its counts are the numbers of source packets of each
stream in its block so far, and add up to the source packets of the block so far; and the bytes
received from a slot are one symbol for each packet sent for it, modulo `2 ^ 64`. -/
theorem sendPacket_header_stream (P : RqParams) [NeZero n] (hN : P.nval < 2 ^ 31)
    (calls : List (SendCall n)) (hrecv : RecvReturnsSymbol P calls) :
    (∀ (p : ℕ) (hp : p < (sent P calls).length),
      (sent P calls)[p].hdr.seqno = p % (P.nval * 2 ^ 32) ∧
      ((sent P calls)[p].hdr.iseqStreamid = -1 ↔ P.kval ≤ p % P.nval) ∧
      ((sent P calls)[p].hdr.iseqStreamid ≠ -1 →
        ∃ slot : Fin n, (sent P calls)[p].hdr.iseqStreamid = (slot : ℕ) ∧
          ∃ pre c post, calls = pre ++ c :: post ∧ (sent P pre).length = p ∧
            readable P c slot = true ∧ (sent P calls)[p].payload = c.recv slot) ∧
      (sent P calls)[p].hdr.iseqData =
        List.ofFn (fun i : Fin n => (symbols P (sent P calls) (p / P.nval) i (p + 1) : ℤ)) ∧
      (sent P calls)[p].hdr.iseqData.sum = min (p % P.nval + 1) P.kval) ∧
    ∀ i : Fin n, (run P calls).1.rxTotal i =
      P.tval * ((sent P calls).countP fun pkt => pkt.hdr.iseqStreamid = ((i : ℕ) : ℤ)) % 2 ^ 64 := by
  refine ⟨fun p hp => ?_, rxTotal_run hrecv⟩
  have h := encodedStream_sent hN calls p hp
  refine ⟨h.seqno, ⟨?_, h.repair⟩, ?_, h.iseq, ?_⟩
  · intro hrep
    by_contra hlt
    obtain ⟨i, hi⟩ := h.source (not_le.mp hlt)
    omega
  · intro hsrc
    obtain ⟨slot, hslot⟩ := h.source (by
      by_contra hge
      exact hsrc (h.repair (not_lt.mp hge)))
    exact ⟨slot, hslot, exists_call_of_source hp hslot⟩
  · rw [h.iseq, List.sum_ofFn]
    exact_mod_cast h.sum

/-- The header stream of two time slots in which nothing is held back. -/
theorem sendPacket_header_stream_ready :
    (sent { kval := 1, nval := 2, tval := 1 }
      (List.replicate 2 (SendCall.ready { kval := 1, nval := 2, tval := 1 } 1))).length = 2 ∧
    ∀ i : Fin 1, (run { kval := 1, nval := 2, tval := 1 }
      (List.replicate 2 (SendCall.ready { kval := 1, nval := 2, tval := 1 } 1))).1.rxTotal i =
        1 * ((sent { kval := 1, nval := 2, tval := 1 }
          (List.replicate 2 (SendCall.ready { kval := 1, nval := 2, tval := 1 } 1))).countP
            fun pkt => pkt.hdr.iseqStreamid = ((i : ℕ) : ℤ)) % 2 ^ 64 :=
  ⟨by decide +kernel,
    (sendPacket_header_stream { kval := 1, nval := 2, tval := 1 } (by decide) _ (by
      intro c hc slot _
      rw [List.eq_of_mem_replicate hc]
      rfl)).2⟩

/-! ### Runs without any hold-up -/

/-- The scan reads from the slot it starts at when that slot is readable. -/
lemma scan_of_readable {readable : Fin n → Bool} {stop slot : Fin n} {fuel : ℕ}
    (h : readable slot = true) (hfuel : fuel ≠ 0) :
    scan readable stop fuel slot = (advance slot, some slot) := by
  cases fuel with
  | zero => exact absurd rfl hfuel
  | succ fuel => exact if_pos h

/-- When nothing holds it back, every expiry of the timer sends exactly one packet. -/
lemma length_sent_sendPacket_ready (P : RqParams) [NeZero n] (e : RqEncoder n) :
    ((sendPacket P e (SendCall.ready P n)).2.filterMap Event.sent?).length = 1 := by
  have hroom : ¬(SendCall.ready P n).txAvailable <
      u32 (P.tval + RqHeader.minSerializedSize + n * 4) := by
    rw [not_lt]
    exact Nat.le_sub_one_of_lt (u32_lt _)
  have hscan : scan (readable P (SendCall.ready P n)) e.nextRxSlot n e.nextRxSlot =
      (advance e.nextRxSlot, some e.nextRxSlot) := by
    have hread : readable P (SendCall.ready P n) e.nextRxSlot = true := by
      simp [readable, SendCall.ready]
    exact scan_of_readable hread (NeZero.ne n)
  unfold sendPacket
  rw [if_neg hroom]
  split
  · rw [hscan]
    simp only [List.filterMap_cons_none (show Event.sent? (.rxTrace _ _) = none from rfl),
      sent_sendCreated, List.length_singleton]
  · rw [sent_sendCreated, List.length_singleton]

/-- When nothing holds it back, every expiry of the timer sends a packet. -/
lemma exists_send_ready (P : RqParams) [NeZero n] (e : RqEncoder n) :
    ∃ x, Event.send x ∈ (sendPacket P e (SendCall.ready P n)).2 := by
  obtain ⟨x, hx⟩ := List.length_eq_one_iff.mp (length_sent_sendPacket_ready P e)
  obtain ⟨ev, hev, hsent⟩ := List.mem_filterMap.mp (hx ▸ List.mem_singleton_self x)
  cases ev with
  | send y => exact ⟨y, hev⟩
  | _ => cases hsent

/-- A run without any hold-up sends one packet at every expiry of the timer. -/
theorem length_sent_ready (P : RqParams) [NeZero n] (m : ℕ) :
    (sent P (List.replicate m (SendCall.ready P n))).length = m := by
  induction m with
  | zero => rfl
  | succ m ih =>
    rw [List.replicate_succ', sent_concat, List.length_append, ih, length_sent_sendPacket_ready]

end RqEncoder

end MeshSim
