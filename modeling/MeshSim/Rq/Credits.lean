import MeshSim.Rq.DecodeMoment

/-!
# What the decoder credits to a stream

The bytes that the decoder adds to the send buffer of a stream on account of a source block, when no
packet is delivered twice.  `Credits` is the invariant of such deliveries: while fewer than `Kval`
packets of the block have been received, the credits are the contiguous symbols; the lump release at
the `Kval`-th packet completes them to the symbols taken; afterwards they can only be exceeded by a
late release, the early release of a symbol that the lump release has credited already.  Only the
last symbol of a stream is released late, so that the stream has been credited symbol by symbol in
the block and its 32-bit amounts have not wrapped around.
-/

namespace MeshSim

open MachineInt RqDecoder

variable {n : ℕ}

/-! ### Symbols and bytes -/

/-- The 32-bit amounts add up to at most the bytes of the symbols credited. -/
lemma bytesCredited_le (P : RqParams) {evs : List (Event n)}
    (h : ∀ b i s, Event.credit b i s ∈ evs → 0 ≤ s) (b : ℤ) (i : Fin n) :
    (bytesCredited P evs b i : ℤ) ≤ P.tval * symbolsCredited evs b i := by
  induction evs with
  | nil => simp [bytesCredited, symbolsCredited]
  | cons e evs ih =>
    have ih := ih fun b i s hs => h b i s (List.mem_cons_of_mem _ hs)
    have he : (Event.amount P b i e : ℤ) ≤ P.tval * Event.symbols b i e := by
      cases e with
      | credit sbid slot s =>
        simp only [Event.amount, Event.symbols]
        split
        · have hs : 0 ≤ s * P.tval :=
            mul_nonneg (h sbid slot s (List.mem_cons_self)) (Int.natCast_nonneg _)
          rw [mul_comm (P.tval : ℤ)]
          exact u32_le hs
        · simp
      | _ => simp [Event.amount, Event.symbols]
    simp only [bytesCredited, symbolsCredited, List.map_cons, List.sum_cons] at ih ⊢
    rw [Nat.cast_add, mul_add]
    exact add_le_add he ih

/-- When each credit of a stream in a block fits into 32 bits, the amounts are the bytes of the
symbols credited. -/
lemma bytesCredited_eq {P : RqParams} {evs : List (Event n)} {b : ℤ} {i : Fin n}
    (h : ∀ s, Event.credit b i s ∈ evs → 0 ≤ s ∧ s * P.tval < 2 ^ 32) :
    (bytesCredited P evs b i : ℤ) = P.tval * symbolsCredited evs b i := by
  induction evs with
  | nil => simp [bytesCredited, symbolsCredited]
  | cons e evs ih =>
    have ih := ih fun s hs => h s (List.mem_cons_of_mem _ hs)
    have he : (Event.amount P b i e : ℤ) = P.tval * Event.symbols b i e := by
      cases e with
      | credit sbid slot s =>
        simp only [Event.amount, Event.symbols]
        split
        · rename_i hbi
          obtain ⟨rfl, rfl⟩ := hbi
          obtain ⟨h0, hlt⟩ := h s (List.mem_cons_self)
          rw [u32_of_lt (mul_nonneg h0 (Int.natCast_nonneg _)) hlt, mul_comm]
        · simp
      | _ => simp [Event.amount, Event.symbols]
    simp only [bytesCredited, symbolsCredited, List.map_cons, List.sum_cons] at ih ⊢
    rw [Nat.cast_add, he, ih, mul_add]

/-- One credit is at most all symbols credited. -/
lemma le_symbolsCredited {evs : List (Event n)} {b : ℤ} {i : Fin n}
    (h : ∀ s, Event.credit b i s ∈ evs → 0 ≤ s) {s : ℤ} (hs : Event.credit b i s ∈ evs) :
    s ≤ symbolsCredited evs b i := by
  have hnonneg : ∀ a ∈ evs.map (Event.symbols b i), 0 ≤ a := by
    intro a ha
    obtain ⟨e, he, rfl⟩ := List.mem_map.mp ha
    cases e with
    | credit sbid slot t =>
      simp only [Event.symbols]
      split
      · rename_i hbi
        obtain ⟨rfl, rfl⟩ := hbi
        exact h t he
      · exact le_rfl
    | _ => exact le_rfl
  refine List.single_le_sum hnonneg s (List.mem_map.mpr ⟨_, hs, ?_⟩)
  simp [Event.symbols]

/-- The amounts only grow as a run continues. -/
lemma bytesCredited_mono (P : RqParams) {evs evs' : List (Event n)} (h : evs <+: evs') (b : ℤ)
    (i : Fin n) : bytesCredited P evs b i ≤ bytesCredited P evs' b i := by
  obtain ⟨rest, rfl⟩ := h
  simp [bytesCredited]

/-! ### The credits of one packet -/

section Packet

variable {P : RqParams} {pkts ds : List TxPacket} {x : TxPacket} (R : Regime P n pkts)
  (hds : ∀ y ∈ ds ++ [x], y ∈ pkts) (hnodup : (ds ++ [x]).Nodup) (hK : P.kval < 2 ^ 31)
  {d d' : RqDecoder n} {evs : List (Event n)} (h : Tracks P pkts ds d) (hle : d.sbid ≤ x.block P)
  (hC : Counted P pkts d x d' evs)

include R hds hnodup h hle hC

/-- The packets of the block received after a packet. -/
lemma Tracks.count_nrcv : d'.nrcv = (blockPackets P ds (x.block P)).length + 1 := by
  have hx : x ∈ pkts := hds x (by simp)
  rw [(h.count R hx hle hC).nrcv_eq R hds hC.sbid (hnodup.filter _), blockPackets_concat_self,
    List.length_append, List.length_singleton]
  push_cast
  rfl

/-- Behind the decode moment a symbol is released early only as the last one of its stream. -/
lemma Tracks.released_last (hlen : P.kval ≤ (blockPackets P ds (x.block P)).length + 1) {i : Fin n}
    (hi : (d'.slotStates i).nsymbcontig =
      ((d.enter (x.block P)).slotStates i).nsymbcontig + 1) :
    (d'.slotStates i).nsymbcontig = taken P pkts (x.block P) i := by
  have hx : x ∈ pkts := hds x (by simp)
  have hnrcv : (P.kval : ℤ) ≤ d'.nrcv := by
    rw [h.count_nrcv R hds hnodup hle hC]
    exact_mod_cast hlen
  have hfinal := ((h.count R hx hle hC).nsymb_final R hds hC.sbid (hnodup.filter _) hnrcv).1 i
  have hcontig := h.count_nsymbcontig R hx hle hC i
  split at hcontig <;> omega

include hK

/-- The credits of a packet: what the early release adds to the contiguous symbols, and at the
`Kval`-th packet of the block everything that is missing to the symbols taken. -/
lemma Tracks.count_credits (b : ℕ) (i : Fin n) :
    symbolsCredited evs b i =
      if x.block P = b then
        (d'.slotStates i).nsymbcontig - ((d.enter (x.block P)).slotStates i).nsymbcontig +
          if (blockPackets P ds b).length + 1 = P.kval then
            (taken P pkts b i : ℤ) - (d'.slotStates i).nsymbcontig
          else 0
      else 0 := by
  have hx : x ∈ pkts := hds x (by simp)
  have htracks := h.count R hx hle hC
  have hnrcv := h.count_nrcv R hds hnodup hle hC
  rw [h.count_credited R hx hle hC, (i32_natCast_eq_iff _).mpr hK]
  by_cases hb : x.block P = b
  · subst hb
    rw [if_pos rfl, if_pos rfl]
    by_cases hk : (blockPackets P ds (x.block P)).length + 1 = P.kval
    · have hk' : d'.nrcv = P.kval := by rw [hnrcv]; exact_mod_cast hk
      have hfinal := (htracks.nsymb_final R hds hC.sbid (hnodup.filter _) hk'.ge).1 i
      rw [if_pos hk, if_pos hk', hfinal]
    · have hk' : d'.nrcv ≠ P.kval := by rw [hnrcv]; exact_mod_cast hk
      rw [if_neg hk, if_neg hk']
  · rw [if_neg (by exact_mod_cast hb), if_neg hb]

omit hnodup hK in
/-- A credit of a packet is not negative. -/
lemma Tracks.count_credit_nonneg {b : ℤ} {i : Fin n} {s : ℤ} (hs : Event.credit b i s ∈ evs) :
    0 ≤ s := by
  have hx : x ∈ pkts := hds x (by simp)
  rcases hC.credit b i s hs with rfl | rfl
  · norm_num
  · exact sub_nonneg.mpr ((h.count R hx hle hC).nsymbcontig i).2

/-- Until the decode moment, and for a stream of which at most one symbol is held back, a packet is
credited symbol by symbol. -/
lemma Tracks.count_credit_le_one {b : ℕ} (hb : x.block P = b) {i : Fin n}
    (hheld : (blockPackets P (ds ++ [x]) b).length < P.kval ∨
      (taken P pkts b i : ℤ) ≤ (d'.slotStates i).nsymbcontig + 1)
    {s : ℤ} (hs : Event.credit (b : ℤ) i s ∈ evs) : s ≤ 1 := by
  subst hb
  have hx : x ∈ pkts := hds x (by simp)
  have htracks := h.count R hx hle hC
  rcases hheld with hlen | htaken
  · -- the credits of the packet add up to what the early release adds
    have hsum := le_symbolsCredited (fun t ht => h.count_credit_nonneg R hds hle hC ht) hs
    rw [blockPackets_concat_self, List.length_append, List.length_singleton] at hlen
    rw [h.count_credits R hds hnodup hK hle hC, if_pos rfl, if_neg (by omega),
      h.count_nsymbcontig R hx hle hC i] at hsum
    split at hsum <;> omega
  · rcases hC.credit _ i s hs with rfl | rfl
    · exact le_rfl
    · have hsymb : (d'.slotStates i).nsymb ≤ taken P pkts (x.block P) i := by
        rw [htracks.nsymb _ hC.sbid i]
        exact_mod_cast R.symbols_le_taken _ i (R.frontier_le hds)
      omega

end Packet

/-! ### Credits along a run -/

/-- The credits of a decoder that has received the packets `ds`, each of them once. -/
structure Credits (P : RqParams) (pkts ds : List TxPacket) (d : RqDecoder n)
    (evs : List (Event n)) : Prop where
  /-- Nothing is credited to the source blocks behind the current one. -/
  later : ∀ b : ℕ, d.sbid < b → ∀ i, symbolsCredited evs b i = 0
  /-- Before the decode moment the contiguous symbols are credited. -/
  before : ∀ b : ℕ, d.sbid = b → (blockPackets P ds b).length < P.kval →
    ∀ i, symbolsCredited evs b i = (d.slotStates i).nsymbcontig
  /-- From the decode moment on at least the symbols taken are credited. -/
  after : ∀ b : ℕ, d.sbid = b → P.kval ≤ (blockPackets P ds b).length →
    ∀ i, (taken P pkts b i : ℤ) ≤ symbolsCredited evs b i
  /-- No credit is negative. -/
  nonneg : ∀ b i s, Event.credit b i s ∈ evs → 0 ≤ s
  /-- Until the decode moment, and for a stream of which at most one symbol is not contiguous, every
  credit is a single symbol. -/
  single : ∀ b : ℕ, d.sbid = b → ∀ i, ((blockPackets P ds b).length < P.kval ∨
      (taken P pkts b i : ℤ) ≤ (d.slotStates i).nsymbcontig + 1) →
    ∀ s, Event.credit (b : ℤ) i s ∈ evs → s ≤ 1

/-- The constructed decoder has credited nothing. -/
lemma credits_init (P : RqParams) (pkts : List TxPacket) :
    Credits P pkts [] (RqDecoder.init n) [] where
  later := fun _ _ _ => rfl
  before := fun _ _ _ _ => rfl
  after := fun b hb => by simp only [RqDecoder.init] at hb; omega
  nonneg := fun _ _ _ hs => by cases hs
  single := fun _ _ _ _ _ hs => by cases hs

/-- Sending leaves the credits. -/
lemma Credits.tryToSend {P : RqParams} {pkts ds : List TxPacket} {d : RqDecoder n}
    {evs : List (Event n)} (h : Credits P pkts ds d evs) (slot : Fin n)
    (txAvailable : Option ℕ) :
    Credits P pkts ds (RqDecoder.tryToSend d slot txAvailable).1
      (evs ++ (RqDecoder.tryToSend d slot txAvailable).2) := by
  have hd := sameCounters_tryToSend d slot txAvailable
  constructor
  · intro b hb i
    rw [symbolsCredited_append, symbolsCredited_tryToSend, add_zero]
    exact h.later b (hd.sbid ▸ hb) i
  · intro b hb hlen i
    rw [symbolsCredited_append, symbolsCredited_tryToSend, add_zero, hd.nsymbcontig]
    exact h.before b (hd.sbid ▸ hb) hlen i
  · intro b hb hlen i
    rw [symbolsCredited_append, symbolsCredited_tryToSend, add_zero]
    exact h.after b (hd.sbid ▸ hb) hlen i
  · intro b i s hs
    rcases List.mem_append.mp hs with hs | hs
    · exact h.nonneg b i s hs
    · exact absurd hs (credit_notMem_tryToSend d slot txAvailable _ i s)
  · intro b hb i hheld s hs
    rw [hd.nsymbcontig] at hheld
    rcases List.mem_append.mp hs with hs | hs
    · exact h.single b (hd.sbid ▸ hb) i hheld s hs
    · exact absurd hs (credit_notMem_tryToSend d slot txAvailable _ i s)

/-- A discarded packet credits nothing. -/
lemma symbolsCredited_discard (pkt : Packet) (b : ℤ) (i : Fin n) :
    symbolsCredited [Event.rxTrace pkt, .discarded] b i = 0 := rfl

section CreditsStep

variable {P : RqParams} {pkts ds : List TxPacket} {x : TxPacket} {d d' : RqDecoder n}
  {evs evs' : List (Event n)} (hcr : Credits P pkts ds d evs)

include hcr

/-- A discarded packet leaves the credits. -/
lemma Credits.discard (hlt : (x.block P : ℤ) < d.sbid) :
    Credits P pkts (ds ++ [x]) d (evs ++ [.rxTrace x.bytes, .discarded]) := by
  have hblock : ∀ b : ℕ, d.sbid = b → blockPackets P (ds ++ [x]) b = blockPackets P ds b :=
    fun b hb => blockPackets_concat_of_ne ds (by omega)
  constructor
  · intro b hb i
    rw [symbolsCredited_append, symbolsCredited_discard, add_zero]
    exact hcr.later b hb i
  · intro b hb hlen i
    rw [symbolsCredited_append, symbolsCredited_discard, add_zero]
    exact hcr.before b hb (hblock b hb ▸ hlen) i
  · intro b hb hlen i
    rw [symbolsCredited_append, symbolsCredited_discard, add_zero]
    exact hcr.after b hb (hblock b hb ▸ hlen) i
  · intro b i s hs
    rcases List.mem_append.mp hs with hs | hs
    · exact hcr.nonneg b i s hs
    · simp at hs
  · intro b hb i hheld s hs
    rw [hblock b hb] at hheld
    rcases List.mem_append.mp hs with hs | hs
    · exact hcr.single b hb i hheld s hs
    · simp at hs

variable (R : Regime P n pkts) (hds : ∀ y ∈ ds ++ [x], y ∈ pkts) (hnodup : (ds ++ [x]).Nodup)
  (hK : P.kval < 2 ^ 31) (h : Tracks P pkts ds d) (hle : d.sbid ≤ x.block P)
  (hC : Counted P pkts d x d' evs')

include h hle

omit h in
/-- On entering the source block of a packet, the credits of the block are its contiguous symbols
before the decode moment. -/
lemma Credits.enter_before (hlen : (blockPackets P ds (x.block P)).length < P.kval) (i : Fin n) :
    symbolsCredited evs (x.block P) i = ((d.enter (x.block P)).slotStates i).nsymbcontig := by
  rcases hle.lt_or_eq with hlt | heq
  · rw [hcr.later _ hlt i, enter, if_pos hlt]
    rfl
  · rw [hcr.before _ heq hlen i, enter, if_neg heq.not_lt]

/-- On entering the source block of a packet, at least the symbols taken are credited from the
decode moment on. -/
lemma Credits.enter_after (hlen : P.kval ≤ (blockPackets P ds (x.block P)).length) (i : Fin n) :
    (taken P pkts (x.block P) i : ℤ) ≤ symbolsCredited evs (x.block P) i := by
  rcases hle.lt_or_eq with hlt | heq
  · rw [blockPackets_eq_nil (h.sbid ▸ hlt)] at hlen
    have := P.kval_range.1
    exact absurd hlen (by simp; omega)
  · exact hcr.after _ heq hlen i

include R hds hnodup hC

/-- The credits before a packet after which its stream has at most one symbol that is not
contiguous, or which does not complete the `Kval` packets of its block. -/
lemma Credits.enter_single {i : Fin n}
    (hheld : (blockPackets P (ds ++ [x]) (x.block P)).length < P.kval ∨
      (taken P pkts (x.block P) i : ℤ) ≤ (d'.slotStates i).nsymbcontig + 1)
    (s : ℤ) (hs : Event.credit (x.block P : ℤ) i s ∈ evs) : s ≤ 1 := by
  have hx : x ∈ pkts := hds x (by simp)
  rcases hle.lt_or_eq with hlt | heq
  · have hzero := le_symbolsCredited (fun t ht => hcr.nonneg _ i t ht) hs
    rw [hcr.later _ hlt i] at hzero
    omega
  · refine hcr.single _ heq i ?_ s hs
    rw [blockPackets_concat_self, List.length_append, List.length_singleton] at hheld
    by_cases hlen : (blockPackets P ds (x.block P)).length < P.kval
    · exact Or.inl hlen
    · have htaken := hheld.resolve_left (by omega)
      have hcontig := h.count_nsymbcontig R hx hle hC i
      by_cases hrel : (d'.slotStates i).nsymbcontig =
          ((d.enter (x.block P)).slotStates i).nsymbcontig + 1
      · have hlast := h.released_last R hds hnodup hle hC (by omega) hrel
        rw [enter, if_neg heq.not_lt] at hrel
        exact Or.inr (by omega)
      · rw [enter, if_neg heq.not_lt] at hcontig hrel
        split at hcontig <;> exact Or.inr (by omega)

include hK

/-- A counted packet keeps the credits in step. -/
lemma Credits.count : Credits P pkts (ds ++ [x]) d' (evs ++ evs') := by
  have hx : x ∈ pkts := hds x (by simp)
  have hgrow : ∀ i, ((d.enter (x.block P)).slotStates i).nsymbcontig ≤
      (d'.slotStates i).nsymbcontig := by
    intro i
    rw [h.count_nsymbcontig R hx hle hC i]
    split <;> omega
  have hblock : ∀ b : ℕ, d'.sbid = b → x.block P = b := by
    intro b hb
    rw [hC.sbid] at hb
    exact_mod_cast hb
  constructor
  · intro b hb i
    rw [hC.sbid] at hb
    rw [symbolsCredited_append, h.count_credits R hds hnodup hK hle hC, if_neg (by omega),
      add_zero]
    exact hcr.later b (hle.trans_lt hb) i
  · intro b hb hlen i
    obtain rfl := hblock b hb
    rw [blockPackets_concat_self, List.length_append, List.length_singleton] at hlen
    rw [symbolsCredited_append, hcr.enter_before hle (by omega) i,
      h.count_credits R hds hnodup hK hle hC, if_pos rfl, if_neg (by omega)]
    omega
  · intro b hb hlen i
    obtain rfl := hblock b hb
    rw [blockPackets_concat_self, List.length_append, List.length_singleton] at hlen
    rw [symbolsCredited_append, h.count_credits R hds hnodup hK hle hC, if_pos rfl]
    have hi := hgrow i
    rcases hlen.lt_or_eq with hlt | heq
    · have := hcr.enter_after h hle (by omega) i
      rw [if_neg (by omega)]
      omega
    · have := hcr.enter_before hle (by omega) i
      rw [if_pos heq.symm]
      omega
  · intro b i s hs
    rcases List.mem_append.mp hs with hs | hs
    · exact hcr.nonneg b i s hs
    · exact h.count_credit_nonneg R hds hle hC hs
  · intro b hb i hheld s hs
    have hxb := hblock b hb
    rcases List.mem_append.mp hs with hs | hs
    · subst hxb
      exact hcr.enter_single R hds hnodup h hle hC hheld s hs
    · exact h.count_credit_le_one R hds hnodup hK hle hC hxb hheld hs

end CreditsStep

/-! ### Late releases -/

/-- A late release: a packet of the current source block arrives after the decode moment and passes
the contiguity test of its stream. -/
def LateRelease (P : RqParams) (d : RqDecoder n) (hdr : RqHeader) : Prop :=
  d.sbid = (hdr.seqno / P.nval : ℕ) ∧ i32 P.kval ≤ d.nrcv ∧
    ∃ (i : Fin n) (c : ℤ), hdr.iseqStreamid = ((i : ℕ) : ℤ) ∧ hdr.iseqData[(i : ℕ)]? = some c ∧
      (d.slotStates i).nsymbcontig + 1 = max (d.slotStates i).nsymb c

/-- No packet that a run reads is a late release in the state in which it is read. -/
def NoLateRelease (P : RqParams) (steps : List (Step n)) : Prop :=
  ∀ before pkt, before ++ [.recv pkt] <+: steps → ∀ d hdr size,
    (RqDecoder.run P before).1 = some d → RqHeader.peek pkt = some (hdr, size) →
    ¬LateRelease P d hdr

section Late

variable {P : RqParams} {pkts ds : List TxPacket} {x : TxPacket} {d d' : RqDecoder n}
  {evs evs' : List (Event n)} (R : Regime P n pkts) (hds : ∀ y ∈ ds ++ [x], y ∈ pkts)
  (hnodup : (ds ++ [x]).Nodup) (hK : P.kval < 2 ^ 31) (h : Tracks P pkts ds d)
  (hC : Counted P pkts d x d' evs')

include R hds hnodup hK h hC

/-- A late release is a symbol released early in a block from which `Kval` packets had been received
before. -/
lemma lateRelease_iff (hle : d.sbid ≤ x.block P) :
    LateRelease P d x.hdr ↔
      P.kval ≤ (blockPackets P ds (x.block P)).length ∧
        ∃ i, (d'.slotStates i).nsymbcontig =
          ((d.enter (x.block P)).slotStates i).nsymbcontig + 1 := by
  have hx : x ∈ pkts := hds x (by simp)
  have hds' : ∀ y ∈ ds, y ∈ pkts := fun y hy => hds y (List.mem_append_left _ hy)
  have hnodup' : ds.Nodup := (List.nodup_append.mp hnodup).1
  have hcontig := h.count_nsymbcontig R hx hle hC
  have hiseq : ∀ i : Fin n, x.hdr.iseqData[(i : ℕ)]? =
      some (symbols P pkts (x.block P) i (x.hdr.seqno + 1) : ℤ) := by
    intro i
    rw [R.iseqData_eq hx]
    simp
  constructor
  · rintro ⟨hsbid, hnrcv, i, c, hi, hc, htest⟩
    have hb : d.sbid = x.block P := hsbid
    have henter : d.enter (x.block P) = d := by rw [enter, if_neg hb.not_lt]
    rw [h.nrcv_eq R hds' hb (hnodup'.filter _), (i32_natCast_eq_iff _).mpr hK] at hnrcv
    refine ⟨by exact_mod_cast hnrcv, i, ?_⟩
    rw [hiseq i] at hc
    have htest' : ((d.enter (x.block P)).slotStates i).nsymbcontig + 1 =
        (d'.slotStates i).nsymb := by
      rw [hC.nsymb i, henter, htest, ← Option.some.inj hc]
    rw [hcontig i, if_pos ⟨hi, htest'⟩]
  · rintro ⟨hlen, i, hi⟩
    have hb : d.sbid = x.block P := by
      refine hle.lt_or_eq.resolve_left fun hlt => ?_
      rw [blockPackets_eq_nil (h.sbid ▸ hlt)] at hlen
      exact absurd P.kval_range.1 (by simpa using hlen)
    have henter : d.enter (x.block P) = d := by rw [enter, if_neg hb.not_lt]
    rw [hcontig i] at hi
    split at hi
    · rename_i hrel
      refine ⟨hb, ?_, i, _, hrel.1, hiseq i, ?_⟩
      · rw [h.nrcv_eq R hds' hb (hnodup'.filter _), (i32_natCast_eq_iff _).mpr hK]
        exact_mod_cast hlen
      · rw [← henter, hrel.2, hC.nsymb i, henter]
    · omega

end Late

/-! ### Runs -/

section Run

variable {P : RqParams} {pkts ds : List TxPacket} (R : Regime P n pkts) (hds : ∀ x ∈ ds, x ∈ pkts)
  (hnodup : ds.Nodup) (hK : P.kval < 2 ^ 31) {steps : List (Step n)}
  (hsteps : received steps = ds.map TxPacket.bytes)

include R hds hnodup hK hsteps

/-- **Every run that delivers no packet twice keeps the credits in step.** -/
theorem credits_run :
    ∃ d, (RqDecoder.run P steps).1 = some d ∧ Tracks P pkts ds d ∧
      Credits P pkts ds d (RqDecoder.run P steps).2 := by
  refine run_delivery (I := fun pre d evs => Tracks P pkts pre d ∧ Credits P pkts pre d evs) hsteps
    ⟨tracks_init P pkts, credits_init P pkts⟩ ?_ ?_
  · rintro before pre x d evs - hpre - ⟨h, hcr⟩
    have hmem : ∀ y ∈ pre ++ [x], y ∈ pkts := fun y hy => hds y (hpre.subset hy)
    have hx : x ∈ pkts := hmem x (by simp)
    have hnodup' : (pre ++ [x]).Nodup := hnodup.sublist hpre.sublist
    rcases receive_cases R hx d with ⟨hlt, hrecv⟩ | ⟨hle, d', evs', hrecv, hC⟩
    · exact ⟨d, _, hrecv, h.discard hlt, hcr.discard hlt⟩
    · exact ⟨d', evs', hrecv, h.count R hx hle hC, hcr.count R hmem hnodup' hK h hle hC⟩
  · rintro pre d evs slot txAvailable ⟨h, hcr⟩
    exact ⟨h.congr (sameCounters_tryToSend d slot txAvailable), hcr.tryToSend slot txAvailable⟩

/-- **Without late releases nothing is credited beyond the symbols taken.** -/
theorem symbolsCredited_le_taken (hno : NoLateRelease P steps) (b : ℕ) (i : Fin n) :
    symbolsCredited (RqDecoder.run P steps).2 b i ≤ taken P pkts b i := by
  suffices hrun : ∃ d, (RqDecoder.run P steps).1 = some d ∧ Tracks P pkts ds d ∧
      Credits P pkts ds d (RqDecoder.run P steps).2 ∧
      ∀ (b : ℕ) (i : Fin n), symbolsCredited (RqDecoder.run P steps).2 b i ≤ taken P pkts b i by
    obtain ⟨-, -, -, -, hle⟩ := hrun
    exact hle b i
  refine run_delivery (I := fun pre d evs => Tracks P pkts pre d ∧ Credits P pkts pre d evs ∧
    ∀ (b : ℕ) (i : Fin n), symbolsCredited evs b i ≤ taken P pkts b i) hsteps
    ⟨tracks_init P pkts, credits_init P pkts, fun b i => by simp⟩ ?_ ?_
  · rintro before pre x d evs hbefore hpre hd ⟨h, hcr, hbound⟩
    have hmem : ∀ y ∈ pre ++ [x], y ∈ pkts := fun y hy => hds y (hpre.subset hy)
    have hx : x ∈ pkts := hmem x (by simp)
    have hnodup' : (pre ++ [x]).Nodup := hnodup.sublist hpre.sublist
    rcases receive_cases R hx d with ⟨hlt, hrecv⟩ | ⟨hle, d', evs', hrecv, hC⟩
    · refine ⟨d, _, hrecv, h.discard hlt, hcr.discard hlt, fun b i => ?_⟩
      rw [symbolsCredited_append, symbolsCredited_discard, add_zero]
      exact hbound b i
    · have hcr' := hcr.count R hmem hnodup' hK h hle hC
      have htracks := h.count R hx hle hC
      refine ⟨d', evs', hrecv, htracks, hcr', fun b i => ?_⟩
      rw [symbolsCredited_append, h.count_credits R hmem hnodup' hK hle hC]
      by_cases hb : x.block P = b
      · subst hb
        rw [if_pos rfl]
        have hcontig := h.count_nsymbcontig R hx hle hC i
        by_cases hlen : P.kval ≤ (blockPackets P pre (x.block P)).length
        · -- after the decode moment nothing is released any more
          have hsame : (d'.slotStates i).nsymbcontig =
              ((d.enter (x.block P)).slotStates i).nsymbcontig := by
            have hlate := hno before x.bytes hbefore d x.hdr _ hd
              ((R.headerAt hx).peek_bytes R.slots R.nval)
            rw [lateRelease_iff R hmem hnodup' hK h hC hle] at hlate
            rw [hcontig]
            split
            · rename_i hrel
              exact absurd ⟨hlen, i, by rw [hcontig, if_pos hrel]⟩ hlate
            · rw [add_zero]
          rw [hsame, sub_self, if_neg (by omega), add_zero, add_zero]
          exact hbound _ i
        · have hbefore := hcr.enter_before hle (not_le.mp hlen) i
          have hle' : (d'.slotStates i).nsymbcontig ≤ taken P pkts (x.block P) i :=
            calc (d'.slotStates i).nsymbcontig ≤ (d'.slotStates i).nsymb :=
                  (htracks.nsymbcontig i).2
              _ = symbols P pkts (x.block P) i (frontier (pre ++ [x])) :=
                  htracks.nsymb _ hC.sbid i
              _ ≤ taken P pkts (x.block P) i := by
                  exact_mod_cast R.symbols_le_taken _ i (R.frontier_le hmem)
          split <;> omega
      · rw [if_neg hb, add_zero]
        exact hbound b i
  · rintro pre d evs slot txAvailable ⟨h, hcr, hbound⟩
    refine ⟨h.congr (sameCounters_tryToSend d slot txAvailable), hcr.tryToSend slot txAvailable,
      fun b i => ?_⟩
    rw [symbolsCredited_append, symbolsCredited_tryToSend, add_zero]
    exact hbound b i

/-- **A late release credits a symbol twice.** More than the symbols taken are credited from then
on: only the last symbol of a stream is released late, so that no credit of the stream in the block
has wrapped around. -/
theorem lt_bytesCredited_of_lateRelease
    {before : List (Step n)} {pkt : Packet} (hbefore : before ++ [.recv pkt] <+: steps)
    {d : RqDecoder n} {hdr : RqHeader} {size : ℕ} (hd : (RqDecoder.run P before).1 = some d)
    (hpeek : RqHeader.peek pkt = some (hdr, size)) (hlate : LateRelease P d hdr) :
    ∃ x ∈ ds, ∃ i : Fin n, P.kval ≤ (blockPackets P ds (x.block P)).length ∧
      P.tval * taken P pkts (x.block P) i <
        bytesCredited P (RqDecoder.run P steps).2 (x.block P) i := by
  obtain ⟨rest, rfl⟩ := hbefore
  obtain ⟨done, post, rfl, hdone⟩ := exists_prefix_of_received hsteps
  obtain ⟨pre, x, rfl, hpre, rfl⟩ := exists_of_received_concat_recv hdone
  have hmem : ∀ y ∈ pre ++ [x], y ∈ pkts := fun y hy => hds y (List.mem_append_left _ hy)
  have hx : x ∈ pkts := hmem x (by simp)
  have hnodup' : (pre ++ [x]).Nodup := (List.nodup_append.mp hnodup).1
  obtain rfl := R.hdr_eq_of_peek hx hpeek
  obtain ⟨d₀, hd₀, h, hcr⟩ := credits_run R (fun y hy => hmem y (List.mem_append_left _ hy))
    (List.nodup_append.mp hnodup').1 hK hpre
  obtain rfl : d = d₀ := Option.some.inj (hd.symm.trans hd₀)
  rcases receive_cases R hx d with ⟨hlt, -⟩ | ⟨hle, d', evs', hrecv, hC⟩
  · exact absurd hlate.1 hlt.ne'
  obtain ⟨hlen, i, hi⟩ := (lateRelease_iff R hmem hnodup' hK h hC hle).mp hlate
  have hcr' := hcr.count R hmem hnodup' hK h hle hC
  have hsymb : (taken P pkts (x.block P) i : ℤ) <
      symbolsCredited ((RqDecoder.run P before).2 ++ evs') (x.block P) i := by
    have := hcr.enter_after h hle hlen i
    rw [symbolsCredited_append, h.count_credits R hmem hnodup' hK hle hC, if_pos rfl,
      if_neg (by omega)]
    omega
  have hlast := h.released_last R hmem hnodup' hle hC (Nat.le_succ_of_le hlen) hi
  have hsingle := hcr'.single _ hC.sbid i (Or.inr (by omega))
  refine ⟨x, by simp, i, ?_, lt_of_lt_of_le ?_ (bytesCredited_mono P
    (Mealy.run_output_prefix (step P) (some (RqDecoder.init n))
      (List.prefix_append (before ++ [.recv x.bytes]) rest)) _ i)⟩
  · refine hlen.trans (List.Sublist.length_le (List.Sublist.filter _ ?_))
    rw [List.append_assoc]
    exact List.sublist_append_left _ _
  · change _ < bytesCredited P (RqDecoder.run P (before ++ [.recv x.bytes])).2 _ i
    rw [run_concat_recv hd hrecv]
    zify
    rw [bytesCredited_eq fun s hs => ⟨hcr'.nonneg _ i s hs, ?_⟩]
    · exact mul_lt_mul_of_pos_left hsymb (by exact_mod_cast P.tval_range.1)
    · calc s * P.tval ≤ 1 * P.tval :=
            mul_le_mul_of_nonneg_right (hsingle s hs) (Int.natCast_nonneg _)
        _ < 2 ^ 32 := by
            rw [one_mul]
            exact_mod_cast P.tval_range.2

end Run

/-- **When no stream is over-delivered.** Along every run of the decoder on packets of an encoder
run, lost and reordered but none delivered twice, whose sequence numbers fit into an `int`: the
amounts added to the send buffer of a stream on account of a source block add up to at most the
bytes that the encoder took from the stream in that block, for every stream and block, exactly when
there is no late release. -/
theorem bytesCredited_le_iff_noLateRelease (P : RqParams) [NeZero n] (hn : n ≤ txSlotCount)
    (hKN : P.kval ≤ P.nval) (hN : P.nval < 2 ^ 31) (calls : List (SendCall n))
    (hwrap : (RqEncoder.sent P calls).length ≤ P.nval * 2 ^ 32) {ds : List TxPacket}
    (hds : ds.Subperm (RqEncoder.sent P calls)) (hseq : ∀ x ∈ ds, x.hdr.seqno < 2 ^ 31)
    (steps : List (Step n)) (hsteps : received steps = ds.map TxPacket.bytes) :
    (∀ (b : ℕ) (i : Fin n), bytesCredited P (RqDecoder.run P steps).2 b i ≤
        P.tval * taken P (RqEncoder.sent P calls) b i) ↔
      NoLateRelease P steps := by
  have hstream := encodedStream_sent hN calls
  have R := regime_early hn hN calls
  have hmem : ∀ x ∈ ds, x ∈ (RqEncoder.sent P calls).take (2 ^ 31) :=
    fun x hx => hstream.mem_take hwrap (hds.subset hx) (hseq x hx)
  have hnodup : ds.Nodup := hstream.nodup_of_subperm hwrap hds
  have hK : P.kval < 2 ^ 31 := hKN.trans_lt hN
  constructor
  · intro hbound before pkt hbefore d hdr size hd hpeek hlate
    obtain ⟨x, hx, i, hlen, hlt⟩ :=
      lt_bytesCredited_of_lateRelease R hmem hnodup hK hsteps hbefore hd hpeek hlate
    rw [hstream.taken_take hwrap R hmem (hnodup.filter _) hlen] at hlt
    exact absurd (hbound _ i) (not_le.mpr hlt)
  · intro hno b i
    obtain ⟨d, -, -, hcr⟩ := credits_run R hmem hnodup hK hsteps
    have htaken : taken P ((RqEncoder.sent P calls).take (2 ^ 31)) b i ≤
        taken P (RqEncoder.sent P calls) b i :=
      ((List.take_sublist _ _).filter _).length_le
    zify
    calc (bytesCredited P (RqDecoder.run P steps).2 b i : ℤ)
        ≤ P.tval * symbolsCredited (RqDecoder.run P steps).2 b i :=
          bytesCredited_le P hcr.nonneg b i
      _ ≤ P.tval * taken P ((RqEncoder.sent P calls).take (2 ^ 31)) b i :=
          mul_le_mul_of_nonneg_left (symbolsCredited_le_taken R hmem hnodup hK hsteps hno b i)
            (Int.natCast_nonneg _)
      _ ≤ P.tval * taken P (RqEncoder.sent P calls) b i :=
          mul_le_mul_of_nonneg_left (by exact_mod_cast htaken) (Int.natCast_nonneg _)

/-- A block of one source packet and one repair packet is delivered in order: the repair packet
arrives after the decode moment and releases nothing. -/
theorem bytesCredited_le_iff_noLateRelease_block :
    ∃ (P : RqParams) (calls : List (SendCall 1)) (steps : List (Step 1)),
      (RqEncoder.sent P calls).length = 2 ∧
      received steps = (RqEncoder.sent P calls).map TxPacket.bytes ∧
      NoLateRelease P steps ∧
      ∀ (b : ℕ) (i : Fin 1), bytesCredited P (RqDecoder.run P steps).2 b i ≤
        P.tval * taken P (RqEncoder.sent P calls) b i := by
  let P : RqParams := { kval := 1, nval := 2, tval := 1 }
  let calls := List.replicate 2 (SendCall.ready P 1)
  let steps : List (Step 1) := (RqEncoder.sent P calls).map fun x => .recv x.bytes
  have hlen : steps.length = 2 := by decide +kernel
  have hsteps : received steps = (RqEncoder.sent P calls).map TxPacket.bytes := by
    decide +kernel
  have hno : NoLateRelease P steps := by
    rintro before pkt hbefore d hdr size hd hpeek ⟨hsbid, -, i, c, hi, -⟩
    have hpre := List.prefix_iff_eq_take.mp hbefore
    have hle := hbefore.length_le
    rw [List.length_append, List.length_singleton] at hpre hle
    obtain hzero | hone : before.length = 0 ∨ before.length = 1 := by omega
    · -- no source block is current before the first packet
      obtain rfl := List.length_eq_zero_iff.mp hzero
      obtain rfl : RqDecoder.init 1 = d := Option.some.inj hd
      have hnonneg : 0 ≤ (RqDecoder.init 1).sbid := hsbid ▸ Int.natCast_nonneg _
      exact absurd hnonneg (by decide)
    · -- the second packet is a repair packet
      rw [hone] at hpre
      have hlast : Step.recv pkt = steps[1] := by
        have hget : (before ++ [Step.recv pkt])[1]? = (steps.take 2)[1]? := by rw [hpre]
        rw [List.getElem?_append_right hone.le, hone] at hget
        simpa [hlen] using hget
      have hrepair : (RqHeader.peek pkt).map (fun r => r.1.iseqStreamid) = some (-1) := by
        obtain rfl : pkt = ((RqEncoder.sent P calls).get ⟨1, by decide +kernel⟩).bytes := by
          simpa [steps] using hlast
        decide +kernel
      rw [hpeek] at hrepair
      have hid : hdr.iseqStreamid = -1 := Option.some.inj hrepair
      omega
  exact ⟨P, calls, steps, by decide +kernel, hsteps, hno,
    (bytesCredited_le_iff_noLateRelease P (by decide) (by decide) (by decide) calls
      (by decide +kernel) (List.Subperm.refl _) (by decide +kernel) steps hsteps).mpr hno⟩

/-- **A reordered source packet is credited twice.** Of a block of two source packets and one repair
packet, the first packet arrives last: when it arrives, its symbol has been credited already. -/
theorem not_bytesCredited_le_of_subperm :
    ¬∀ (P : RqParams) (calls : List (SendCall 2)) (ds : List TxPacket) (steps : List (Step 2)),
      P.kval ≤ P.nval → ds.Subperm (RqEncoder.sent P calls) →
      received steps = ds.map TxPacket.bytes →
      ∀ (b : ℕ) (i : Fin 2), bytesCredited P (RqDecoder.run P steps).2 b i ≤
        P.tval * taken P (RqEncoder.sent P calls) b i := by
  let P : RqParams := { kval := 2, nval := 3, tval := 1 }
  let calls := List.replicate 3 (SendCall.ready P 2)
  let ds := (RqEncoder.sent P calls).rotate 1
  intro h
  have hle := h P calls ds (ds.map fun x => .recv x.bytes) (by decide)
    (List.rotate_perm _ 1).subperm (by decide +kernel) 0 0
  exact absurd hle (by decide +kernel)

end MeshSim
