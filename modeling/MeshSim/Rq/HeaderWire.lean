import MeshSim.Rq.Header

/-!
# The header on the wire

The wire format of the RQ header in both directions, and how far the parser reads.

Every word of four bytes is what some 32-bit value is written as, so a packet that starts with the
magic number and is long enough for its count is the serialization of a header with something behind
it (`exists_serialize_append`).  The round trip from bytes to bytes then follows from the round trip
of headers.  The parser itself takes the count from the wire without comparing it with the length of
the packet, and `staysInside_iff` says for which packets it nevertheless stays inside.
-/

namespace MeshSim

open MachineInt

/-! ### Words -/

/-- A word read as an `int` is written back as it was. -/
lemma u32_i32 {v : ℕ} (hv : v < 2 ^ 32) : u32 (i32 v) = v := by
  rw [← u32_natCast hv]
  exact u32_congr (by rw [u32_natCast hv]; exact i32_emod v)

/-- Four bytes are what the word read from them is written as. -/
lemma writeHtonU32_word (a b c d : UInt8) :
    writeHtonU32 (a.toNat * 2 ^ 24 + b.toNat * 2 ^ 16 + c.toNat * 2 ^ 8 + d.toNat) =
      [a, b, c, d] := by
  have ha := a.toNat_lt
  have hb := b.toNat_lt
  have hc := c.toNat_lt
  have hd := d.toNat_lt
  simp only [writeHtonU32, List.cons.injEq, and_true, ← UInt8.toNat_inj, UInt8.toNat_ofNat']
  refine ⟨?_, ?_, ?_, ?_⟩ <;> omega

/-- A packet of at least four bytes starts with a word. -/
lemma exists_word {p : Packet} (hp : 4 ≤ p.length) :
    ∃ v < 2 ^ 32, ∃ rest, p = writeHtonU32 v ++ rest := by
  obtain ⟨a, b, c, d, rest, rfl⟩ : ∃ a b c d rest, p = a :: b :: c :: d :: rest := by
    rcases p with _ | ⟨a, _ | ⟨b, _ | ⟨c, _ | ⟨d, rest⟩⟩⟩⟩
    all_goals
      first
      | exact ⟨_, _, _, _, _, rfl⟩
      | simp at hp
  have ha := a.toNat_lt
  have hb := b.toNat_lt
  have hc := c.toNat_lt
  have hd := d.toNat_lt
  refine ⟨a.toNat * 2 ^ 24 + b.toNat * 2 ^ 16 + c.toNat * 2 ^ 8 + d.toNat, by omega, rest, ?_⟩
  rw [writeHtonU32_word]
  rfl

/-- A packet of at least eight bytes starts with a 64-bit word. -/
lemma exists_word64 {p : Packet} (hp : 8 ≤ p.length) :
    ∃ v < 2 ^ 64, ∃ rest, p = writeHtonU64 v ++ rest := by
  obtain ⟨hi, hhi, rest, rfl⟩ := exists_word (p := p) (by omega)
  rw [List.length_append, length_writeHtonU32] at hp
  obtain ⟨lo, hlo, rest, rfl⟩ := exists_word (p := rest) (by omega)
  refine ⟨hi * 2 ^ 32 + lo, by omega, rest, ?_⟩
  have hdiv : (hi * 2 ^ 32 + lo) / 2 ^ 32 = hi := by omega
  have hmod : (hi * 2 ^ 32 + lo) % 2 ^ 32 = lo := by omega
  rw [writeHtonU64, ← writeHtonU32_mod (hi * 2 ^ 32 + lo), hdiv, hmod, List.append_assoc]

/-- The word at an offset of a packet, zero when the packet ends before. -/
def wordAt (p : Packet) (offset : ℕ) : ℕ :=
  ((readNtohU32 (p.drop offset)).map Prod.fst).getD 0

/-- The word at the head of a packet. -/
lemma wordAt_zero {v : ℕ} (hv : v < 2 ^ 32) (rest : Packet) :
    wordAt (writeHtonU32 v ++ rest) 0 = v := by
  rw [wordAt, List.drop_zero, readNtohU32_writeHtonU32 hv]
  rfl

/-- The word that counts, behind the magic number, the sequence number and the stream id. -/
lemma wordAt_count (m seqno streamid : ℕ) {count : ℕ} (hcount : count < 2 ^ 32) (rest : Packet) :
    wordAt (writeHtonU32 m ++ (writeHtonU64 seqno ++ (writeHtonU32 streamid ++
      (writeHtonU32 count ++ rest)))) 16 = count := by
  have hdrop : (writeHtonU32 m ++ (writeHtonU64 seqno ++ (writeHtonU32 streamid ++
      (writeHtonU32 count ++ rest)))).drop 16 = writeHtonU32 count ++ rest := rfl
  rw [wordAt, hdrop, readNtohU32_writeHtonU32 hcount]
  rfl

namespace RqHeader

/-! ### The counts -/

/-- A packet of at least `4 * count` bytes starts with `count` words. -/
lemma exists_iseq (p : Packet) (count : ℕ) (hp : 4 * count ≤ p.length) :
    ∃ xs : List ℤ, xs.length = count ∧ (∀ x ∈ xs, -2 ^ 31 ≤ x ∧ x < 2 ^ 31) ∧
      ∃ rest, p = (xs.flatMap fun x => writeHtonU32 (u32 x)) ++ rest := by
  induction count generalizing p with
  | zero => exact ⟨[], rfl, fun _ hx => (List.not_mem_nil hx).elim, p, rfl⟩
  | succ count ih =>
    obtain ⟨v, hv, rest, rfl⟩ := exists_word (p := p) (by omega)
    rw [List.length_append, length_writeHtonU32] at hp
    obtain ⟨xs, hlen, hxs, rest, rfl⟩ := ih rest (by omega)
    refine ⟨i32 v :: xs, by rw [List.length_cons, hlen],
      List.forall_mem_cons.mpr ⟨i32_range v, hxs⟩, rest, ?_⟩
    rw [List.flatMap_cons, u32_i32 hv, List.append_assoc]

/-- The loop reads as many words as the packet must hold, and no more. -/
lemma readIseq_isSome_iff (p : Packet) (count : ℕ) :
    (readIseq p count).isSome ↔ 4 * count ≤ p.length := by
  induction count generalizing p with
  | zero => simp
  | succ count ih =>
    rw [readIseq_succ]
    rcases lt_or_ge p.length 4 with hp | hp
    · have hnone : readNtohU32 p = none := by
        rcases p with _ | ⟨a, _ | ⟨b, _ | ⟨c, _ | ⟨d, rest⟩⟩⟩⟩
        all_goals
          first
          | rfl
          | (simp only [List.length_cons] at hp; omega)
      rw [hnone, Option.bind_none, Option.isSome_none]
      constructor
      · exact fun h => absurd h Bool.false_ne_true
      · omega
    · obtain ⟨v, hv, rest, rfl⟩ := exists_word hp
      rw [readNtohU32_writeHtonU32 hv, Option.bind_some, Option.isSome_map, ih,
        List.length_append, length_writeHtonU32]
      dsimp only
      omega

/-- The loop appends one count for each iteration. -/
lemma length_of_readIseq {p : Packet} {count : ℕ} {xs : List ℤ} (h : readIseq p count = some xs) :
    xs.length = count := by
  have hp : 4 * count ≤ p.length := (readIseq_isSome_iff p count).mp (by rw [h]; rfl)
  obtain ⟨ys, rfl, hys, rest, rfl⟩ := exists_iseq p count hp
  rw [readIseq_flatMap hys, Option.some.injEq] at h
  rw [h]

/-! ### From bytes to bytes -/

/-- Whether an object is marked valid is not serialized. -/
lemma serialize_valid (h : RqHeader) (valid : Bool) :
    ({ h with valid := valid } : RqHeader).serialize = h.serialize := rfl

/-- **Every packet is a serialization.** A packet that starts with the magic number and holds as
many counts as it announces starts with the serialization of a well-formed header. -/
theorem exists_serialize_append {p : Packet} {c : ℕ} (hmagic : wordAt p 0 = magic)
    (hcount : wordAt p 16 = c) (hc : c < 2 ^ 29) (hp : minSerializedSize + 4 * c ≤ p.length) :
    ∃ h : RqHeader, h.Wf ∧ h.iseqData.length = c ∧ ∃ rest, p = h.serialize ++ rest := by
  rw [minSerializedSize] at hp
  obtain ⟨m, hm, rest, rfl⟩ := exists_word (p := p) (by omega)
  rw [wordAt_zero hm] at hmagic
  subst hmagic
  rw [List.length_append, length_writeHtonU32] at hp
  obtain ⟨seqno, hseqno, rest, rfl⟩ := exists_word64 (p := rest) (by omega)
  rw [List.length_append, length_writeHtonU64] at hp
  obtain ⟨streamid, hstreamid, rest, rfl⟩ := exists_word (p := rest) (by omega)
  rw [List.length_append, length_writeHtonU32] at hp
  obtain ⟨count, hcount', rest, rfl⟩ := exists_word (p := rest) (by omega)
  rw [List.length_append, length_writeHtonU32] at hp
  rw [wordAt_count magic seqno streamid hcount'] at hcount
  subst hcount
  obtain ⟨xs, rfl, hxs, rest, rfl⟩ := exists_iseq rest count (by omega)
  have hrange := i32_range (streamid : ℤ)
  have hw : Wf ⟨true, seqno, i32 streamid, xs⟩ := ⟨hseqno, by simpa using hrange, hxs, hc⟩
  refine ⟨⟨true, seqno, i32 streamid, xs⟩, hw, rfl, rest, ?_⟩
  have hlen : i32 (xs.length : ℤ) = xs.length := i32_of_range (by omega) (by omega)
  simp only [serialize, hlen, u32_i32 hstreamid, u32_natCast hcount', Int.toNat_natCast,
    List.take_length, List.append_assoc]

/-- A header built from values of the types of its fields is well-formed. -/
lemma wf_ofStream {seqno : ℕ} {streamid : ℤ} {iseq : List ℕ} (hseqno : seqno < 2 ^ 64)
    (hstreamid : -2 ^ 31 ≤ streamid ∧ streamid < 2 ^ 31) (hlen : iseq.length < 2 ^ 29) :
    (ofStream seqno streamid iseq).Wf where
  seqno_lt := hseqno
  streamid_range := hstreamid
  iseq_range := by
    intro x hx
    obtain ⟨c, -, rfl⟩ := List.mem_map.mp hx
    exact i32_range c
  iseq_length := by
    rw [ofStream, List.length_map]
    exact hlen

/-- **The wire format is exact in both directions.** What the constructor puts into a header is read
back from its serialization, whatever follows it and whatever object it is read into, and all three
sizes agree; and reading a packet into any object and serializing it again gives back the bytes the
header occupies. -/
theorem round_trip :
    (∀ (old : RqHeader) (seqno : ℕ) (streamid : ℤ) (iseq : List ℕ) (rest : Packet),
      seqno < 2 ^ 64 → -2 ^ 31 ≤ streamid ∧ streamid < 2 ^ 31 → (∀ c ∈ iseq, c < 2 ^ 32) →
      iseq.length < 2 ^ 29 →
      ∃ h size, deserialize old ((ofStream seqno streamid iseq).serialize ++ rest) =
          some (h, size) ∧
        h.valid = true ∧ h.seqno = seqno ∧ h.iseqStreamid = streamid ∧
        h.iseqData = (iseq.map fun c : ℕ => i32 c) ∧
        size = (ofStream seqno streamid iseq).serialize.length ∧
        size = (ofStream seqno streamid iseq).serializedSize) ∧
    ∀ (old : RqHeader) (p : Packet) (c : ℕ), wordAt p 0 = magic → wordAt p 16 = c → c < 2 ^ 29 →
      minSerializedSize + 4 * c ≤ p.length →
      ∃ h size, deserialize old p = some (h, size) ∧
        h.serialize = p.take (minSerializedSize + 4 * c) := by
  constructor
  · intro old seqno streamid iseq rest hseqno hstreamid _ hlen
    have hw := wf_ofStream hseqno hstreamid hlen
    refine ⟨_, _, deserialize_serialize hw old rest, rfl, rfl, rfl, rfl, ?_, ?_⟩
    · exact (length_serialize hw).symm
    · exact hw.serializedSize_eq.symm
  · intro old p c hmagic hcount hc hp
    obtain ⟨h, hw, hlen, rest, rfl⟩ := exists_serialize_append hmagic hcount hc hp
    refine ⟨_, _, deserialize_serialize hw old rest, ?_⟩
    rw [serialize_valid, List.take_left' ((length_serialize hw).trans (by rw [hlen]))]

/-- A header with one count, a packet of the same bytes and one more, and an object that holds
something else. -/
theorem round_trip_one_count :
    let old : RqHeader := { valid := true, seqno := 7, iseqStreamid := 3, iseqData := [1, 2] }
    let p := (ofStream 5 (-1) [2 ^ 32 - 1]).serialize ++ [9]
    (∃ h size, deserialize old p = some (h, size) ∧ h.iseqData = [-1] ∧ size = 24) ∧
      ∃ h size, deserialize old p = some (h, size) ∧ h.serialize = p.take 24 := by
  intro old p
  constructor
  · obtain ⟨h, size, hp, -, -, -, hiseq, hsize, -⟩ :=
      round_trip.1 old 5 (-1) [2 ^ 32 - 1] [9] (by norm_num) (by norm_num) (by decide) (by decide)
    exact ⟨h, size, hp, hiseq.trans (by decide), hsize.trans (by decide)⟩
  · exact round_trip.2 old p 1 (by decide) (by decide) (by norm_num) (by decide)

/-! ### How far the parser reads -/

/-- `Deserialize` reads inside the packet: no iterator runs past its end, and the value it returns
for a header it accepts does not exceed the size of the packet. -/
def StaysInside (old : RqHeader) (p : Packet) : Prop :=
  ∃ h size, deserialize old p = some (h, size) ∧ (h.valid = true → size ≤ p.length)

/-- The value returned for a header is at most what its counts occupy. -/
lemma serializedSize_le {h : RqHeader} {count : ℕ} (hlen : h.iseqData.length = count)
    (hcount : count < 2 ^ 31) : h.serializedSize ≤ minSerializedSize + 4 * count := by
  have hi : i32 (h.iseqData.length : ℤ) = count := by
    rw [hlen]
    exact i32_of_range (by omega) (by omega)
  rw [serializedSize, hi]
  have := u32_le (x := (minSerializedSize : ℤ) + 4 * (count : ℤ)) (by omega)
  omega

/-- **When the parser stays inside.** Behind the size check of its callers, `Deserialize` reads
inside the packet exactly when the magic number is wrong or the packet holds as many counts as it
announces; a count that is negative as an `int` announces none. -/
theorem staysInside_iff (old : RqHeader) {p : Packet} (hp : minSerializedSize ≤ p.length) :
    StaysInside old p ↔
      wordAt p 0 ≠ magic ∨ minSerializedSize + 4 * (i32 (wordAt p 16)).toNat ≤ p.length := by
  rw [minSerializedSize] at hp
  obtain ⟨m, hm, rest, rfl⟩ := exists_word (p := p) (by omega)
  rw [wordAt_zero hm]
  by_cases hmagic : m = magic
  · subst hmagic
    rw [List.length_append, length_writeHtonU32] at hp
    obtain ⟨seqno, hseqno, rest, rfl⟩ := exists_word64 (p := rest) (by omega)
    rw [List.length_append, length_writeHtonU64] at hp
    obtain ⟨streamid, hstreamid, rest, rfl⟩ := exists_word (p := rest) (by omega)
    rw [List.length_append, length_writeHtonU32] at hp
    obtain ⟨count, hcount, rest, rfl⟩ := exists_word (p := rest) (by omega)
    have hlen : (writeHtonU32 magic ++ (writeHtonU64 seqno ++ (writeHtonU32 streamid ++
        (writeHtonU32 count ++ rest)))).length = minSerializedSize + rest.length := by
      simp only [List.length_append, length_writeHtonU32, length_writeHtonU64, minSerializedSize]
      omega
    have hloop := readIseq_isSome_iff rest (i32 count).toNat
    rw [wordAt_count magic seqno streamid hcount, hlen, StaysInside, deserialize_magic]
    simp only [ne_eq, not_true_eq_false, false_or, Nat.add_le_add_iff_left, ← hloop]
    constructor
    · rintro ⟨h, size, heq, -⟩
      by_contra hnone
      rw [Bool.not_eq_true, Option.isSome_eq_false_iff, Option.isNone_iff_eq_none] at hnone
      simp only [deserializeFields, readNtohU64_writeHtonU64 hseqno,
        readNtohU32_writeHtonU32 hstreamid, readNtohU32_writeHtonU32 hcount, hnone,
        reduceCtorEq] at heq
    · intro hsome
      obtain ⟨iseq, hiseq⟩ := Option.isSome_iff_exists.mp hsome
      refine ⟨_, _, deserializeFields_eq (readNtohU64_writeHtonU64 hseqno _)
        (readNtohU32_writeHtonU32 hstreamid _) (readNtohU32_writeHtonU32 hcount _) hiseq,
        fun _ => ?_⟩
      have hrange := (i32_range (count : ℤ)).2
      have hsize := serializedSize_le (h := ⟨true, seqno, i32 streamid, iseq⟩)
        (length_of_readIseq hiseq) (by omega)
      have := hloop.mp hsome
      omega
  · refine iff_of_true
      ⟨{ old with valid := false, seqno := 0, iseqData := [] }, 4, ?_, ?_⟩ (Or.inl hmagic)
    · rw [deserialize, readNtohU32_writeHtonU32 hm]
      exact if_neg hmagic
    · exact fun h => absurd h Bool.false_ne_true

/-- A header with one count stays inside its packet. -/
theorem staysInside_iff_one_count :
    StaysInside (ofSeqno 0) (ofStream 5 (-1) [1]).serialize :=
  (staysInside_iff (ofSeqno 0) (by decide)).mpr (Or.inr (by decide))

/-- **The parser can run past the end.** Twenty bytes that announce one count pass the size check of
the loss monitor, and the loop reads behind them. -/
theorem not_staysInside :
    ¬∀ (old : RqHeader) (p : Packet), minSerializedSize ≤ p.length → StaysInside old p := by
  intro h
  have hp : minSerializedSize ≤ ((ofStream 5 (-1) [1]).serialize.take 20).length := by decide
  obtain ⟨g, size, heq, -⟩ := h (ofSeqno 0) _ hp
  have hnone : deserialize (ofSeqno 0) ((ofStream 5 (-1) [1]).serialize.take 20) = none := by
    decide +kernel
  rw [hnone] at heq
  cases heq

end RqHeader

end MeshSim
