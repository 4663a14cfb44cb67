import MeshSim.Foundation.MachineInt

/-!
# The RaptorQ packet header

`ns3_apps/rq-header.cc`: the header that the RQ encoder and the streaming sender put in front of
their payload, its wire format, and the parser that the RQ decoder and the loss monitor use.

A packet is its list of bytes, front to back.  Reading is partial: `none` means that an iterator ran
past the end of the packet.  `deserialize_serialize` is the round trip of the wire format for every
header whose fields are in the range of their types.
-/

namespace MeshSim

open MachineInt

/-- The bytes of an ns-3 packet, front to back. -/
abbrev Packet := List UInt8

/-! ### Buffer iterators -/

/-- `Buffer::Iterator::WriteHtonU32`: four bytes, most significant first. -/
def writeHtonU32 (v : ℕ) : Packet :=
  [UInt8.ofNat (v / 2 ^ 24), UInt8.ofNat (v / 2 ^ 16), UInt8.ofNat (v / 2 ^ 8), UInt8.ofNat v]

/-- `Buffer::Iterator::WriteHtonU64`: eight bytes, most significant first. -/
def writeHtonU64 (v : ℕ) : Packet := writeHtonU32 (v / 2 ^ 32) ++ writeHtonU32 v

/-- `Buffer::Iterator::ReadNtohU32`, with the rest of the packet. -/
def readNtohU32 : Packet → Option (ℕ × Packet)
  | a :: b :: c :: d :: rest =>
    some (a.toNat * 2 ^ 24 + b.toNat * 2 ^ 16 + c.toNat * 2 ^ 8 + d.toNat, rest)
  | _ => none

/-- `Buffer::Iterator::ReadNtohU64`, with the rest of the packet. -/
def readNtohU64 (p : Packet) : Option (ℕ × Packet) := do
  let (hi, p) ← readNtohU32 p
  let (lo, p) ← readNtohU32 p
  some (hi * 2 ^ 32 + lo, p)

/-- A 32-bit word occupies four bytes. -/
@[simp] lemma length_writeHtonU32 (v : ℕ) : (writeHtonU32 v).length = 4 := rfl

/-- A 64-bit word occupies eight bytes. -/
@[simp] lemma length_writeHtonU64 (v : ℕ) : (writeHtonU64 v).length = 8 := rfl

/-- Reading back a 32-bit word. -/
lemma readNtohU32_writeHtonU32 {v : ℕ} (hv : v < 2 ^ 32) (rest : Packet) :
    readNtohU32 (writeHtonU32 v ++ rest) = some (v, rest) := by
  have hval : v / 2 ^ 24 % 256 * 2 ^ 24 + v / 2 ^ 16 % 256 * 2 ^ 16 + v / 2 ^ 8 % 256 * 2 ^ 8 +
      v % 256 = v := by omega
  simpa [writeHtonU32, readNtohU32] using hval

/-- A byte is determined by the residue of its value. -/
private lemma byte_congr {a b : ℕ} (h : a % 256 = b % 256) : UInt8.ofNat a = UInt8.ofNat b := by
  apply UInt8.toNat_inj.mp
  simpa using h

/-- Only the low 32 bits of a value are written. -/
lemma writeHtonU32_mod (v : ℕ) : writeHtonU32 (v % 2 ^ 32) = writeHtonU32 v := by
  simp only [writeHtonU32, List.cons.injEq, and_true]
  exact ⟨byte_congr (by omega), byte_congr (by omega), byte_congr (by omega),
    byte_congr (by omega)⟩

/-- Reading back a 64-bit word. -/
lemma readNtohU64_writeHtonU64 {v : ℕ} (hv : v < 2 ^ 64) (rest : Packet) :
    readNtohU64 (writeHtonU64 v ++ rest) = some (v, rest) := by
  have hlo : writeHtonU32 v = writeHtonU32 (v % 2 ^ 32) := (writeHtonU32_mod v).symm
  have hval : v / 2 ^ 32 * 2 ^ 32 + v % 2 ^ 32 = v := by omega
  rw [writeHtonU64, hlo, List.append_assoc, readNtohU64,
    readNtohU32_writeHtonU32 (by omega)]
  simp only [Option.bind_eq_bind, Option.bind_some]
  rw [readNtohU32_writeHtonU32 (by omega)]
  simp only [Option.bind_some, hval]

/-! ### The header -/

/-- `MAGIC`. -/
def magic : ℕ := 0x5271480d

/-- The members of `RqHeader`. -/
structure RqHeader where
  /-- `m_valid`. -/
  valid : Bool
  /-- `m_seqno`, a `uint64_t`. -/
  seqno : ℕ
  /-- `m_iseq_streamid`, an `int32_t`. -/
  iseqStreamid : ℤ
  /-- `m_iseq_data`, a vector of `int`. -/
  iseqData : List ℤ
deriving DecidableEq, Repr

namespace RqHeader

/-- `RqHeader (uint64_t seqno)`: the constructor documented as creating a null header.  Its body
overwrites the members again and never reads its argument. -/
def ofSeqno (_seqno : ℕ) : RqHeader :=
  { valid := false, seqno := 0, iseqStreamid := 0, iseqData := [] }

/-- `RqHeader (seqno, iseq_streamid, iseq_count, iseq_data)`: the `iseq_count` leading entries of
the `uint32_t` array are copied into a vector of `int`. -/
def ofStream (seqno : ℕ) (iseqStreamid : ℤ) (iseqData : List ℕ) : RqHeader :=
  { valid := true, seqno := seqno, iseqStreamid := iseqStreamid
    iseqData := iseqData.map fun c : ℕ => i32 c }

/-- `GetMinSerializedSize`: magic, sequence number, stream id and count. -/
def minSerializedSize : ℕ := 4 + 8 + 4 + 4

/-- `GetSerializedSize`. -/
def serializedSize (h : RqHeader) : ℕ := u32 (minSerializedSize + 4 * i32 h.iseqData.length)

/-- `Serialize`: `m_valid` is not written. -/
def serialize (h : RqHeader) : Packet :=
  writeHtonU32 magic ++ (writeHtonU64 h.seqno ++ (writeHtonU32 (u32 h.iseqStreamid) ++
    (writeHtonU32 (u32 (i32 h.iseqData.length)) ++
      (h.iseqData.take (i32 h.iseqData.length).toNat).flatMap fun x => writeHtonU32 (u32 x))))

/-- The loop of `Deserialize` that appends `count` words to `m_iseq_data`. -/
def readIseq : Packet → ℕ → Option (List ℤ)
  | p, count =>
    if count = 0 then some []
    else match p with
      | a :: b :: c :: d :: rest =>
        (readIseq rest (count - 1)).map fun xs =>
          i32 (a.toNat * 2 ^ 24 + b.toNat * 2 ^ 16 + c.toNat * 2 ^ 8 + d.toNat : ℕ) :: xs
      | _ => none

/-- The part of `Deserialize` behind a correct magic number, with the value it returns. -/
def deserializeFields (p : Packet) : Option (RqHeader × ℕ) :=
  match readNtohU64 p with
  | none => none
  | some (seqno, p) =>
    match readNtohU32 p with
    | none => none
    | some (streamid, p) =>
      match readNtohU32 p with
      | none => none
      | some (iseqSz, p) =>
        match readIseq p (i32 iseqSz).toNat with
        | none => none
        | some iseq =>
          let h : RqHeader :=
            { valid := true, seqno := seqno, iseqStreamid := i32 streamid, iseqData := iseq }
          some (h, h.serializedSize)

/-- `Deserialize` into the header object `old`, with the value it returns.  On a wrong magic number
only the stream id of the old object is left. -/
def deserialize (old : RqHeader) (p : Packet) : Option (RqHeader × ℕ) :=
  match readNtohU32 p with
  | none => none
  | some (m, p) =>
    if m = magic then deserializeFields p
    else some ({ old with valid := false, seqno := 0, iseqData := [] }, 4)

/-- `Packet::PeekHeader` on a fresh header object. -/
def peek (p : Packet) : Option (RqHeader × ℕ) := deserialize (ofSeqno 0) p

/-- The fields are values of their C++ types, and the count fits the size computation. -/
structure Wf (h : RqHeader) : Prop where
  /-- The sequence number is a `uint64_t`. -/
  seqno_lt : h.seqno < 2 ^ 64
  /-- The stream id is an `int32_t`. -/
  streamid_range : -2 ^ 31 ≤ h.iseqStreamid ∧ h.iseqStreamid < 2 ^ 31
  /-- The counts are `int`s. -/
  iseq_range : ∀ x ∈ h.iseqData, -2 ^ 31 ≤ x ∧ x < 2 ^ 31
  /-- The serialized size does not overflow. -/
  iseq_length : h.iseqData.length < 2 ^ 29

/-! ### Round trip -/

/-- An `int` survives being written as an unsigned word and read back as an `int`. -/
lemma i32_u32 {x : ℤ} (h : -2 ^ 31 ≤ x ∧ x < 2 ^ 31) : i32 (u32 x) = x := by
  have hmod := i32_emod (u32 x : ℤ)
  rw [u32_emod] at hmod
  have hrange := i32_range (u32 x : ℤ)
  omega

/-- Without iterations the loop reads nothing. -/
@[simp] lemma readIseq_zero (p : Packet) : readIseq p 0 = some [] := by
  unfold readIseq
  simp

/-- One iteration of the loop reads one word. -/
lemma readIseq_succ (p : Packet) (count : ℕ) :
    readIseq p (count + 1) =
      (readNtohU32 p).bind fun r => (readIseq r.2 count).map fun xs => i32 r.1 :: xs := by
  conv_lhs => unfold readIseq
  rw [if_neg (Nat.succ_ne_zero count), Nat.add_sub_cancel]
  rcases p with _ | ⟨a, _ | ⟨b, _ | ⟨c, _ | ⟨d, rest⟩⟩⟩⟩ <;> rfl

/-- Reading back the counts. -/
lemma readIseq_flatMap {xs : List ℤ} (hxs : ∀ x ∈ xs, -2 ^ 31 ≤ x ∧ x < 2 ^ 31) (rest : Packet) :
    readIseq ((xs.flatMap fun x => writeHtonU32 (u32 x)) ++ rest) xs.length = some xs := by
  induction xs with
  | nil => simp
  | cons x xs ih =>
    rw [List.forall_mem_cons] at hxs
    rw [List.length_cons, List.flatMap_cons, List.append_assoc, readIseq_succ,
      readNtohU32_writeHtonU32 (u32_lt x)]
    simp only [Option.bind_some, ih hxs.2, Option.map_some, i32_u32 hxs.1]

/-- The serialized size of a well-formed header, without overflow. -/
lemma Wf.serializedSize_eq {h : RqHeader} (hw : h.Wf) :
    h.serializedSize = minSerializedSize + 4 * h.iseqData.length := by
  have hlen := hw.iseq_length
  have hi : i32 (h.iseqData.length : ℤ) = h.iseqData.length :=
    i32_of_range (by omega) (by omega)
  unfold serializedSize
  rw [hi]
  unfold minSerializedSize
  have := u32_of_lt (x := ((4 + 8 + 4 + 4 : ℕ) : ℤ) + 4 * (h.iseqData.length : ℤ)) (by omega)
    (by push_cast; omega)
  omega

/-- Behind the magic number the fields are read. -/
lemma deserialize_magic (old : RqHeader) (p : Packet) :
    deserialize old (writeHtonU32 magic ++ p) = deserializeFields p := by
  have hmagic : magic < 2 ^ 32 := by norm_num [magic]
  rw [deserialize, readNtohU32_writeHtonU32 hmagic]
  exact if_pos rfl

/-- What the field parser returns when its reads succeed. -/
lemma deserializeFields_eq {p p₁ p₂ p₃ : Packet} {seqno streamid iseqSz : ℕ} {iseq : List ℤ}
    (hseqno : readNtohU64 p = some (seqno, p₁)) (hstreamid : readNtohU32 p₁ = some (streamid, p₂))
    (hsize : readNtohU32 p₂ = some (iseqSz, p₃))
    (hiseq : readIseq p₃ (i32 iseqSz).toNat = some iseq) :
    deserializeFields p =
      some (⟨true, seqno, i32 streamid, iseq⟩,
        serializedSize ⟨true, seqno, i32 streamid, iseq⟩) := by
  simp only [deserializeFields, hseqno, hstreamid, hsize, hiseq]

/-- **Round trip.** Parsing a serialized well-formed header, whatever follows it and whatever object
it is parsed into, gives the fields of the header and marks it valid. -/
theorem deserialize_serialize {h : RqHeader} (hw : h.Wf) (old : RqHeader) (rest : Packet) :
    deserialize old (h.serialize ++ rest) =
      some ({ h with valid := true }, minSerializedSize + 4 * h.iseqData.length) := by
  have hlen := hw.iseq_length
  have hi : i32 (h.iseqData.length : ℤ) = h.iseqData.length :=
    i32_of_range (by omega) (by omega)
  have hcount : (i32 (u32 (h.iseqData.length : ℤ) : ℤ)).toNat = h.iseqData.length := by
    rw [i32_u32 ⟨by omega, by omega⟩]
    omega
  have hiseq : readIseq ((h.iseqData.flatMap fun x => writeHtonU32 (u32 x)) ++ rest)
      (i32 (u32 (h.iseqData.length : ℤ) : ℤ)).toNat = some h.iseqData := by
    rw [hcount]
    exact readIseq_flatMap hw.iseq_range rest
  have hwf : ({ h with valid := true } : RqHeader).Wf :=
    ⟨hw.seqno_lt, hw.streamid_range, hw.iseq_range, hw.iseq_length⟩
  rw [serialize, hi, Int.toNat_natCast, List.take_length]
  simp only [List.append_assoc]
  rw [deserialize_magic, deserializeFields_eq (readNtohU64_writeHtonU64 hw.seqno_lt _)
    (readNtohU32_writeHtonU32 (u32_lt _) _) (readNtohU32_writeHtonU32 (u32_lt _) _) hiseq,
    i32_u32 hw.streamid_range, hwf.serializedSize_eq]

/-- A header object with its fields serializes to the announced number of bytes. -/
theorem length_serialize {h : RqHeader} (hw : h.Wf) :
    h.serialize.length = minSerializedSize + 4 * h.iseqData.length := by
  have hlen := hw.iseq_length
  have hi : i32 (h.iseqData.length : ℤ) = h.iseqData.length :=
    i32_of_range (by omega) (by omega)
  simp only [serialize, List.length_append, length_writeHtonU32, length_writeHtonU64, hi,
    Int.toNat_natCast, List.take_length, List.length_flatMap, List.map_const',
    List.sum_replicate, minSerializedSize]
  simp only [smul_eq_mul]
  omega

end RqHeader

end MeshSim
