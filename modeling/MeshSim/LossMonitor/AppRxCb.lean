import MeshSim.Foundation.PriorityWindow
import MeshSim.Rq.Header

/-!
# The loss monitor

`sim/app_rx_cb.cc`: the callback that keeps the sequence numbers of the packets an application
receives in a bounded heap, negated, and logs the gaps, repeats and large reorderings among the
numbers popped from it.

Byte counts and time stamps are not part of the model.  Every pop is recorded with the largest
number popped before it, from which `Pop.line` computes the line that is logged.  A packet that is
too short for its own header has no result: an iterator runs past its end.
-/

namespace MeshSim

open MachineInt

/-- A line of the packet loss log. -/
inductive LogLine where
  /-- `lost_range`, with the first and the last number lost. -/
  | lostRange (first last : ℤ)
  /-- `dup`, with the number repeated. -/
  | dup (seqno : ℤ)
  /-- `large_reorder`, with the number and the largest one popped before it. -/
  | largeReorder (seqno largest : ℤ)
  /-- `largest_seqno_processed`. -/
  | largestSeqnoProcessed (seqno : ℤ)
deriving DecidableEq, Repr

/-- A number popped from the heap, with the value of `pl_largest_popped` at that time. -/
structure Pop where
  /-- The number popped. -/
  value : ℤ
  /-- The largest number popped before. -/
  largest : ℤ
deriving DecidableEq, Repr

/-- The checks for reordering and duplicates, and the line they log. -/
def Pop.line (p : Pop) : Option LogLine :=
  if p.value < p.largest then some (.largeReorder p.value p.largest)
  else if p.value = p.largest then some (.dup p.value)
  else if p.largest + 1 < p.value then some (.lostRange (p.largest + 1) (p.value - 1))
  else none

/-- The members of `AppRxCb` that measure packet loss. -/
structure AppRxCb where
  /-- Whether `pl_fp` is a file. -/
  plFp : Bool
  /-- `n_pl_heap_max_sz`. -/
  plHeapMaxSz : ℕ
  /-- The elements of `pl_heap` in use: the sequence numbers, negated. -/
  plHeap : Array ℤ
  /-- `pl_largest_popped`. -/
  plLargestPopped : ℤ
deriving DecidableEq

namespace AppRxCb

/-- The constructor. -/
def init (plFp : Bool) (plWindowSize : ℕ) : AppRxCb where
  plFp := plFp
  plHeapMaxSz := plWindowSize
  plHeap := #[]
  plLargestPopped := -1

/-- `LogAndUpdateLosses` behind the checks of the header. -/
def update (m : AppRxCb) (seqno : ℕ) : AppRxCb × List Pop :=
  let r : AppRxCb × List Pop :=
    if m.plHeap.size = m.plHeapMaxSz then
      -- the heap is full, so the smallest number leaves it
      let heap := BinaryHeap.popHeap id m.plHeap
      let v := i64 (-(heap.back?.getD 0))
      ({ m with
          plHeap := heap.pop
          plLargestPopped := if m.plLargestPopped < v then v else m.plLargestPopped },
        [{ value := v, largest := m.plLargestPopped }])
    else (m, [])
  ({ r.1 with plHeap := BinaryHeap.pushHeap id (r.1.plHeap.push (i64 (-seqno))) }, r.2)

/-- `LogAndUpdateLosses`. -/
def logAndUpdateLosses (m : AppRxCb) (packet : Packet) : Option (AppRxCb × List Pop) :=
  if m.plFp = false then some (m, [])
  else if packet.length < RqHeader.minSerializedSize then some (m, [])
  else
    match RqHeader.peek packet with
    | none => none
    | some (hdr, _) => if hdr.valid then some (m.update hdr.seqno) else some (m, [])

/-- The callback along the packets received. -/
def run (m : AppRxCb) : List Packet → Option (AppRxCb × List Pop)
  | [] => some (m, [])
  | packet :: packets =>
    match m.logAndUpdateLosses packet with
    | none => none
    | some (m', pops) => (run m' packets).map fun r => (r.1, pops ++ r.2)

/-- The lines logged for a list of pops. -/
def log (pops : List Pop) : List LogLine := pops.filterMap Pop.line

/-- The line that the destructor `~AppRxCb` writes. -/
def close (m : AppRxCb) : List LogLine :=
  if m.plFp = true ∧ -1 < m.plLargestPopped then [.largestSeqnoProcessed m.plLargestPopped] else []

/-- The sequence number of a packet with a valid header. -/
def seqno? (packet : Packet) : Option ℕ :=
  if packet.length < RqHeader.minSerializedSize then none
  else
    match RqHeader.peek packet with
    | none => none
    | some (hdr, _) => if hdr.valid then some hdr.seqno else none

/-- The sequence numbers that arrive with a list of packets. -/
def arrivals (packets : List Packet) : List ℕ := packets.filterMap seqno?

/-! ### Runs over sequence numbers -/

/-- The log file stays. -/
@[simp] lemma update_plFp (m : AppRxCb) (seqno : ℕ) : (m.update seqno).1.plFp = m.plFp := by
  unfold update
  split <;> rfl

/-- A packet that its header, if it has one, does not run beyond. -/
def readable (packet : Packet) : Bool :=
  packet.length < RqHeader.minSerializedSize || (RqHeader.peek packet).isSome

/-- A readable packet updates the monitor with its sequence number, if it has a valid header, and
leaves it otherwise. -/
lemma logAndUpdateLosses_eq {m : AppRxCb} (hfp : m.plFp = true) {packet : Packet}
    (hread : readable packet) :
    m.logAndUpdateLosses packet =
      some (match seqno? packet with
        | some seqno => m.update seqno
        | none => (m, [])) := by
  rw [logAndUpdateLosses, seqno?, if_neg (by rw [hfp]; decide)]
  by_cases hshort : packet.length < RqHeader.minSerializedSize
  · rw [if_pos hshort, if_pos hshort]
  · have hsome : (RqHeader.peek packet).isSome := by
      simpa [readable, hshort] using hread
    obtain ⟨⟨hdr, size⟩, hpeek⟩ := Option.isSome_iff_exists.mp hsome
    rw [if_neg hshort, if_neg hshort, hpeek]
    by_cases hvalid : hdr.valid = true
    · simp only [hvalid, if_true]
    · simp only [hvalid]
      rfl

/-- **Only the sequence numbers of packets with a valid header count.** -/
theorem run_eq {m : AppRxCb} (hfp : m.plFp = true) {packets : List Packet}
    (hread : ∀ packet ∈ packets, readable packet) :
    m.run packets = some (Mealy.run update m (arrivals packets)) := by
  induction packets generalizing m with
  | nil => rfl
  | cons packet packets ih =>
    obtain ⟨hpacket, hpackets⟩ := List.forall_mem_cons.mp hread
    rw [run, logAndUpdateLosses_eq hfp hpacket]
    cases hseq : seqno? packet with
    | none =>
      dsimp only
      rw [arrivals, List.filterMap_cons_none hseq, ih hfp hpackets]
      rfl
    | some seqno =>
      dsimp only
      rw [arrivals, List.filterMap_cons_some hseq, Mealy.run_cons,
        ih ((update_plFp m seqno).trans hfp) hpackets]
      rfl

end AppRxCb

end MeshSim
