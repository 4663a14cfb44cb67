import MeshSim.Foundation.Mealy
import MeshSim.Foundation.MachineInt
import MeshSim.Foundation.PythonText

/-!
# The byte counts

`LogAndUpdateByteCounts` of `sim/app_rx_cb.cc`: the callback adds the size of each packet that an
application receives to a counter, and logs the counter with the time in microseconds.
-/

namespace MeshSim

open MachineInt PythonText

/-- A packet that an application receives: the time in microseconds, and the size. -/
abbrev Arrival := ℕ × ℕ

/-- A line of the log: the time, and the bytes received until then. -/
abbrev ByteCount := ℤ × ℤ

/-- The text of a line of the log. -/
def ByteCount.text (c : ByteCount) : List Char :=
  formatLong c.1 ++ ' ' :: formatLong c.2 ++ ['\n']

namespace AppRxCb

/-- `LogAndUpdateByteCounts`, on `rx_byte_count`, a `long int`. -/
def logAndUpdateByteCounts (rxByteCount : ℤ) (arrival : Arrival) : ℤ × List ByteCount :=
  (i64 (rxByteCount + arrival.2), [(i64 arrival.1, i64 (rxByteCount + arrival.2))])

/-- The callback along the packets received. -/
def runByteCounts (rxByteCount : ℤ) (arrivals : List Arrival) : ℤ × List ByteCount :=
  Mealy.run logAndUpdateByteCounts rxByteCount arrivals

/-! ### Without a wrap-around -/

/-- The bytes of some packets. -/
def bytes (arrivals : List Arrival) : ℕ := (arrivals.map Prod.snd).sum

@[simp] lemma bytes_nil : bytes [] = 0 := rfl

@[simp] lemma bytes_cons (arrival : Arrival) (arrivals : List Arrival) :
    bytes (arrival :: arrivals) = arrival.2 + bytes arrivals := List.sum_cons

@[simp] lemma bytes_append (arrivals arrivals' : List Arrival) :
    bytes (arrivals ++ arrivals') = bytes arrivals + bytes arrivals' := by
  rw [bytes, List.map_append, List.sum_append]
  rfl

/-- The lines logged from a count on, when nothing wraps around. -/
def counts (count : ℕ) : List Arrival → List ByteCount
  | [] => []
  | arrival :: arrivals =>
    ((arrival.1 : ℤ), ((count + arrival.2 : ℕ) : ℤ)) :: counts (count + arrival.2) arrivals

/-- Packets that a log can hold: the times and the number of bytes are `long int`s. -/
structure Fits (arrivals : List Arrival) : Prop where
  /-- The times. -/
  times : ∀ arrival ∈ arrivals, arrival.1 < 2 ^ 63
  /-- The number of bytes. -/
  bytes : bytes arrivals < 2 ^ 63

/-- **The log.** The counter is the number of bytes received, and every packet has a line. -/
theorem runByteCounts_eq {arrivals : List Arrival} (hfits : Fits arrivals) :
    runByteCounts 0 arrivals = ((bytes arrivals : ℤ), counts 0 arrivals) := by
  suffices h : ∀ (arrivals : List Arrival) (count : ℕ),
      (∀ arrival ∈ arrivals, arrival.1 < 2 ^ 63) → count + bytes arrivals < 2 ^ 63 →
      runByteCounts count arrivals = (((count + bytes arrivals : ℕ) : ℤ), counts count arrivals) by
    have hrun := h arrivals 0 hfits.times (by rw [Nat.zero_add]; exact hfits.bytes)
    rwa [Nat.zero_add] at hrun
  intro arrivals
  induction arrivals with
  | nil => exact fun count _ _ => rfl
  | cons arrival arrivals ih =>
    intro count htimes hlt
    obtain ⟨htime, htimes⟩ := List.forall_mem_cons.mp htimes
    rw [bytes_cons, ← Nat.add_assoc] at hlt
    have hcount : i64 ((count : ℤ) + arrival.2) = ((count + arrival.2 : ℕ) : ℤ) := by
      rw [Nat.cast_add]
      exact i64_of_range (by omega) (by omega)
    have htime' : i64 (arrival.1 : ℤ) = arrival.1 := i64_of_range (by omega) (by omega)
    have hrest := ih (count + arrival.2) htimes hlt
    rw [runByteCounts] at hrest ⊢
    rw [Mealy.run_cons, logAndUpdateByteCounts, hcount, htime', hrest, bytes_cons, counts,
      Nat.add_assoc]
    rfl

/-- The counts do not decrease, and reach the bytes received. -/
lemma mem_counts {count : ℕ} {arrivals : List Arrival} {c : ByteCount}
    (h : c ∈ counts count arrivals) :
    (∃ arrival ∈ arrivals, c.1 = arrival.1) ∧ (count : ℤ) ≤ c.2 ∧
      c.2 ≤ ((count + bytes arrivals : ℕ) : ℤ) := by
  induction arrivals generalizing count with
  | nil => cases h
  | cons arrival arrivals ih =>
    rw [bytes_cons]
    rcases List.mem_cons.mp h with rfl | hmem
    · exact ⟨⟨arrival, List.mem_cons_self, rfl⟩, by dsimp only; omega, by dsimp only; omega⟩
    · obtain ⟨⟨other, hother, heq⟩, hlo, hhi⟩ := ih hmem
      exact ⟨⟨other, List.mem_cons_of_mem _ hother, heq⟩, by omega, by omega⟩

/-- The counts do not decrease. -/
lemma pairwise_counts (count : ℕ) (arrivals : List Arrival) :
    (counts count arrivals).Pairwise fun a b => a.2 ≤ b.2 := by
  induction arrivals generalizing count with
  | nil => exact List.Pairwise.nil
  | cons arrival arrivals ih =>
    rw [counts, List.pairwise_cons]
    exact ⟨fun c hc => (mem_counts hc).2.1, ih _⟩

/-- The times of the lines are the ones of the packets. -/
lemma map_fst_counts (count : ℕ) (arrivals : List Arrival) :
    (counts count arrivals).map Prod.fst = arrivals.map fun arrival => (arrival.1 : ℤ) := by
  induction arrivals generalizing count with
  | nil => rfl
  | cons arrival arrivals ih => rw [counts, List.map_cons, List.map_cons, ih]

/-- The last line has the time of the last packet and all bytes. -/
lemma getLast_counts (count : ℕ) (arrivals : List Arrival) (last : Arrival) :
    (counts count (arrivals ++ [last])).getLast? =
      some ((last.1 : ℤ), ((count + bytes (arrivals ++ [last]) : ℕ) : ℤ)) := by
  induction arrivals generalizing count with
  | nil => rfl
  | cons arrival arrivals ih =>
    rw [List.cons_append, counts, List.getLast?_cons, ih, bytes_cons, Nat.add_assoc]
    rfl

end AppRxCb

end MeshSim
