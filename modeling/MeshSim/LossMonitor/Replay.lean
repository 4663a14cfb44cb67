import MeshSim.LossMonitor.AppRxCb

/-!
# The log as a function of the numbers popped

The monitor is a priority window over the sequence numbers, and what it logs depends only on the
numbers the window pops: `replay` repeats the bookkeeping of `pl_largest_popped` along them
(`run_eq_replay`).  For any such list, the ranges logged as lost and the numbers popped as a new
maximum partition the numbers up to the largest one popped (`partition_replay`).
-/

namespace MeshSim

open MachineInt

/-- The pops of a list of numbers, from a value of `pl_largest_popped` on. -/
def replay (largest : ℤ) : List ℤ → List Pop
  | [] => []
  | v :: vs => { value := v, largest := largest } :: replay (max largest v) vs

/-- The largest number after a list of numbers is popped. -/
def largestAfter (largest : ℤ) (vs : List ℤ) : ℤ := vs.foldl max largest

/-- Popping nothing. -/
@[simp] lemma replay_nil (largest : ℤ) : replay largest [] = [] := rfl

/-- Popping one more number first. -/
@[simp] lemma replay_cons (largest v : ℤ) (vs : List ℤ) :
    replay largest (v :: vs) =
      { value := v, largest := largest } :: replay (max largest v) vs := rfl

/-- Replaying a concatenation. -/
lemma replay_append (largest : ℤ) (vs ws : List ℤ) :
    replay largest (vs ++ ws) = replay largest vs ++ replay (largestAfter largest vs) ws := by
  induction vs generalizing largest with
  | nil => rfl
  | cons v vs ih => simp [ih, largestAfter]

/-- The largest number does not decrease. -/
lemma le_largestAfter (largest : ℤ) (vs : List ℤ) : largest ≤ largestAfter largest vs := by
  induction vs generalizing largest with
  | nil => exact le_rfl
  | cons v vs ih => exact (le_max_left _ _).trans (ih _)

/-- The largest number bounds a value exactly when it bounds all of them. -/
lemma largestAfter_le_iff (largest : ℤ) (vs : List ℤ) (x : ℤ) :
    largestAfter largest vs ≤ x ↔ largest ≤ x ∧ ∀ v ∈ vs, v ≤ x := by
  induction vs generalizing largest with
  | nil => simp [largestAfter]
  | cons v vs ih =>
    rw [List.forall_mem_cons, ← and_assoc, ← max_le_iff]
    exact ih _

/-! ### What is logged -/

/-- The range of a `lost_range` line. -/
def LogLine.range? : LogLine → Option (ℤ × ℤ)
  | .lostRange first last => some (first, last)
  | .dup _ => none
  | .largeReorder _ _ => none
  | .largestSeqnoProcessed _ => none

/-- The ranges logged as lost. -/
def lostRanges (lines : List LogLine) : List (ℤ × ℤ) := lines.filterMap LogLine.range?

/-- The numbers popped as a new maximum. -/
def newMaxima (pops : List Pop) : List ℤ :=
  (pops.filter fun p => p.largest < p.value).map Pop.value

/-- The number of `dup` lines. -/
def dupCount (lines : List LogLine) : ℕ :=
  lines.countP fun l => match l with
    | .dup _ => true
    | _ => false

/-- The number of `large_reorder` lines. -/
def largeReorderCount (lines : List LogLine) : ℕ :=
  lines.countP fun l => match l with
    | .largeReorder _ _ => true
    | _ => false

/-- **The four branches of the check.** -/
lemma Pop.line_cases (p : Pop) :
    (p.value < p.largest ∧ p.line = some (.largeReorder p.value p.largest)) ∨
      (p.value = p.largest ∧ p.line = some (.dup p.value)) ∨
      (p.largest + 1 < p.value ∧ p.line = some (.lostRange (p.largest + 1) (p.value - 1))) ∨
      (p.largest + 1 = p.value ∧ p.line = none) := by
  unfold Pop.line
  split
  · exact Or.inl ⟨‹_›, rfl⟩
  · split
    · exact Or.inr (Or.inl ⟨‹_›, rfl⟩)
    · split
      · exact Or.inr (Or.inr (Or.inl ⟨‹_›, rfl⟩))
      · exact Or.inr (Or.inr (Or.inr ⟨by omega, rfl⟩))

/-- The lines of one more pop in front. -/
lemma AppRxCb.log_cons (p : Pop) (pops : List Pop) :
    AppRxCb.log (p :: pops) = p.line.toList ++ AppRxCb.log pops := by
  unfold AppRxCb.log
  cases hp : p.line with
  | none => rw [List.filterMap_cons_none hp, Option.toList_none, List.nil_append]
  | some l => rw [List.filterMap_cons_some hp, Option.toList_some, List.singleton_append]

/-- The new maxima of one more pop in front. -/
lemma newMaxima_cons (p : Pop) (pops : List Pop) :
    newMaxima (p :: pops) = (if p.largest < p.value then [p.value] else []) ++ newMaxima pops := by
  by_cases h : p.largest < p.value
  · simp [newMaxima, h]
  · simp [newMaxima, h]

open AppRxCb in
/-- **The ranges are increasing.** Those logged from a value of `pl_largest_popped` on are not
empty, lie above it and up to the largest number popped, and each ends before the next begins. -/
theorem lostRanges_replay (largest : ℤ) (vs : List ℤ) :
    (lostRanges (log (replay largest vs))).Pairwise (fun r r' => r.2 < r'.1) ∧
      ∀ r ∈ lostRanges (log (replay largest vs)),
        largest < r.1 ∧ r.1 ≤ r.2 ∧ r.2 < largestAfter largest vs := by
  induction vs generalizing largest with
  | nil => exact ⟨List.Pairwise.nil, fun r hr => by cases hr⟩
  | cons v vs ih =>
    obtain ⟨hpair, hrange⟩ := ih (max largest v)
    have hle : max largest v ≤ largestAfter largest (v :: vs) := le_largestAfter _ vs
    have hrange' : ∀ r ∈ lostRanges (log (replay (max largest v) vs)),
        largest < r.1 ∧ r.1 ≤ r.2 ∧ r.2 < largestAfter largest (v :: vs) := fun r hr =>
      ⟨(le_max_left _ _).trans_lt (hrange r hr).1, (hrange r hr).2⟩
    rw [replay_cons, log_cons]
    rcases Pop.line_cases { value := v, largest := largest } with
      ⟨-, hline⟩ | ⟨-, hline⟩ | ⟨hlt, hline⟩ | ⟨-, hline⟩
    · rw [hline]
      exact ⟨hpair, hrange'⟩
    · rw [hline]
      exact ⟨hpair, hrange'⟩
    · rw [hline]
      dsimp only at hlt
      have hmax : max largest v = v := max_eq_right (by omega)
      refine ⟨List.pairwise_cons.mpr ⟨fun r hr => ?_, hpair⟩, fun r hr => ?_⟩
      · have := (hrange r hr).1
        rw [hmax] at this
        exact (sub_one_lt v).trans this
      · rcases List.mem_cons.mp hr with rfl | hr
        · rw [hmax] at hle
          exact ⟨lt_add_one largest, by dsimp only; omega, (sub_one_lt v).trans_le hle⟩
        · exact hrange' r hr
    · rw [hline]
      exact ⟨hpair, hrange'⟩

/-- One pop logs as lost, or takes as a new maximum, the numbers by which it raises the largest. -/
lemma partition_pop (p : Pop) (k : ℤ) :
    (lostRanges p.line.toList).countP (fun r => r.1 ≤ k ∧ k ≤ r.2) +
        (if p.largest < p.value then [p.value] else []).count k =
      if p.largest < k ∧ k ≤ max p.largest p.value then 1 else 0 := by
  rcases p.line_cases with ⟨h, hline⟩ | ⟨h, hline⟩ | ⟨h, hline⟩ | ⟨h, hline⟩
  · rw [hline, if_neg (by omega), if_neg (by omega)]
    rfl
  · rw [hline, if_neg (by omega), if_neg (by omega)]
    rfl
  · have hlost : lostRanges (p.line.toList) = [(p.largest + 1, p.value - 1)] := by rw [hline]; rfl
    rw [hlost, if_pos (by omega), List.countP_singleton, List.count_singleton,
      max_eq_right (by omega)]
    by_cases hk : p.value = k
    · subst hk
      simp
      omega
    · simp [hk]
      split_ifs <;> omega
  · rw [hline, if_pos (by omega), max_eq_right (by omega), List.count_singleton, ← h]
    by_cases hk : p.largest + 1 = k
    · subst hk
      simp [lostRanges]
    · simp [lostRanges, hk]
      omega

open AppRxCb in
/-- **The partition.** From a value of `pl_largest_popped` on, every number above it and up to the
largest number popped either is in exactly one range logged as lost or is popped exactly once as a
new maximum, and no other number is. -/
theorem partition_replay (largest k : ℤ) (vs : List ℤ) :
    (lostRanges (log (replay largest vs))).countP (fun r => r.1 ≤ k ∧ k ≤ r.2) +
        (newMaxima (replay largest vs)).count k =
      if largest < k ∧ k ≤ largestAfter largest vs then 1 else 0 := by
  induction vs generalizing largest with
  | nil =>
    rw [if_neg (by rintro ⟨h, h'⟩; exact absurd h' (not_le.mpr h))]
    rfl
  | cons v vs ih =>
    have hle : max largest v ≤ largestAfter largest (v :: vs) := le_largestAfter _ vs
    have hstep : _ + _ = if largest < k ∧ k ≤ max largest v then 1 else 0 :=
      partition_pop { value := v, largest := largest } k
    have hrest : _ = if max largest v < k ∧ k ≤ largestAfter largest (v :: vs) then 1 else 0 :=
      ih (max largest v)
    rw [replay_cons, log_cons, newMaxima_cons, lostRanges, List.filterMap_append,
      List.countP_append, List.count_append, ← lostRanges, ← lostRanges]
    have hsplit : (if largest < k ∧ k ≤ max largest v then 1 else 0) +
        (if max largest v < k ∧ k ≤ largestAfter largest (v :: vs) then 1 else 0) =
        if largest < k ∧ k ≤ largestAfter largest (v :: vs) then 1 else 0 := by
      have := le_max_left largest v
      split_ifs <;> omega
    rw [← hsplit, ← hstep, ← hrest]
    omega

/-- The number of numbers in the ranges logged as lost. -/
def lostCount (lines : List LogLine) : ℤ :=
  ((lostRanges lines).map fun r => r.2 - r.1 + 1).sum

/-- One pop is a new maximum, a repeat or a large reordering. -/
lemma length_pop (p : Pop) :
    (if p.largest < p.value then [p.value] else []).length + dupCount p.line.toList +
      largeReorderCount p.line.toList = 1 := by
  rcases p.line_cases with ⟨h, hline⟩ | ⟨h, hline⟩ | ⟨h, hline⟩ | ⟨h, hline⟩
  · rw [hline, if_neg (not_lt.mpr h.le)]
    rfl
  · rw [hline, if_neg h.not_gt]
    rfl
  · rw [hline, if_pos (by omega)]
    rfl
  · rw [hline, if_pos (by omega)]
    rfl

open AppRxCb in
/-- **Every pop is accounted for** as a new maximum, a repeat or a large reordering. -/
theorem length_pops (pops : List Pop) :
    (newMaxima pops).length + dupCount (log pops) + largeReorderCount (log pops) = pops.length := by
  induction pops with
  | nil => rfl
  | cons p pops ih =>
    have hpop := length_pop p
    rw [log_cons, newMaxima_cons, List.length_append, List.length_cons, dupCount,
      List.countP_append, ← dupCount, ← dupCount, largeReorderCount, List.countP_append,
      ← largeReorderCount, ← largeReorderCount, ← ih, ← hpop]
    omega

/-- One pop raises the largest number by what it logs as lost, and by one if it is a new maximum. -/
lemma account_pop (p : Pop) :
    max p.largest p.value - p.largest =
      lostCount p.line.toList + (if p.largest < p.value then [p.value] else []).length := by
  rcases p.line_cases with ⟨h, hline⟩ | ⟨h, hline⟩ | ⟨h, hline⟩ | ⟨h, hline⟩
  · have hlost : lostCount p.line.toList = 0 := by rw [hline]; rfl
    rw [hlost, max_eq_left h.le, if_neg (not_lt.mpr h.le), sub_self]
    rfl
  · have hlost : lostCount p.line.toList = 0 := by rw [hline]; rfl
    rw [hlost, max_eq_left h.le, if_neg h.not_gt, sub_self]
    rfl
  · have hlost : lostCount p.line.toList = p.value - 1 - (p.largest + 1) + 1 := by
      rw [hline]
      exact List.sum_singleton
    rw [hlost, max_eq_right (by omega), if_pos (by omega), List.length_singleton]
    push_cast
    ring
  · have hlost : lostCount p.line.toList = 0 := by rw [hline]; rfl
    rw [hlost, max_eq_right (by omega), if_pos (by omega), ← h]
    simp

open AppRxCb in
/-- **The accounts balance.** What the largest number has risen by is what was logged as lost and
what was popped as a new maximum. -/
theorem account_replay (largest : ℤ) (vs : List ℤ) :
    largestAfter largest vs - largest =
      lostCount (log (replay largest vs)) + (newMaxima (replay largest vs)).length := by
  induction vs generalizing largest with
  | nil => simp [largestAfter, lostCount, lostRanges, newMaxima, log]
  | cons v vs ih =>
    have hstep : max largest v - largest = _ :=
      account_pop { value := v, largest := largest }
    have hrest : largestAfter largest (v :: vs) - max largest v = _ := ih (max largest v)
    rw [replay_cons, log_cons, newMaxima_cons, lostCount, lostRanges, List.filterMap_append,
      List.map_append, List.sum_append, ← lostRanges, ← lostRanges, ← lostCount, ← lostCount,
      List.length_append]
    push_cast at hstep hrest ⊢
    linarith

open AppRxCb in
/-- The ranges logged as lost leave out the largest number popped. -/
lemma lostCount_lt {largest : ℤ} {vs : List ℤ} (hlt : largest < largestAfter largest vs) :
    lostCount (log (replay largest vs)) < largestAfter largest vs - largest := by
  have hpart := partition_replay largest (largestAfter largest vs) vs
  have hzero : (lostRanges (log (replay largest vs))).countP
      (fun r => r.1 ≤ largestAfter largest vs ∧ largestAfter largest vs ≤ r.2) = 0 := by
    refine List.countP_eq_zero.mpr fun r hr => ?_
    have := ((lostRanges_replay largest vs).2 r hr).2.2
    simpa using fun _ => this
  rw [hzero, if_pos ⟨hlt, le_rfl⟩, Nat.zero_add] at hpart
  have hmem : 0 < (newMaxima (replay largest vs)).length :=
    List.length_pos_of_mem (List.count_pos_iff.mp (by rw [hpart]; exact Nat.one_pos))
  rw [account_replay]
  omega

/-! ### The monitor as a priority window -/

namespace AppRxCb

open PriorityWindow

/-- One sequence number moves the window and replays what leaves it. -/
lemma update_eq_slide {m : AppRxCb} (hN : 0 < m.plHeapMaxSz) (seqno : ℕ) :
    m.update seqno =
      ({ m with
          plHeap := (slide id m.plHeapMaxSz m.plHeap (i64 (-seqno))).1
          plLargestPopped := largestAfter m.plLargestPopped
            ((slide id m.plHeapMaxSz m.plHeap (i64 (-seqno))).2.map fun v => i64 (-v)) },
        replay m.plLargestPopped
          ((slide id m.plHeapMaxSz m.plHeap (i64 (-seqno))).2.map fun v => i64 (-v))) := by
  by_cases hfull : m.plHeap.size = m.plHeapMaxSz
  · have hback : (BinaryHeap.popHeap id m.plHeap).back? = some m.plHeap[0] :=
      BinaryHeap.popHeap_back? (by omega)
    simp only [update, slide, if_pos hfull, hback, Option.getD_some, Option.toList_some,
      List.map_cons, List.map_nil, replay_cons, replay_nil, largestAfter, List.foldl_cons,
      List.foldl_nil]
    congr 2
    split
    · rename_i h
      exact (max_eq_right h.le).symm
    · rename_i h
      exact (max_eq_left (not_lt.mp h)).symm
  · simp only [update, slide, if_neg hfull, List.map_nil, replay_nil, largestAfter, List.foldl_nil]

/-- A run of the monitor moves the window along the negated numbers and replays what leaves it. -/
theorem run_update_eq {m : AppRxCb} (hN : 0 < m.plHeapMaxSz) (seqnos : List ℕ) :
    Mealy.run update m seqnos =
      ({ m with
          plHeap := (Mealy.run (slide id m.plHeapMaxSz) m.plHeap
            (seqnos.map fun x : ℕ => i64 (-x))).1
          plLargestPopped := largestAfter m.plLargestPopped
            ((Mealy.run (slide id m.plHeapMaxSz) m.plHeap
              (seqnos.map fun x : ℕ => i64 (-x))).2.map fun v => i64 (-v)) },
        replay m.plLargestPopped
          ((Mealy.run (slide id m.plHeapMaxSz) m.plHeap
            (seqnos.map fun x : ℕ => i64 (-x))).2.map fun v => i64 (-v))) := by
  induction seqnos generalizing m with
  | nil => simp [largestAfter]
  | cons x xs ih =>
    rw [Mealy.run_cons, update_eq_slide hN x, ih (by simpa using hN), List.map_cons,
      Mealy.run_cons]
    simp only [List.map_append, replay_append, largestAfter, List.foldl_append]

/-- The numbers that a window of `N` numbers pops along an arrival sequence. -/
def popped (N : ℕ) (seqnos : List ℕ) : List ℕ :=
  (Mealy.run (slide (fun x : ℕ => -(x : ℤ)) N) #[] seqnos).2

/-- How many larger numbers arrived before an indexed arrival. -/
def largerBefore (seqnos : List ℕ) (e : ℕ × ℕ) : ℕ := (seqnos.take e.2).countP fun y => e.1 < y

/-- An arrival is late for the window when `N` larger numbers arrived before it. -/
lemma late_iff_le_largerBefore {N : ℕ} {seqnos : List ℕ} {e : ℕ × ℕ} :
    Late (fun x : ℕ => -(x : ℤ)) N seqnos e ↔ N ≤ largerBefore seqnos e := by
  simp only [Late, largerBefore, neg_lt_neg_iff, Nat.cast_lt]

/-- The negated numbers in the heap are those of a window that pops its smallest number. -/
lemma map_popped {N : ℕ} (hN : 0 < N) {seqnos : List ℕ} (hlt : ∀ x ∈ seqnos, x < 2 ^ 63) :
    ((Mealy.run (slide id N) #[] (seqnos.map fun x : ℕ => i64 (-x))).2.map fun v => i64 (-v)) =
      (popped N seqnos).map fun x : ℕ => (x : ℤ) := by
  have hneg : (seqnos.map fun x : ℕ => i64 (-x)) = seqnos.map fun x : ℕ => -(x : ℤ) := by
    refine List.map_congr_left fun x hx => ?_
    have := hlt x hx
    exact i64_of_range (by omega) (by omega)
  have hrun : (Mealy.run (slide id N) #[] (seqnos.map fun x : ℕ => -(x : ℤ))).2 =
      (popped N seqnos).map fun x : ℕ => -(x : ℤ) := run_map (fun _ => rfl) seqnos
  rw [hneg, hrun, List.map_map]
  refine List.map_congr_left fun x hx => ?_
  have := hlt x (mem_of_mem_run hN hx)
  rw [Function.comp_apply, neg_neg]
  exact i64_of_range (by omega) (by omega)

/-- **The monitor replays the numbers popped.** -/
theorem run_eq_replay {N : ℕ} (hN : 0 < N) {packets : List Packet}
    (hread : ∀ packet ∈ packets, readable packet) (hlt : ∀ x ∈ arrivals packets, x < 2 ^ 63) :
    ∃ m, (init true N).run packets =
        some (m, replay (-1) ((popped N (arrivals packets)).map fun x : ℕ => (x : ℤ))) ∧
      m.plFp = true ∧ m.plLargestPopped =
        largestAfter (-1) ((popped N (arrivals packets)).map fun x : ℕ => (x : ℤ)) := by
  rw [run_eq rfl hread, run_update_eq (by exact hN), ← map_popped hN hlt]
  exact ⟨_, rfl, rfl, rfl⟩

end AppRxCb

end MeshSim
