import MeshSim.LossMonitor.Replay

/-!
# The loss monitor as an offline scan

When every sequence number arrives behind fewer than `N` larger ones, a monitor with a window of `N`
numbers logs what one scan over the sorted numbers would log, the `N` largest numbers left out.
-/

namespace MeshSim

/-- The scan over sorted numbers, from the last number seen: a `lost_range` for each gap and a `dup`
for each repeat. -/
def offlineScan (last : ℤ) : List ℕ → List LogLine
  | [] => []
  | v :: vs =>
    (if (v : ℤ) = last then [.dup v]
      else if last + 1 < v then [.lostRange (last + 1) (v - 1)]
      else []) ++ offlineScan v vs

/-- The scan reports no large reorderings. -/
lemma largeReorder_not_mem_offlineScan (last v l : ℤ) (vs : List ℕ) :
    LogLine.largeReorder v l ∉ offlineScan last vs := by
  induction vs generalizing last with
  | nil => exact List.not_mem_nil
  | cons x xs ih =>
    rw [offlineScan, List.mem_append]
    rintro (h | h)
    · split_ifs at h <;> simp at h
    · exact ih x h

namespace AppRxCb

/-- Every sequence number arrives behind fewer than `N` larger ones. -/
def BoundedReordering (N : ℕ) (seqnos : List ℕ) : Prop :=
  ∀ e ∈ seqnos.zipIdx, largerBefore seqnos e < N

instance (N : ℕ) (seqnos : List ℕ) : Decidable (BoundedReordering N seqnos) :=
  inferInstanceAs (Decidable (∀ e ∈ seqnos.zipIdx, largerBefore seqnos e < N))

/-- On sorted numbers the replay logs what the scan does. -/
lemma log_replay_of_sorted {last : ℤ} {vs : List ℕ} (hsorted : vs.Pairwise (· ≤ ·))
    (hlast : ∀ v ∈ vs, last ≤ v) :
    log (replay last (vs.map fun x : ℕ => (x : ℤ))) = offlineScan last vs := by
  induction vs generalizing last with
  | nil => rfl
  | cons v vs ih =>
    obtain ⟨hv, hvs⟩ := List.pairwise_cons.mp hsorted
    have hle : last ≤ v := hlast v List.mem_cons_self
    rw [List.map_cons, replay_cons, log_cons, offlineScan, max_eq_right hle,
      ih hvs fun w hw => by exact_mod_cast hv w hw]
    congr 1
    rcases Pop.line_cases { value := (v : ℤ), largest := last } with
      ⟨h, hline⟩ | ⟨h, hline⟩ | ⟨h, hline⟩ | ⟨h, hline⟩
    · exact absurd hle (not_le.mpr h)
    · rw [hline, if_pos h]
      rfl
    · dsimp only at h
      rw [hline, if_neg (by omega), if_pos h]
      rfl
    · dsimp only at h
      rw [hline, if_neg (by omega), if_neg (by omega)]
      rfl

/-- With bounded reordering the numbers popped are the smallest ones, in order. -/
lemma popped_eq_take {N : ℕ} (hN : 0 < N) {seqnos : List ℕ}
    (hbounded : BoundedReordering N seqnos) :
    popped N seqnos = (seqnos.mergeSort fun x y => x ≤ y).take (seqnos.length - N) := by
  refine PriorityWindow.run_eq_take_mergeSort (fun x y hle => ?_) hN fun e he => ?_
  · exact_mod_cast neg_le_neg_iff.mp hle
  · rw [late_iff_le_largerBefore]
    exact not_le.mpr (hbounded e he)

/-- **The monitor logs the offline scan.** -/
lemma run_log_of_bounded {N : ℕ} (hN : 1 ≤ N) {packets : List Packet}
    (hread : ∀ packet ∈ packets, readable packet) (hlt : ∀ x ∈ arrivals packets, x < 2 ^ 63)
    (hbounded : BoundedReordering N (arrivals packets)) :
    ∃ m pops, (init true N).run packets = some (m, pops) ∧
      log pops = offlineScan (-1) (((arrivals packets).mergeSort fun x y => x ≤ y).take
        ((arrivals packets).length - N)) := by
  obtain ⟨m, hrun, -, -⟩ := run_eq_replay hN hread hlt
  refine ⟨m, _, hrun, ?_⟩
  rw [popped_eq_take hN hbounded]
  refine log_replay_of_sorted ?_ fun v _ => by omega
  exact (List.pairwise_mergeSort' (· ≤ ·) _).sublist (List.take_sublist _ _)

/-- **Streaming loss detection is an offline sort.** With bounded reordering the log is the scan
over the sorted numbers, the `N` largest left out; it has no large reorderings, and any other order
of the same packets with bounded reordering gives the same log. -/
theorem log_eq_offlineScan {N : ℕ} (hN : 1 ≤ N) {packets : List Packet}
    (hread : ∀ packet ∈ packets, readable packet) (hlt : ∀ x ∈ arrivals packets, x < 2 ^ 63)
    (hbounded : BoundedReordering N (arrivals packets)) :
    ∃ m pops, (init true N).run packets = some (m, pops) ∧
      log pops = offlineScan (-1) (((arrivals packets).mergeSort fun x y => x ≤ y).take
        ((arrivals packets).length - N)) ∧
      (∀ v l, LogLine.largeReorder v l ∉ log pops) ∧
      ∀ packets', packets'.Perm packets → BoundedReordering N (arrivals packets') →
        ∃ m' pops', (init true N).run packets' = some (m', pops') ∧ log pops' = log pops := by
  obtain ⟨m, pops, hrun, hlog⟩ := run_log_of_bounded hN hread hlt hbounded
  refine ⟨m, pops, hrun, hlog, fun v l => ?_, fun packets' hperm hbounded' => ?_⟩
  · rw [hlog]
    exact largeReorder_not_mem_offlineScan _ _ _ _
  · have harrivals : (arrivals packets').Perm (arrivals packets) := hperm.filterMap _
    have hsort : ((arrivals packets').mergeSort fun x y => x ≤ y) =
        (arrivals packets).mergeSort fun x y => x ≤ y :=
      (((List.mergeSort_perm _ _).trans harrivals).trans
        (List.mergeSort_perm _ _).symm).eq_of_pairwise'
          (List.pairwise_mergeSort' (· ≤ ·) _) (List.pairwise_mergeSort' (· ≤ ·) _)
    obtain ⟨m', pops', hrun', hlog'⟩ := run_log_of_bounded hN
      (fun p hp => hread p (hperm.mem_iff.mp hp)) (fun x hx => hlt x (harrivals.mem_iff.mp hx))
      hbounded'
    exact ⟨m', pops', hrun', by rw [hlog', hlog, hsort, harrivals.length_eq]⟩

/-- Six packets behind a window of two: the log has a gap and a repeat. -/
theorem log_eq_offlineScan_six :
    let packets := [1, 0, 3, 3, 6, 8].map fun x => (RqHeader.ofStream x 0 []).serialize
    BoundedReordering 2 (arrivals packets) ∧ ∃ m pops, (init true 2).run packets = some (m, pops) ∧
      log pops = [.lostRange 2 2, .dup 3] := by
  intro packets
  have hbounded : BoundedReordering 2 (arrivals packets) := by decide +kernel
  obtain ⟨m, pops, hrun, hlog, -, -⟩ :=
    log_eq_offlineScan (N := 2) (by decide) (by decide +kernel) (by decide +kernel) hbounded
  have hsort : ((arrivals packets).mergeSort fun x y => x ≤ y) = [0, 1, 3, 3, 6, 8] := by
    rw [List.mergeSort_eq_insertionSort (· ≤ ·)]
    decide +kernel
  rw [hsort] at hlog
  refine ⟨hbounded, m, pops, hrun, hlog.trans ?_⟩
  decide +kernel

end AppRxCb

end MeshSim
