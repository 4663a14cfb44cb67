import MeshSim.LossMonitor.Replay

/-!
# The reordering threshold

The heap of the monitor does not tell equal sequence numbers apart.  Tagging every arrival with its
index and running the same heap on the tagged numbers names the arrival behind each pop
(`poppedArrivals`).  An arrival is logged as a large reordering exactly when at least `N` larger
numbers came before it; below this threshold it also never counts as lost.
-/

namespace MeshSim

/-- A pop logs a large reordering exactly when a larger number was popped before. -/
lemma Pop.line_largeReorder_iff (p : Pop) :
    (∃ v l, p.line = some (.largeReorder v l)) ↔ p.value < p.largest := by
  constructor
  · rintro ⟨v, l, hline⟩
    rcases p.line_cases with ⟨h, -⟩ | ⟨-, h⟩ | ⟨-, h⟩ | ⟨-, h⟩
    · exact h
    all_goals
      rw [hline] at h
      simp at h
  · intro h
    exact ⟨p.value, p.largest, if_pos h⟩

/-- A range logged as lost lies strictly between the largest number popped and the number popped. -/
lemma exists_pop_of_mem_lostRanges {pops : List Pop} {r : ℤ × ℤ}
    (hr : r ∈ lostRanges (AppRxCb.log pops)) :
    ∃ p ∈ pops, r = (p.largest + 1, p.value - 1) := by
  obtain ⟨line, hline, hrange⟩ := List.mem_filterMap.mp hr
  obtain ⟨p, hp, hpline⟩ := List.mem_filterMap.mp hline
  refine ⟨p, hp, ?_⟩
  rcases p.line_cases with ⟨-, h⟩ | ⟨-, h⟩ | ⟨-, h⟩ | ⟨-, h⟩
  all_goals
    rw [h] at hpline
    cases hpline
  · cases hrange
  · cases hrange
  · exact (Option.some.inj hrange).symm

/-- Every pop of a replay has the numbers replayed before it behind it. -/
lemma exists_split_of_mem_replay {largest : ℤ} {vs : List ℤ} {p : Pop}
    (hp : p ∈ replay largest vs) :
    ∃ before v after, vs = before ++ v :: after ∧
      p = { value := v, largest := largestAfter largest before } := by
  induction vs generalizing largest with
  | nil => cases hp
  | cons v vs ih =>
    rcases List.mem_cons.mp hp with rfl | hp
    · exact ⟨[], v, vs, rfl, rfl⟩
    · obtain ⟨before, w, after, rfl, rfl⟩ := ih hp
      exact ⟨v :: before, w, after, rfl, rfl⟩

/-- Comparing a replay with what it replays, one number at a time. -/
lemma forall₂_replay {α : Type*} {f : α → ℤ} {R : Pop → α → Prop} {largest : ℤ} {outs : List α}
    (h : ∀ before e after, outs = before ++ e :: after →
      R { value := f e, largest := largestAfter largest (before.map f) } e) :
    List.Forall₂ R (replay largest (outs.map f)) outs := by
  induction outs using List.reverseRecOn with
  | nil => exact List.Forall₂.nil
  | append_singleton outs e ih =>
    rw [List.map_append, replay_append]
    refine List.rel_append (ih fun before e' after heq => ?_)
      (List.Forall₂.cons ?_ List.Forall₂.nil)
    · exact h before e' (after ++ [e]) (by rw [heq]; simp)
    · exact h outs e [] rfl

namespace AppRxCb

open PriorityWindow

/-- The arrivals that a window of `N` numbers pops, each with its index in the arrival sequence. -/
def poppedArrivals (N : ℕ) (seqnos : List ℕ) : List (ℕ × ℕ) :=
  (Mealy.run (slide (fun e : ℕ × ℕ => -(e.1 : ℤ)) N) #[] seqnos.zipIdx).2

/-- Without the indices these are the numbers popped. -/
lemma map_poppedArrivals (N : ℕ) (seqnos : List ℕ) :
    (poppedArrivals N seqnos).map (fun e => (e.1 : ℤ)) =
      (popped N seqnos).map fun x : ℕ => (x : ℤ) := by
  rw [popped, map_fst_run_zipIdx, List.map_map]
  rfl

/-- The window slides over the tagged arrivals. -/
lemma slides_poppedArrivals {N : ℕ} (hN : 0 < N) (seqnos : List ℕ) :
    Slides (fun e : ℕ × ℕ => -(e.1 : ℤ)) N (Late (fun x : ℕ => -(x : ℤ)) N seqnos) seqnos.zipIdx
      (Mealy.run (slide (fun e : ℕ × ℕ => -(e.1 : ℤ)) N) #[] seqnos.zipIdx).1
      (poppedArrivals N seqnos) :=
  slides_zipIdx (fun x : ℕ => -(x : ℤ)) hN seqnos

/-- The largest number popped before an arrival is above it exactly when one of them is. -/
lemma lt_largestAfter_iff {before : List (ℕ × ℕ)} {x : ℕ} :
    (x : ℤ) < largestAfter (-1) (before.map fun e => (e.1 : ℤ)) ↔ ∃ o ∈ before, x < o.1 := by
  rw [← not_le, largestAfter_le_iff, not_and, not_forall₂]
  constructor
  · intro h
    obtain ⟨v, hv, hlt⟩ := h (by omega)
    obtain ⟨o, ho, rfl⟩ := List.mem_map.mp hv
    exact ⟨o, ho, by exact_mod_cast not_le.mp hlt⟩
  · rintro ⟨o, ho, hlt⟩ -
    exact ⟨o.1, List.mem_map_of_mem ho, not_le.mpr (by exact_mod_cast hlt)⟩

/-- **The reordering threshold is exact.** Every arrival popped is logged as a large reordering if
and only if at least `N` larger numbers arrived before it, and a number received once behind fewer
than `N` larger ones is in no range logged as lost. -/
theorem largeReorder_iff {N : ℕ} (hN : 1 ≤ N) {packets : List Packet}
    (hread : ∀ packet ∈ packets, readable packet) (hlt : ∀ x ∈ arrivals packets, x < 2 ^ 63) :
    ∃ m pops, (init true N).run packets = some (m, pops) ∧
      (poppedArrivals N (arrivals packets)).Subperm (arrivals packets).zipIdx ∧
      List.Forall₂ (fun p e => p.value = (e.1 : ℤ) ∧
        ((∃ v l, p.line = some (.largeReorder v l)) ↔ N ≤ largerBefore (arrivals packets) e))
        pops (poppedArrivals N (arrivals packets)) ∧
      ∀ e ∈ (arrivals packets).zipIdx, largerBefore (arrivals packets) e < N →
        ∀ r ∈ lostRanges (log pops), ¬(r.1 ≤ e.1 ∧ e.1 ≤ r.2) := by
  obtain ⟨m, hrun, -, -⟩ := run_eq_replay hN hread hlt
  rw [← map_poppedArrivals] at hrun
  have hs := slides_poppedArrivals hN (arrivals packets)
  refine ⟨m, _, hrun, ?_, ?_, ?_⟩
  · exact (List.sublist_append_left _ _).subperm.trans hs.perm.subperm
  · refine forall₂_replay fun before e after hsplit => ⟨rfl, ?_⟩
    rw [Pop.line_largeReorder_iff, lt_largestAfter_iff, ← late_iff_le_largerBefore,
      hs.popped before e after hsplit]
    simp only [neg_lt_neg_iff, Nat.cast_lt]
  · rintro e he hlate r hr ⟨hlow, hhigh⟩
    obtain ⟨p, hp, rfl⟩ := exists_pop_of_mem_lostRanges hr
    obtain ⟨before, v, after, hsplit, rfl⟩ := exists_split_of_mem_replay hp
    obtain ⟨before, tail, hpopped, rfl, htail⟩ := List.map_eq_append_iff.mp hsplit
    obtain ⟨u, after, rfl, rfl, rfl⟩ := List.map_eq_cons_iff.mp htail
    refine hs.gap e he ?_ before u after hpopped ⟨fun o ho => ?_, ?_⟩
    · rw [late_iff_le_largerBefore]
      exact not_le.mpr hlate
    · rw [neg_lt_neg_iff, Nat.cast_lt]
      dsimp only at hlow
      have hbelow := (largestAfter_le_iff _ _ _).mp
        (Int.le_sub_one_of_lt (Int.lt_of_add_one_le hlow))
      have := hbelow.2 o.1 (List.mem_map_of_mem ho)
      omega
    · rw [neg_lt_neg_iff, Nat.cast_lt]
      dsimp only at hhigh
      omega

/-- Seven packets behind a window of two: the number 2 arrives behind three larger ones. -/
theorem largeReorder_iff_seven :
    let packets := [5, 1, 7, 8, 2, 9, 10].map fun x => (RqHeader.ofStream x 0 []).serialize
    largerBefore (arrivals packets) (2, 4) = 3 ∧
      ∃ m pops, (init true 2).run packets = some (m, pops) ∧
      List.Forall₂ (fun p e => p.value = (e.1 : ℤ) ∧
        ((∃ v l, p.line = some (.largeReorder v l)) ↔ 2 ≤ largerBefore (arrivals packets) e))
        pops [(1, 1), (5, 0), (7, 2), (2, 4), (8, 3)] := by
  intro packets
  have hread : ∀ packet ∈ packets, readable packet := by decide +kernel
  obtain ⟨m, pops, hrun, -, hpops, -⟩ :=
    largeReorder_iff (N := 2) (by decide) hread (by decide +kernel)
  have harrivals : poppedArrivals 2 (arrivals packets) =
      [(1, 1), (5, 0), (7, 2), (2, 4), (8, 3)] := by decide +kernel
  rw [harrivals] at hpops
  exact ⟨by decide +kernel, m, pops, hrun, hpops⟩

end AppRxCb

end MeshSim
