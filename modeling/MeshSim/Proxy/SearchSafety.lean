import MeshSim.Proxy.SliceSearch

/-!
# When the search for a slice is defined

The attribute checkers of `TimedProxy` admit every `uint32_t`, and nothing relates the four
attributes that feed the search of `GetNextTxTime`: the two divisors, the shift and the loop over
the slices.  For the configurations with an active slice the search computes what it should
(`getNextTxTime_eq`).  The others are told apart by `exists_getNextTxTime_iff`: for one pair of
times the search is defined when it meets an active slice before a shift out of range, and for all
times exactly in the configurations with an active slice.
-/

namespace MeshSim

namespace TimedProxy

open TimedProxyParams

variable {P : TimedProxyParams}

/-! ### Configurations with an active slice -/

/-- The loop over the slices ends after as many iterations as it moves on, within a cycle. -/
lemma exists_findSlot_eq (h : P.Searchable) (slot : ℕ) :
    ∃ k ≤ P.nSlices, findSlot P k slot = .ok (slot + k) := by
  have hex := h.exists_isActive slot
  have hfind := Nat.find_spec hex
  refine ⟨Nat.find hex + 1, hfind.1, ?_⟩
  obtain ⟨s, hs, hleast⟩ := findSlot_spec h (Nat.find hex + 1) slot
    ⟨Nat.find hex, Nat.lt_succ_self _, hfind.2⟩
  have hmem : slot + Nat.find hex + 1 ∈ {s | slot < s ∧ P.IsActive s} := ⟨by omega, hfind.2⟩
  have hle : s ≤ slot + Nat.find hex + 1 := hleast.2 hmem
  have hge : slot + Nat.find hex + 1 ≤ s := by
    obtain ⟨hlt, hactive⟩ := hleast.1
    by_contra hgt
    have hslot : slot + (s - slot - 1) + 1 = s := by omega
    apply Nat.find_min hex (m := s - slot - 1) (by omega)
    refine ⟨?_, by rwa [hslot]⟩
    have := hfind.1
    omega
  rw [hs, le_antisymm hle hge, add_assoc]

/-- **The next transmission opportunity.**  Whenever the proxy is configured with an active slice
and a taper shorter than the slices, the search ends, and it computes the first instant, from the
present and the end of the current transmission on, that lies in an active slice and more than the
taper before its end; in particular the delay it is scheduled with is not negative.  The loop over
the slices ends within a cycle, wherever it starts. -/
theorem getNextTxTime_eq (h : P.Searchable) (htaper : P.sliceTaperMS < P.sliceWidthMS)
    (txEndTime now : ℕ) :
    (∃ t, getNextTxTime P txEndTime now = .ok t ∧
        IsLeast {u | max now txEndTime ≤ u ∧ P.IsActive (u / P.sliceWidth) ∧
          u + P.sliceTaper < (u / P.sliceWidth + 1) * P.sliceWidth} t ∧
        now ≤ t) ∧
      ∀ slot, ∃ k ≤ P.nSlices, findSlot P k slot = .ok (slot + k) := by
  constructor
  · obtain ⟨t, ht⟩ := exists_getNextTxTime_eq h txEndTime now
    have hleast := isLeast_of_getNextTxTime_eq h htaper ht
    rw [max_comm] at hleast
    exact ⟨t, ht, hleast, now_le_of_getNextTxTime_eq ht⟩
  · exact exists_findSlot_eq h

/-- At 19 ms the default proxy is in the taper of a slice. -/
theorem getNextTxTime_eq_taper :
    getNextTxTime .defaults 0 19000000 = .ok 20000000 ∧
      ∃ t, getNextTxTime .defaults 0 19000000 = .ok t ∧ 19000000 ≤ t := by
  have hsearchable : TimedProxyParams.defaults.Searchable :=
    ⟨by decide, by decide, by decide, ⟨0, by decide⟩⟩
  obtain ⟨⟨t, ht, -, hle⟩, -⟩ := getNextTxTime_eq hsearchable (by decide) 0 19000000
  exact ⟨by decide +kernel, t, ht, hle⟩

/-! ### The other configurations -/

/-- The bits of `m_ActiveMap` are those of a `uint32_t`. -/
lemma mod_lt_of_isActive {slot : ℕ} (h : P.IsActive slot) : slot % P.nSlices < 32 := by
  by_contra hge
  have hlt : P.activeMap < 2 ^ (slot % P.nSlices) :=
    P.activeMap_lt.trans_le (Nat.pow_le_pow_right (by decide) (not_lt.mp hge))
  unfold IsActive at h
  rw [Nat.testBit_lt_two_pow hlt] at h
  cases h

/-- The test of a slice, whatever the configuration. -/
lemma testSlot_eq_ok_iff (slot : ℕ) (active : Bool) :
    testSlot P slot = .ok active ↔
      1 ≤ P.nSlices ∧ slot % P.nSlices < 32 ∧ active = decide (P.IsActive slot) := by
  unfold testSlot
  split
  · rename_i hzero
    simp [hzero]
  · split
    · rename_i hge
      simp only [reduceCtorEq, false_iff]
      omega
    · have hbit : (1 <<< (slot % P.nSlices) &&& P.activeMap ≠ 0) ↔ P.IsActive slot := by
        rw [Nat.one_shiftLeft, Nat.two_pow_and]
        unfold IsActive
        cases P.activeMap.testBit (slot % P.nSlices) <;> simp
      rw [decide_eq_decide.mpr hbit, Except.ok.injEq, eq_comm, and_iff_right (by omega),
        and_iff_right (by omega)]

/-- The loop ends at the first active slice, if it meets no slice beyond the width of the bitmap
before. -/
lemma exists_findSlot_eq_iff (fuel slot : ℕ) :
    (∃ s, findSlot P fuel slot = .ok s) ↔
      ∃ k < fuel, 1 ≤ P.nSlices ∧ P.IsActive (slot + k + 1) ∧
        ∀ j < k, (slot + j + 1) % P.nSlices < 32 := by
  induction fuel generalizing slot with
  | zero => simp [findSlot]
  | succ fuel ih =>
    have hshift : ∀ k, slot + 1 + k + 1 = slot + (k + 1) + 1 := fun k => by omega
    rw [Nat.exists_lt_succ_left]
    unfold findSlot
    cases htest : testSlot P (slot + 1) with
    | error f =>
      have hnot : ¬ (1 ≤ P.nSlices ∧ (slot + 1) % P.nSlices < 32) := by
        intro hok
        have := (testSlot_eq_ok_iff (P := P) (slot + 1) _).mpr ⟨hok.1, hok.2, rfl⟩
        rw [htest] at this
        cases this
      simp only [reduceCtorEq, exists_false, false_iff, not_or, not_exists]
      constructor
      · rintro ⟨hn, hactive, -⟩
        exact hnot ⟨hn, mod_lt_of_isActive hactive⟩
      · rintro k ⟨-, hn, -, hbelow⟩
        exact hnot ⟨hn, hbelow 0 (Nat.succ_pos k)⟩
    | ok active =>
      obtain ⟨hn, hlt, hactive⟩ := (testSlot_eq_ok_iff _ _).mp htest
      cases active with
      | true =>
        have hactive' : P.IsActive (slot + 1) := of_decide_eq_true hactive.symm
        simp [hn, hactive']
      | false =>
        have hactive' : ¬ P.IsActive (slot + 1) := of_decide_eq_false hactive.symm
        simp only [ih, hshift, Nat.add_zero, hactive', false_and, and_false, false_or]
        refine exists_congr fun k => and_congr_right fun _ => and_congr_right fun _ =>
          and_congr_right fun _ => ?_
        rw [Nat.forall_lt_succ_left]
        simp [hlt]

/-- The first active slice behind a slot is met within a cycle. -/
lemma exists_lt_isActive_iff (slot : ℕ) :
    (∃ k < P.nSlices, 1 ≤ P.nSlices ∧ P.IsActive (slot + k + 1) ∧
        ∀ j < k, (slot + j + 1) % P.nSlices < 32) ↔
      1 ≤ P.nSlices ∧ ∃ s, slot < s ∧ P.IsActive s ∧
        ∀ s', slot < s' → s' < s → s' % P.nSlices < 32 := by
  constructor
  · rintro ⟨k, -, hn, hactive, hbelow⟩
    refine ⟨hn, slot + k + 1, by omega, hactive, fun s' hlt hlt' => ?_⟩
    have hj := hbelow (s' - slot - 1) (by omega)
    rwa [show slot + (s' - slot - 1) + 1 = s' by omega] at hj
  · rintro ⟨hn, hex⟩
    obtain ⟨s, ⟨hlt, hactive, hbelow⟩, hmin⟩ := wellFounded_lt.has_min (Set.ofPred _) hex
    have hcycle : s ≤ slot + P.nSlices := by
      -- otherwise the slice one cycle before is active, too
      by_contra hgt
      refine hmin (s - P.nSlices) ⟨by omega, ?_, fun s' h h' => hbelow s' h (by omega)⟩ (by omega)
      unfold IsActive at hactive ⊢
      rwa [← Nat.mod_eq_sub_mod (by omega)]
    refine ⟨s - slot - 1, by omega, hn, ?_, fun j hj => hbelow _ (by omega) (by omega)⟩
    rwa [show slot + (s - slot - 1) + 1 = s by omega]

/-- **When the search succeeds for one pair of times.** -/
lemma exists_getNextTxTime_eq_iff (txEndTime now : ℕ) :
    (∃ t, getNextTxTime P txEndTime now = .ok t) ↔
      1 ≤ P.sliceWidthMS ∧ 1 ≤ P.nSlices ∧
        (P.MayTransmit (max txEndTime now) ∨
          ∃ s, P.slotAt (max txEndTime now) < s ∧ P.IsActive s ∧
            ∀ s', P.slotAt (max txEndTime now) ≤ s' → s' < s → s' % P.nSlices < 32) := by
  have hslot := slotAt_eq (P := P) (max txEndTime now)
  unfold getNextTxTime
  dsimp only
  rw [← hslot]
  split
  · rename_i hzero
    simp [hzero]
  · rename_i hwidth
    have hpos : 1 ≤ P.sliceWidthMS := Nat.one_le_iff_ne_zero.mpr hwidth
    have htaper := slot_eq_slot_taper_iff (P := P) hpos (max txEndTime now)
    rw [← hslot] at htaper
    rw [and_iff_right hpos]
    cases htest : testSlot P (P.slotAt (max txEndTime now)) with
    | error f =>
      have hnot : ¬ (1 ≤ P.nSlices ∧ P.slotAt (max txEndTime now) % P.nSlices < 32) := by
        intro hok
        have := (testSlot_eq_ok_iff (P := P) (P.slotAt (max txEndTime now)) _).mpr
          ⟨hok.1, hok.2, rfl⟩
        rw [htest] at this
        cases this
      simp only [reduceCtorEq, exists_false, false_iff]
      rintro ⟨hn, hmay | ⟨s, hlt, -, hbelow⟩⟩
      · exact hnot ⟨hn, mod_lt_of_isActive hmay.1⟩
      · exact hnot ⟨hn, hbelow _ le_rfl hlt⟩
    | ok active =>
      obtain ⟨hn, hlt, rfl⟩ := (testSlot_eq_ok_iff _ _).mp htest
      rw [and_iff_right hn]
      dsimp only
      split
      · rename_i hmay
        rw [decide_eq_true_eq, htaper] at hmay
        exact iff_of_true ⟨_, rfl⟩ (Or.inl hmay)
      · rename_i hmay
        rw [decide_eq_true_eq, htaper] at hmay
        have hloop :=
          (exists_findSlot_eq_iff (P := P) P.nSlices (P.slotAt (max txEndTime now))).trans
            (exists_lt_isActive_iff _)
        rw [and_iff_right hn] at hloop
        rw [or_iff_right (show ¬ P.MayTransmit _ from hmay)]
        have hbelow : ∀ s, (∀ s', P.slotAt (max txEndTime now) ≤ s' → s' < s →
              s' % P.nSlices < 32) ↔
            ∀ s', P.slotAt (max txEndTime now) < s' → s' < s → s' % P.nSlices < 32 := by
          intro s
          constructor
          · exact fun h s' hlt => h s' hlt.le
          · intro h s' hle hs'
            rcases hle.eq_or_lt with rfl | hgt
            · exact hlt
            · exact h s' hgt hs'
        simp only [hbelow]
        rw [← hloop]
        cases findSlot P P.nSlices (P.slotAt (max txEndTime now)) <;> simp

/-- **When the search is defined.**  The search neither divides by zero nor shifts out of range, and
its loop ends, exactly when slices have a width, a cycle has slices, and either the proxy may
transmit at once or the slices from the present one on have bits in `m_ActiveMap` up to the next
active one.  It is so at all times exactly when slices have a width, a cycle has between 1 and 32
slices, and one of them is active. -/
theorem exists_getNextTxTime_iff (P : TimedProxyParams) :
    (∀ txEndTime now, (∃ t, getNextTxTime P txEndTime now = .ok t) ↔
        1 ≤ P.sliceWidthMS ∧ 1 ≤ P.nSlices ∧
          (P.MayTransmit (max txEndTime now) ∨
            ∃ s, P.slotAt (max txEndTime now) < s ∧ P.IsActive s ∧
              ∀ s', P.slotAt (max txEndTime now) ≤ s' → s' < s → s' % P.nSlices < 32)) ∧
      ((∀ txEndTime now, ∃ t, getNextTxTime P txEndTime now = .ok t) ↔
        1 ≤ P.sliceWidthMS ∧ 1 ≤ P.nSlices ∧ P.nSlices ≤ 32 ∧
          ∃ i < P.nSlices, P.activeMap.testBit i = true) := by
  refine ⟨exists_getNextTxTime_eq_iff, ?_⟩
  constructor
  · intro hall
    obtain ⟨hwidth, hn, hsearch⟩ := (exists_getNextTxTime_eq_iff 0 0).mp (hall 0 0)
    have hactive : ∃ s, P.IsActive s := by
      rcases hsearch with hmay | ⟨s, -, hs, -⟩
      · exact ⟨_, hmay.1⟩
      · exact ⟨s, hs⟩
    obtain ⟨s, hs⟩ := hactive
    refine ⟨hwidth, hn, ?_, s % P.nSlices, Nat.mod_lt _ hn, hs⟩
    by_contra hgt
    -- in a longer cycle the search fails when it starts in the slice with the number 32
    have hpos : 0 < P.sliceWidth := Nat.mul_pos hwidth (by decide)
    have hslot : P.slotAt (max 0 (32 * P.sliceWidth)) = 32 := by
      rw [Nat.zero_max]
      exact Nat.mul_div_cancel _ hpos
    have hmod : 32 % P.nSlices = 32 := Nat.mod_eq_of_lt (not_le.mp hgt)
    obtain ⟨-, -, hmay | ⟨s', hlt, -, hbelow⟩⟩ :=
      (exists_getNextTxTime_eq_iff _ _).mp (hall 0 (32 * P.sliceWidth))
    · have := mod_lt_of_isActive hmay.1
      rw [hslot, hmod] at this
      exact absurd this (lt_irrefl 32)
    · have := hbelow _ le_rfl hlt
      rw [hslot, hmod] at this
      exact absurd this (lt_irrefl 32)
  · rintro ⟨hwidth, hn, hle, hactive⟩
    exact exists_getNextTxTime_eq ⟨hwidth, hn, hle, hactive⟩

/-- The attribute checkers admit slices without a width, for which the search divides by zero. -/
theorem not_exists_getNextTxTime :
    ¬ ∀ (P : TimedProxyParams) (txEndTime now : ℕ), ∃ t, getNextTxTime P txEndTime now = .ok t := by
  intro hclaim
  obtain ⟨t, ht⟩ := hclaim { TimedProxyParams.defaults with
    sliceWidthMS := 0
    sliceWidthMS_lt := by decide } 0 0
  cases ht

end TimedProxy

end MeshSim
