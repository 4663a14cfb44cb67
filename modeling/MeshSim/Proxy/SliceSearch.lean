import MeshSim.Proxy.TimedProxy

/-!
# The search for a transmission opportunity

`GetNextTxTime` computes the first instant, from the present and the end of the current transmission
on, that lies in an active slice and more than the taper before its end.  It compares truncated
milliseconds, whereas the instants are nanoseconds.
-/

namespace MeshSim

namespace TimedProxyParams

open TimedProxy (nsPerMS)

variable (P : TimedProxyParams)

/-- The width of a slice in nanoseconds. -/
def sliceWidth : ℕ := P.sliceWidthMS * nsPerMS

/-- The taper in nanoseconds. -/
def sliceTaper : ℕ := P.sliceTaperMS * nsPerMS

/-- The number of the slice that an instant lies in. -/
def slotAt (t : ℕ) : ℕ := t / P.sliceWidth

/-- A slice is active when its bit is set in `m_ActiveMap`. -/
def IsActive (slot : ℕ) : Prop := P.activeMap.testBit (slot % P.nSlices) = true

instance (slot : ℕ) : Decidable (P.IsActive slot) := by
  unfold IsActive
  infer_instance

/-- The instants at which the proxy may send: those in an active slice, more than the taper before
its end. -/
def MayTransmit (t : ℕ) : Prop :=
  P.IsActive (P.slotAt t) ∧ t + P.sliceTaper < (P.slotAt t + 1) * P.sliceWidth

instance (t : ℕ) : Decidable (P.MayTransmit t) := by
  unfold MayTransmit
  infer_instance

/-- The configurations in which the search for a slice succeeds. -/
structure Searchable : Prop where
  /-- Slices have a width. -/
  sliceWidthMS_pos : 1 ≤ P.sliceWidthMS
  /-- A cycle has slices. -/
  nSlices_pos : 1 ≤ P.nSlices
  /-- The slices of a cycle have a bit in `m_ActiveMap`. -/
  nSlices_le : P.nSlices ≤ 32
  /-- Some slice of a cycle is active. -/
  exists_active : ∃ i < P.nSlices, P.activeMap.testBit i = true

variable {P}

/-- The slices as `GetNextTxTime` numbers them. -/
lemma slotAt_eq (t : ℕ) : P.slotAt t = t / nsPerMS / P.sliceWidthMS := by
  unfold slotAt sliceWidth
  rw [Nat.div_div_eq_div_mul, mul_comm]

/-- The schedule that the attributes describe.  It is open at the instants of `MayTransmit`. -/
def schedule (htaper : P.sliceTaperMS < P.sliceWidthMS) : SliceSchedule where
  width := P.sliceWidth
  taper := P.sliceTaper
  Active := P.IsActive
  taper_lt := Nat.mul_lt_mul_of_pos_right htaper (by decide)

/-- Every residue is met within a cycle behind a slot. -/
lemma exists_add_mod_eq {n i : ℕ} (hi : i < n) (slot : ℕ) : ∃ k < n, (slot + k + 1) % n = i := by
  have hr : slot % n < n := Nat.mod_lt _ (by omega)
  have hmod : ∀ k, (slot + k + 1) % n = (slot % n + (k + 1)) % n := fun k => by
    rw [add_assoc, Nat.mod_add_mod]
  rcases lt_or_ge (slot % n) i with hlt | hge
  · refine ⟨i - slot % n - 1, by omega, ?_⟩
    rw [hmod, show slot % n + (i - slot % n - 1 + 1) = i by omega]
    exact Nat.mod_eq_of_lt hi
  · refine ⟨i + n - slot % n - 1, by omega, ?_⟩
    rw [hmod, show slot % n + (i + n - slot % n - 1 + 1) = i + n by omega, Nat.add_mod_right]
    exact Nat.mod_eq_of_lt hi

/-- Behind every slot there is an active one within a cycle. -/
lemma Searchable.exists_isActive (h : P.Searchable) (slot : ℕ) :
    ∃ k < P.nSlices, P.IsActive (slot + k + 1) := by
  obtain ⟨i, hi, hbit⟩ := h.exists_active
  obtain ⟨k, hk, hmod⟩ := exists_add_mod_eq hi slot
  refine ⟨k, hk, ?_⟩
  unfold IsActive
  rw [hmod]
  exact hbit

end TimedProxyParams

namespace TimedProxy

open TimedProxyParams

variable {P : TimedProxyParams}

/-! ### The loop over the slices -/

/-- The test of a slice reads its bit. -/
lemma testSlot_eq (h : P.Searchable) (slot : ℕ) :
    testSlot P slot = .ok (decide (P.IsActive slot)) := by
  have hlt : slot % P.nSlices < P.nSlices := Nat.mod_lt _ h.nSlices_pos
  have hn := h.nSlices_pos
  have hle := h.nSlices_le
  unfold testSlot
  rw [if_neg (by omega), if_neg (by omega)]
  congr 1
  rw [decide_eq_decide, Nat.one_shiftLeft, Nat.two_pow_and]
  unfold IsActive
  cases P.activeMap.testBit (slot % P.nSlices) <;> simp

/-- **The loop finds the next active slice**, when it runs for long enough. -/
theorem findSlot_spec (h : P.Searchable) (fuel slot : ℕ)
    (hex : ∃ k < fuel, P.IsActive (slot + k + 1)) :
    ∃ s, findSlot P fuel slot = .ok s ∧ IsLeast {s | slot < s ∧ P.IsActive s} s := by
  induction fuel generalizing slot with
  | zero =>
    obtain ⟨k, hk, -⟩ := hex
    exact absurd hk (Nat.not_lt_zero k)
  | succ fuel ih =>
    unfold findSlot
    rw [testSlot_eq h]
    by_cases hactive : P.IsActive (slot + 1)
    · rw [decide_eq_true hactive]
      exact ⟨slot + 1, rfl, ⟨Nat.lt_succ_self slot, hactive⟩, fun s hs => hs.1⟩
    · rw [decide_eq_false hactive]
      obtain ⟨k, hk, hkactive⟩ := hex
      cases k with
      | zero => exact absurd hkactive hactive
      | succ k =>
        have hslot : slot + 1 + k + 1 = slot + (k + 1) + 1 := by omega
        obtain ⟨s, hs, ⟨hlt, hsactive⟩, hleast⟩ :=
          ih (slot + 1) ⟨k, Nat.succ_lt_succ_iff.mp hk, by rwa [hslot]⟩
        refine ⟨s, hs, ⟨(Nat.lt_succ_self slot).trans hlt, hsactive⟩, ?_⟩
        rintro s' ⟨hlt', hactive'⟩
        have hne : s' ≠ slot + 1 := fun heq => hactive (heq ▸ hactive')
        exact hleast ⟨by omega, hactive'⟩

/-- What the loop finds lies behind the slot it starts from, whatever the configuration. -/
lemma lt_of_findSlot_eq {fuel slot s : ℕ} (h : findSlot P fuel slot = .ok s) : slot < s := by
  induction fuel generalizing slot with
  | zero => cases h
  | succ fuel ih =>
    unfold findSlot at h
    split at h
    · cases h
    · cases h
      exact Nat.lt_succ_self slot
    · exact (Nat.lt_succ_self slot).trans (ih h)

/-- The loop does not end within a number of iterations when they all meet inactive slices. -/
lemma findSlot_eq_endlessLoop_iff (fuel slot : ℕ) :
    findSlot P fuel slot = .error .endlessLoop ↔
      ∀ k < fuel, testSlot P (slot + k + 1) = .ok false := by
  induction fuel generalizing slot with
  | zero => simp [findSlot]
  | succ fuel ih =>
    have hshift : ∀ k, slot + 1 + k + 1 = slot + (k + 1) + 1 := fun k => by omega
    rw [Nat.forall_lt_succ_left]
    unfold findSlot
    cases htest : testSlot P (slot + 1) with
    | error f =>
      have hne : f ≠ .endlessLoop := by
        rintro rfl
        unfold testSlot at htest
        split at htest
        · cases htest
        · split at htest <;> cases htest
      simp [hne]
    | ok active =>
      cases active with
      | true => simp
      | false => simp [ih, hshift]

/-- **A loop that does not end within a cycle does not end.** -/
theorem findSlot_endless (hn : 1 ≤ P.nSlices) {slot : ℕ}
    (h : findSlot P P.nSlices slot = .error .endlessLoop) (fuel : ℕ) :
    findSlot P fuel slot = .error .endlessLoop := by
  rw [findSlot_eq_endlessLoop_iff] at h ⊢
  intro k _
  obtain ⟨j, hj, hmod⟩ := exists_add_mod_eq (Nat.mod_lt (slot + k + 1) hn) slot
  rw [← h j hj]
  unfold testSlot
  rw [hmod]

/-! ### The transmission opportunity -/

/-- A slice in which the test of `GetNextTxTime` succeeds contains the taper behind the instant. -/
lemma slot_eq_slot_taper_iff (hpos : 1 ≤ P.sliceWidthMS) (t : ℕ) :
    t / nsPerMS / P.sliceWidthMS = (t / nsPerMS + P.sliceTaperMS) / P.sliceWidthMS ↔
      t + P.sliceTaper < (P.slotAt t + 1) * P.sliceWidth := by
  have hslot := slotAt_eq (P := P) t
  have hle : t / nsPerMS / P.sliceWidthMS ≤ (t / nsPerMS + P.sliceTaperMS) / P.sliceWidthMS :=
    Nat.div_le_div_right (Nat.le_add_right _ _)
  have hms : t + P.sliceTaper = (t / nsPerMS + P.sliceTaperMS) * nsPerMS + t % nsPerMS := by
    have := Nat.div_add_mod' t nsPerMS
    unfold sliceTaper
    rw [add_mul]
    omega
  have hiff : t + P.sliceTaper < (P.slotAt t + 1) * P.sliceWidth ↔
      t / nsPerMS + P.sliceTaperMS < (P.slotAt t + 1) * P.sliceWidthMS := by
    rw [hms]
    unfold sliceWidth
    rw [← mul_assoc, ← Nat.div_lt_iff_lt_mul (by decide : 0 < nsPerMS), mul_comm _ nsPerMS,
      Nat.mul_add_div (by decide), Nat.div_eq_of_lt (Nat.mod_lt _ (by decide)), add_zero]
  rw [hiff, ← Nat.div_lt_iff_lt_mul hpos, hslot]
  omega

/-- Whatever the configuration, a transmission opportunity is not in the past. -/
theorem le_of_getNextTxTime_eq {txEndTime now t : ℕ} (h : getNextTxTime P txEndTime now = .ok t) :
    max txEndTime now ≤ t := by
  unfold getNextTxTime at h
  dsimp only at h
  split at h
  · cases h
  · rename_i hpos
    split at h
    · cases h
    · split at h
      · cases h
        exact le_rfl
      · split at h
        · cases h
        · rename_i s hs
          cases h
          have hlt := lt_of_findSlot_eq hs
          rw [Nat.div_div_eq_div_mul, Nat.div_lt_iff_lt_mul (Nat.mul_pos (by decide) (by omega))]
            at hlt
          rw [mul_assoc, mul_comm P.sliceWidthMS]
          exact hlt.le

/-- In particular the delay it is scheduled with is not negative. -/
lemma now_le_of_getNextTxTime_eq {txEndTime now t : ℕ}
    (h : getNextTxTime P txEndTime now = .ok t) : now ≤ t :=
  (le_max_right _ _).trans (le_of_getNextTxTime_eq h)

/-- **The search always succeeds** in a configuration with an active slice. -/
theorem exists_getNextTxTime_eq (h : P.Searchable) (txEndTime now : ℕ) :
    ∃ t, getNextTxTime P txEndTime now = .ok t := by
  have hpos := h.sliceWidthMS_pos
  unfold getNextTxTime
  dsimp only
  rw [if_neg (by omega), testSlot_eq h]
  dsimp only
  split
  · exact ⟨_, rfl⟩
  · obtain ⟨s, hs, -⟩ := findSlot_spec h P.nSlices _ (h.exists_isActive _)
    rw [hs]
    exact ⟨_, rfl⟩

/-- **The search computes the first transmission opportunity**: the least instant, from the present
and the end of the current transmission on, at which the proxy may send. -/
theorem isLeast_of_getNextTxTime_eq (h : P.Searchable) (htaper : P.sliceTaperMS < P.sliceWidthMS)
    {txEndTime now t : ℕ} (ht : getNextTxTime P txEndTime now = .ok t) :
    IsLeast {u | max txEndTime now ≤ u ∧ P.MayTransmit u} t := by
  have hpos := h.sliceWidthMS_pos
  have hslot := slotAt_eq (P := P) (max txEndTime now)
  unfold getNextTxTime at ht
  dsimp only at ht
  rw [if_neg (by omega), testSlot_eq h] at ht
  dsimp only at ht
  split at ht
  · rename_i hopen
    cases ht
    rw [decide_eq_true_eq, slot_eq_slot_taper_iff hpos, ← hslot] at hopen
    exact SliceSchedule.Open.isLeast_self (S := schedule htaper) hopen
  · rename_i hclosed
    rw [decide_eq_true_eq, slot_eq_slot_taper_iff hpos, ← hslot] at hclosed
    obtain ⟨s, hs, hleast⟩ := findSlot_spec h P.nSlices (P.slotAt (max txEndTime now))
      (h.exists_isActive _)
    rw [← hslot, hs] at ht
    cases ht
    rw [mul_assoc]
    exact SliceSchedule.isLeast_start (S := schedule htaper) hclosed hleast

end TimedProxy

end MeshSim
