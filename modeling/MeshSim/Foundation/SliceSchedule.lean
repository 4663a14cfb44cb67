import Mathlib

/-!
# Time slices

Time is cut into slices of one width, numbered from zero.  Some slices are active, and in an active
slice every instant is open that is more than the taper away from its end.

`isLeast_self` and `isLeast_start` give the first open instant from some time on, and
`slice_ne_of_open` and `add_taper_lt_of_open` say what two schedules guarantee each other when they
share the width and no slice is active in both.
-/

/-- Slices of equal width, the active ones among them, and the end of a slice that is not used. -/
structure SliceSchedule where
  /-- The width of a slice. -/
  width : ℕ
  /-- The length of the unused end of a slice. -/
  taper : ℕ
  /-- Whether a slice is active. -/
  Active : ℕ → Prop
  /-- Something of every active slice can be used. -/
  taper_lt : taper < width

namespace SliceSchedule

variable (S : SliceSchedule)

/-- The slice that an instant lies in. -/
def slice (t : ℕ) : ℕ := t / S.width

/-- The instants that may be used. -/
def Open (t : ℕ) : Prop := S.Active (S.slice t) ∧ t + S.taper < (S.slice t + 1) * S.width

variable {S}

/-- A slice has a width. -/
lemma width_pos (S : SliceSchedule) : 0 < S.width := (Nat.zero_le _).trans_lt S.taper_lt

/-- Slices follow each other in the order of time. -/
lemma slice_mono {t u : ℕ} (h : t ≤ u) : S.slice t ≤ S.slice u := Nat.div_le_div_right h

/-- An instant lies before the end of its slice. -/
lemma lt_slice_succ_mul (S : SliceSchedule) (t : ℕ) : t < (S.slice t + 1) * S.width := by
  rw [mul_comm]
  exact Nat.lt_mul_div_succ t S.width_pos

/-- A slice starts in itself. -/
lemma slice_mul_width (S : SliceSchedule) (s : ℕ) : S.slice (s * S.width) = s :=
  Nat.mul_div_cancel s S.width_pos

/-- The instants from a slice on are those from its start on. -/
lemma le_slice_iff {s t : ℕ} : s ≤ S.slice t ↔ s * S.width ≤ t :=
  Nat.le_div_iff_mul_le S.width_pos

/-! ### The first open instant -/

/-- An active slice is open at its start. -/
lemma open_start {s : ℕ} (h : S.Active s) : S.Open (s * S.width) := by
  have hslice := S.slice_mul_width s
  constructor
  · rwa [hslice]
  · rw [hslice, add_mul, one_mul]
    exact Nat.add_lt_add_left S.taper_lt _

/-- Within a slice, what is before an open instant is open. -/
lemma Open.of_le {t u : ℕ} (hu : S.Open u) (htu : t ≤ u) (hslice : S.slice t = S.slice u) :
    S.Open t := by
  obtain ⟨hactive, hlt⟩ := hu
  rw [← hslice] at hactive hlt
  exact ⟨hactive, (Nat.add_le_add_right htu S.taper).trans_lt hlt⟩

/-- An open instant is the first one from itself on. -/
lemma Open.isLeast_self {t : ℕ} (h : S.Open t) : IsLeast {u | t ≤ u ∧ S.Open u} t :=
  ⟨⟨le_rfl, h⟩, fun _ hu => hu.1⟩

/-- **From an instant that is not open, the first open instant is the start of the next active
slice.** -/
theorem isLeast_start {t s : ℕ} (ht : ¬ S.Open t)
    (hs : IsLeast {s | S.slice t < s ∧ S.Active s} s) :
    IsLeast {u | t ≤ u ∧ S.Open u} (s * S.width) := by
  obtain ⟨⟨hlt, hactive⟩, hleast⟩ := hs
  constructor
  · have hend : (S.slice t + 1) * S.width ≤ s * S.width := Nat.mul_le_mul_right _ hlt
    exact ⟨(S.lt_slice_succ_mul t).le.trans hend, open_start hactive⟩
  · rintro u ⟨htu, hu⟩
    rcases (slice_mono htu).eq_or_lt with heq | hlt
    · exact absurd (hu.of_le htu heq) ht
    · exact le_slice_iff.mp (hleast ⟨hlt, hu.1⟩)

/-! ### Two schedules -/

variable {T : SliceSchedule}

/-- Schedules of one width agree on the slices. -/
lemma slice_congr (hwidth : S.width = T.width) (t : ℕ) : S.slice t = T.slice t := by
  unfold slice
  rw [hwidth]

/-- Instants that are open in schedules without a common active slice lie in different slices. -/
theorem slice_ne_of_open (hwidth : S.width = T.width) (hdisj : ∀ s, S.Active s → ¬ T.Active s)
    {t u : ℕ} (ht : S.Open t) (hu : T.Open u) : S.slice t ≠ S.slice u := by
  intro heq
  apply hdisj _ ht.1
  rw [heq, slice_congr hwidth]
  exact hu.1

/-- Between an open instant and a later one of the other schedule lies more than the taper. -/
theorem add_taper_lt_of_open (hwidth : S.width = T.width)
    (hdisj : ∀ s, S.Active s → ¬ T.Active s) {t u : ℕ} (ht : S.Open t) (hu : T.Open u)
    (htu : t ≤ u) : t + S.taper < u := by
  have hne := slice_ne_of_open hwidth hdisj ht hu
  have hlt : S.slice t < S.slice u := (slice_mono htu).lt_of_ne hne
  exact ht.2.trans_le (le_slice_iff.mp hlt)

end SliceSchedule
