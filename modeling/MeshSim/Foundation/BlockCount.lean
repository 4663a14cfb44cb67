import Mathlib

/-!
# Counting labels in blocks of a sequence

A sequence of items numbered from 0 is cut into blocks of `N` items, and every item carries a label.
`count N lab b a m` is the number of items with label `a` in block `b` among the first `m` items of
the sequence, and `positions N lab b a m` lists their numbers.

The second half measures how far a set of received numbers covers a list of positions from its
start: `covered` is the length of the longest initial segment that was received in full.
-/

namespace BlockCount

variable {ι : Type*} [DecidableEq ι] (N : ℕ) (lab : ℕ → ι)

/-- The number of items with label `a` in block `b` among the first `m` items. -/
def count (b : ℕ) (a : ι) (m : ℕ) : ℕ := Nat.count (fun q => q / N = b ∧ lab q = a) m

/-- The numbers of the items with label `a` in block `b` among the first `m` items. -/
def positions (b : ℕ) (a : ι) (m : ℕ) : List ℕ :=
  (List.range m).filter fun q => q / N = b ∧ lab q = a

variable {N lab}

/-- There is nothing to count among no items. -/
@[simp] lemma count_zero (b : ℕ) (a : ι) : count N lab b a 0 = 0 := Nat.count_zero _

/-- One more item is counted when it has the label and lies in the block. -/
lemma count_succ (b : ℕ) (a : ι) (m : ℕ) :
    count N lab b a (m + 1) = count N lab b a m + if m / N = b ∧ lab m = a then 1 else 0 :=
  Nat.count_succ _ _

/-- The count only depends on the labels counted. -/
lemma count_congr {lab' : ℕ → ι} {b : ℕ} {a : ι} {m : ℕ} (h : ∀ q < m, lab q = lab' q) :
    count N lab b a m = count N lab' b a m := by
  induction m with
  | zero => rfl
  | succ m ih =>
    rw [count_succ, count_succ, ih fun q hq => h q (by omega), h m (by omega)]

/-- Counting is monotone in the number of items. -/
lemma count_mono (b : ℕ) (a : ι) {m m' : ℕ} (h : m ≤ m') :
    count N lab b a m ≤ count N lab b a m' :=
  Nat.count_monotone _ h

/-- Items without the label in the block do not change the count. -/
lemma count_eq_of_forall {b : ℕ} {a : ι} {m m' : ℕ} (h : m ≤ m')
    (hno : ∀ q, m ≤ q → q < m' → q / N = b → lab q ≠ a) :
    count N lab b a m' = count N lab b a m := by
  induction m', h using Nat.le_induction with
  | base => rfl
  | succ k hk ih =>
    rw [count_succ, ih fun q hq hqk => hno q hq (by omega), if_neg, add_zero]
    exact fun hc => hno k hk (by omega) hc.1 hc.2

/-- In front of its first item nothing of a block is counted. -/
lemma count_eq_zero {b : ℕ} {a : ι} {m : ℕ} (hN : 0 < N) (h : m ≤ N * b) :
    count N lab b a m = 0 := by
  refine Nat.count_of_forall_not fun q hq hc => ?_
  have := Nat.div_mul_le_self q N
  have : q / N < b := (Nat.div_lt_iff_lt_mul hN).mpr (by rw [Nat.mul_comm]; omega)
  omega

/-- The count is the number of positions. -/
lemma length_positions (b : ℕ) (a : ι) (m : ℕ) :
    (positions N lab b a m).length = count N lab b a m := by
  rw [count, Nat.count, List.countP_eq_length_filter]
  rfl

/-- Membership in the list of positions. -/
lemma mem_positions {b : ℕ} {a : ι} {m q : ℕ} :
    q ∈ positions N lab b a m ↔ q < m ∧ q / N = b ∧ lab q = a := by
  simp [positions]

/-- The positions in front of an item of the list and behind it. -/
lemma positions_split {b : ℕ} {a : ι} {m p : ℕ} (hp : p ∈ positions N lab b a m) :
    ∃ rest, positions N lab b a m = positions N lab b a p ++ p :: rest ∧ ∀ q ∈ rest, p < q := by
  obtain ⟨hpm, hpb⟩ := mem_positions.mp hp
  obtain ⟨k, rfl⟩ : ∃ k, m = p + 1 + k := ⟨m - (p + 1), by omega⟩
  refine ⟨((List.range k).map fun q => p + 1 + q).filter fun q => q / N = b ∧ lab q = a, ?_, ?_⟩
  · rw [positions, List.range_add, List.filter_append, List.range_succ, List.filter_append,
      List.append_assoc, positions]
    simp [hpb.1, hpb.2]
  · intro q hq
    simp only [List.mem_filter, List.mem_map] at hq
    obtain ⟨⟨r, -, rfl⟩, -⟩ := hq
    omega

/-- The positions among the first items of the sequence come first. -/
lemma positions_take (b : ℕ) (a : ι) {m m' : ℕ} (h : m ≤ m') :
    (positions N lab b a m').take (count N lab b a m) = positions N lab b a m := by
  obtain ⟨k, rfl⟩ := Nat.exists_eq_add_of_le h
  rw [positions, List.range_add, List.filter_append, ← length_positions]
  exact List.take_left

/-! ### The part received in full -/

/-- The length of the longest initial segment of `s` whose members all belong to `received`. -/
def covered (s received : List ℕ) : ℕ := (s.takeWhile fun q => q ∈ received).length

/-- Nothing is covered by nothing. -/
@[simp] lemma covered_nil (s : List ℕ) : covered s [] = 0 := by
  cases s <;> simp [covered]

/-- Receiving a number outside the list covers no more of it. -/
lemma covered_concat_of_not_mem {s received : List ℕ} {p : ℕ} (hp : p ∉ s) :
    covered s (received ++ [p]) = covered s received := by
  induction s with
  | nil => rfl
  | cons q s ih =>
    rw [List.mem_cons, not_or] at hp
    have hq : q ∈ received ++ [p] ↔ q ∈ received := by simp [Ne.symm hp.1]
    unfold covered at ih ⊢
    by_cases h : q ∈ received
    · rw [List.takeWhile_cons_of_pos (by simpa using hq.mpr h),
        List.takeWhile_cons_of_pos (by simpa using h), List.length_cons, List.length_cons,
        ih hp.2]
    · rw [List.takeWhile_cons_of_neg (by simpa using fun hc => h (hq.mp hc)),
        List.takeWhile_cons_of_neg (by simpa using h)]

/-- A member of the list that was not received bounds what is covered by what precedes it. -/
lemma covered_append_cons {s₁ s₂ received : List ℕ} {p : ℕ} (hp : p ∉ received) :
    covered (s₁ ++ p :: s₂) received = covered s₁ received := by
  unfold covered
  rw [List.takeWhile_append]
  split
  · rename_i h
    simp [hp, h]
  · rfl

/-- Receiving the member `p` of a list, in front of everything behind it, covers one more exactly
when everything in front of `p` was covered. -/
lemma covered_concat {s₁ s₂ received : List ℕ} {p : ℕ} (h₁ : p ∉ s₁) (hp : p ∉ received)
    (h₂ : ∀ q ∈ s₂, q ∉ received ++ [p]) :
    covered (s₁ ++ p :: s₂) (received ++ [p]) =
      if covered (s₁ ++ p :: s₂) received = s₁.length then s₁.length + 1
      else covered (s₁ ++ p :: s₂) received := by
  have hs₂ : (s₂.takeWhile fun q => decide (q ∈ received ++ [p])) = [] := by
    cases s₂ with
    | nil => rfl
    | cons q s => rw [List.takeWhile_cons_of_neg]; simpa using h₂ q (by simp)
  have hs₁ : covered s₁ (received ++ [p]) = covered s₁ received := covered_concat_of_not_mem h₁
  rw [covered_append_cons hp]
  unfold covered at hs₁ ⊢
  rw [List.takeWhile_append, hs₁]
  split
  · rw [List.length_append, List.takeWhile_cons_of_pos (by simp), hs₂]
    rfl
  · exact hs₁

/-- A list none of whose members was received is not covered at all. -/
lemma covered_eq_zero {s received : List ℕ} (h : ∀ q ∈ s, q ∉ received) :
    covered s received = 0 := by
  cases s with
  | nil => rfl
  | cons q s => rw [covered, List.takeWhile_cons_of_neg (by simpa using h q (by simp))]; rfl

/-- A beginning of a list is covered when all its members were received. -/
lemma le_covered_iff {s received : List ℕ} {c : ℕ} (hc : c ≤ s.length) :
    c ≤ covered s received ↔ ∀ q ∈ s.take c, q ∈ received := by
  induction s generalizing c with
  | nil => simp_all [covered]
  | cons q s ih =>
    cases c with
    | zero => simp
    | succ c =>
      have ih := ih (Nat.le_of_succ_le_succ hc)
      unfold covered at ih ⊢
      by_cases hq : q ∈ received
      · rw [List.takeWhile_cons_of_pos (by simpa using hq), List.length_cons,
          Nat.add_le_add_iff_right, ih, List.take_succ_cons, List.forall_mem_cons]
        exact (and_iff_right hq).symm
      · rw [List.takeWhile_cons_of_neg (by simpa using hq), List.take_succ_cons,
          List.forall_mem_cons]
        simp [hq]

/-- Receiving more covers no less. -/
lemma covered_mono {s received received' : List ℕ} (h : received ⊆ received') :
    covered s received ≤ covered s received' := by
  have hle : covered s received ≤ s.length := (List.takeWhile_prefix _).length_le
  exact (le_covered_iff hle).mpr fun q hq => h ((le_covered_iff hle).mp le_rfl q hq)

/-- When the beginning of a list is covered but for its last member, and a new number received is in
it, the new number is the last member. -/
lemma succ_le_covered {s received : List ℕ} {c p : ℕ} (hc : c < s.length)
    (hcovered : c ≤ covered s received) (hp : p ∉ received) (hmem : p ∈ s.take (c + 1)) :
    c + 1 ≤ covered s (received ++ [p]) := by
  have hfront := (le_covered_iff hc.le).mp hcovered
  rw [List.take_succ_eq_append_getElem hc, List.mem_append] at hmem
  have hlast : p = s[c] :=
    (hmem.resolve_left fun h => hp (hfront p h)) |> List.mem_singleton.mp
  refine (le_covered_iff hc).mpr fun q hq => ?_
  rw [List.take_succ_eq_append_getElem hc, List.mem_append, List.mem_singleton] at hq
  rcases hq with hq | rfl
  · exact List.mem_append_left _ (hfront q hq)
  · exact List.mem_append_right _ (List.mem_singleton.mpr hlast.symm)

/-- Covering may be measured on items instead of their numbers, when the numbers tell the items
apart. -/
lemma covered_map {α : Type*} [DecidableEq α] {f : α → ℕ} {s received : List α}
    (h : ∀ x ∈ s, ∀ y ∈ received, f x = f y → x = y) :
    covered (s.map f) (received.map f) = (s.takeWhile fun x => x ∈ received).length := by
  induction s with
  | nil => rfl
  | cons x s ih =>
    have hx : f x ∈ received.map f ↔ x ∈ received := by
      constructor
      · intro hmem
        obtain ⟨y, hy, hxy⟩ := List.mem_map.mp hmem
        rwa [h x (by simp) y hy hxy.symm]
      · exact List.mem_map_of_mem
    have ih := ih fun y hy => h y (List.mem_cons_of_mem _ hy)
    unfold covered at ih ⊢
    by_cases hmem : x ∈ received
    · rw [List.map_cons, List.takeWhile_cons_of_pos (by simpa using hx.mpr hmem),
        List.takeWhile_cons_of_pos (by simpa using hmem), List.length_cons, List.length_cons, ih]
    · rw [List.map_cons, List.takeWhile_cons_of_neg (by simpa using fun hc => hmem (hx.mp hc)),
        List.takeWhile_cons_of_neg (by simpa using hmem)]
      rfl

end BlockCount
