import Mathlib

/-!
# Binary max-heaps in an array

The heap operations of the C++ standard library on an array that is a binary max-heap for the order
of a key: `pushHeap` moves the element at the end of the array to its place, and `popHeap` moves a
greatest element to the end and restores the heap in front of it.

Both are sifts along one path of the tree.  A sift is correct from an array that is a heap except
around one position, the hole: `UpReady` and `DownReady` say what is known there, each step of the
sift moves the hole and keeps them, and a sift that stops leaves a heap.  The operations only swap
elements, so they keep the multiset of the array (`pushHeap_perm`, `popHeap_perm`), and they commute
with every map that preserves keys (`map_pushHeap`, `map_popHeap`).
-/

namespace BinaryHeap

variable {α β γ : Type*} [LinearOrder β] (key : α → β)

/-- The parent position of a position other than the root. -/
def parent (i : ℕ) : ℕ := (i - 1) / 2

/-- The parent of a position other than the root comes before it. -/
lemma parent_lt {i : ℕ} (h : 0 < i) : parent i < i := by
  unfold parent; omega

/-- The heap order: no element exceeds its parent. -/
def IsHeap (a : Array α) : Prop :=
  ∀ i j (hi : i < a.size) (hj : j < a.size), 0 < i → parent i = j → key a[i] ≤ key a[j]

/-- The empty array is a heap. -/
lemma isHeap_empty : IsHeap key (#[] : Array α) := by
  intro i j hi
  simp at hi

/-- The root of a heap is a greatest element. -/
theorem IsHeap.le_root {key : α → β} {a : Array α} (h : IsHeap key a) (h0 : 0 < a.size) (i : ℕ)
    (hi : i < a.size) : key a[i] ≤ key a[0] := by
  induction i using Nat.strongRecOn with
  | ind i ih =>
    rcases Nat.eq_zero_or_pos i with rfl | hpos
    · exact le_rfl
    · have hp : parent i < a.size := (parent_lt hpos).trans hi
      exact (h i (parent i) hi hp hpos rfl).trans (ih _ (parent_lt hpos) hp)

/-- An initial segment of a heap is a heap. -/
lemma IsHeap.pop {key : α → β} {a : Array α} (h : IsHeap key a) : IsHeap key a.pop := by
  intro i j hi hj hpos hij
  simp only [Array.size_pop] at hi hj
  simpa using h i j (by omega) (by omega) hpos hij

/-! ### Sifting up -/

/-- Move the element at position `i` towards the root while it exceeds its parent.  The first
argument bounds the number of moves; the position itself is always enough. -/
def siftUp : ℕ → Array α → ℕ → Array α
  | 0, a, _ => a
  | fuel + 1, a, i =>
    if h : 0 < i ∧ i < a.size then
      if key (getElem a (parent i) ((parent_lt h.1).trans h.2)) < key (getElem a i h.2) then
        siftUp fuel (a.swap (parent i) i ((parent_lt h.1).trans h.2) h.2) (parent i)
      else a
    else a

/-- An array that is a heap except on the edge above position `i`, whose parent is at least every
child of `i`. -/
structure UpReady (a : Array α) (i : ℕ) : Prop where
  /-- Every edge other than the one above `i` is in order. -/
  except : ∀ k j (hk : k < a.size) (hj : j < a.size), 0 < k → parent k = j → k ≠ i →
    key a[k] ≤ key a[j]
  /-- The children of `i` are in order with the parent of `i`. -/
  grand : ∀ k j (hk : k < a.size) (hj : j < a.size), 0 < k → parent k = i → 0 < i →
    parent i = j → key a[k] ≤ key a[j]

variable {key}

/-- Exchanging position `i` with a smaller parent moves the hole of a sift up to the parent. -/
lemma UpReady.swap {a : Array α} {i p : ℕ} (h : UpReady key a i) (hi : i < a.size)
    (hp : p < a.size) (hpos : 0 < i) (hpi : parent i = p) (hlt : key a[p] < key a[i]) :
    UpReady key (a.swap p i hp hi) p := by
  have hpi_lt : p < i := hpi ▸ parent_lt hpos
  constructor
  · intro k j hk hj hkpos hkj hkp
    have hjk : j < k := hkj ▸ parent_lt hkpos
    simp only [Array.size_swap] at hk hj
    simp only [Array.getElem_swap, if_neg hkp]
    by_cases hki : k = i
    · subst hki
      have hjp : j = p := hkj ▸ hpi
      simpa [hjp] using hlt.le
    · rw [if_neg hki]
      by_cases hjp : j = p
      · rw [if_pos hjp]
        exact (h.except k p hk hp hkpos (hkj.trans hjp) hki).trans hlt.le
      · by_cases hji : j = i
        · rw [if_neg hjp, if_pos hji]
          exact h.grand k p hk hp hkpos (hkj.trans hji) hpos hpi
        · rw [if_neg hjp, if_neg hji]
          exact h.except k j hk hj hkpos hkj hki
  · intro k j hk hj hkpos hkp hppos hpj
    have hjp : j < p := hpj ▸ parent_lt hppos
    have hpk : p < k := hkp ▸ parent_lt hkpos
    simp only [Array.size_swap] at hk hj
    have hup : key a[p] ≤ key a[j] := h.except p j hp hj hppos hpj (by omega)
    simp only [Array.getElem_swap, if_neg (show k ≠ p by omega), if_neg (show j ≠ p by omega),
      if_neg (show j ≠ i by omega)]
    by_cases hki : k = i
    · rw [if_pos hki]
      exact hup
    · rw [if_neg hki]
      exact (h.except k p hk hp hkpos hkp hki).trans hup

/-- A sift up with enough fuel ends in a heap. -/
theorem siftUp_isHeap {fuel : ℕ} {a : Array α} {i : ℕ} (h : UpReady key a i) (hi : i < a.size)
    (hfuel : i ≤ fuel) : IsHeap key (siftUp key fuel a i) := by
  induction fuel generalizing a i with
  | zero =>
    intro k j hk hj hkpos hkj
    exact h.except k j hk hj hkpos hkj (by omega)
  | succ fuel ih =>
    unfold siftUp
    split
    · rename_i hc
      have hp : parent i < a.size := (parent_lt hc.1).trans hc.2
      split
      · rename_i hlt
        refine ih (h.swap hi hp hc.1 rfl hlt) (by simpa using hp) ?_
        have := parent_lt hc.1
        omega
      · rename_i hle
        intro k j hk hj hkpos hkj
        by_cases hki : k = i
        · subst hki hkj
          exact not_lt.mp hle
        · exact h.except k j hk hj hkpos hkj hki
    · rename_i hc
      intro k j hk hj hkpos hkj
      exact h.except k j hk hj hkpos hkj (by omega)

/-- A sift up only rearranges the array. -/
lemma siftUp_perm (fuel : ℕ) (a : Array α) (i : ℕ) : (siftUp key fuel a i).Perm a := by
  induction fuel generalizing a i with
  | zero => exact Array.Perm.refl _
  | succ fuel ih =>
    unfold siftUp
    split
    · split
      · exact (ih _ _).trans (Array.swap_perm _ _)
      · exact Array.Perm.refl _
    · exact Array.Perm.refl _

/-! ### Sifting down -/

variable (key)

/-- The position of a greatest child of position `i`, when there is one. -/
def largerChild (a : Array α) (i : ℕ) : Option ℕ :=
  if h : 2 * i + 2 < a.size then
    if key (getElem a (2 * i + 1) (by omega)) < key a[2 * i + 2] then some (2 * i + 2)
    else some (2 * i + 1)
  else if 2 * i + 1 < a.size then some (2 * i + 1) else none

/-- Move the element at position `i` away from the root while a child exceeds it.  The first
argument bounds the number of moves; the size of the array is always enough. -/
def siftDown : ℕ → Array α → ℕ → Array α
  | 0, a, _ => a
  | fuel + 1, a, i =>
    match largerChild key a i with
    | none => a
    | some c =>
      if h : i < a.size ∧ c < a.size then
        if key (getElem a i h.1) < key (getElem a c h.2) then
          siftDown fuel (a.swap i c h.1 h.2) c
        else a
      else a

/-- An array that is a heap except on the edges below position `i`, whose children are at most the
parent of `i`. -/
structure DownReady (a : Array α) (i : ℕ) : Prop where
  /-- Every edge that does not leave `i` is in order. -/
  except : ∀ k j (hk : k < a.size) (hj : j < a.size), 0 < k → parent k = j → j ≠ i →
    key a[k] ≤ key a[j]
  /-- The children of `i` are in order with the parent of `i`. -/
  grand : ∀ k j (hk : k < a.size) (hj : j < a.size), 0 < k → parent k = i → 0 < i →
    parent i = j → key a[k] ≤ key a[j]

variable {key}

/-- Without a greatest child a position has no child at all. -/
lemma no_child_of_largerChild_eq_none {a : Array α} {i k : ℕ} (h : largerChild key a i = none)
    (hk : k < a.size) (hpos : 0 < k) : parent k ≠ i := by
  unfold largerChild at h
  split at h
  · split at h <;> cases h
  · split at h
    · cases h
    · unfold parent
      omega

/-- The greatest child is a child inside the array. -/
lemma largerChild_bounds {a : Array α} {i c : ℕ} (h : largerChild key a i = some c) :
    c < a.size ∧ 0 < c ∧ parent c = i := by
  unfold largerChild at h
  unfold parent
  split at h
  · split at h <;> (cases h; omega)
  · split at h
    · cases h; omega
    · cases h

/-- The greatest child is at least every child. -/
lemma le_largerChild {a : Array α} {i c k : ℕ} (h : largerChild key a i = some c)
    (hc : c < a.size) (hk : k < a.size) (hpos : 0 < k) (hki : parent k = i) :
    key a[k] ≤ key a[c] := by
  unfold largerChild at h
  unfold parent at hki
  have hcases : k = 2 * i + 1 ∨ k = 2 * i + 2 := by omega
  split at h
  · split at h
    · rename_i hlt
      cases h
      rcases hcases with rfl | rfl
      · exact hlt.le
      · exact le_rfl
    · rename_i hle
      cases h
      rcases hcases with rfl | rfl
      · exact le_rfl
      · exact not_lt.mp hle
  · split at h
    · cases h
      rcases hcases with rfl | rfl
      · exact le_rfl
      · omega
    · cases h

/-- Exchanging position `i` with its greatest child moves the hole of a sift down to that child. -/
lemma DownReady.swap {a : Array α} {i c : ℕ} (h : DownReady key a i) (hi : i < a.size)
    (hc : c < a.size) (hlarger : largerChild key a i = some c) (hlt : key a[i] < key a[c]) :
    DownReady key (a.swap i c hi hc) c := by
  obtain ⟨-, hcpos, hci⟩ := largerChild_bounds hlarger
  have hic : i < c := hci ▸ parent_lt hcpos
  constructor
  · intro k j hk hj hkpos hkj hjc
    have hjk : j < k := hkj ▸ parent_lt hkpos
    simp only [Array.size_swap] at hk hj
    simp only [Array.getElem_swap, if_neg hjc]
    by_cases hki : k = i
    · rw [if_pos hki, if_neg (show j ≠ i by omega)]
      exact h.grand c j hc hj hcpos hci (hki ▸ hkpos) (hki ▸ hkj)
    · rw [if_neg hki]
      by_cases hkc : k = c
      · subst hkc
        rw [if_pos rfl, if_pos (hkj.symm.trans hci)]
        exact hlt.le
      · rw [if_neg hkc]
        by_cases hji : j = i
        · rw [if_pos hji]
          exact le_largerChild hlarger hc hk hkpos (hkj.trans hji)
        · rw [if_neg hji]
          exact h.except k j hk hj hkpos hkj hji
  · intro k j hk hj hkpos hkc _ hcj
    have hck : c < k := hkc ▸ parent_lt hkpos
    have hji : j = i := hcj.symm.trans hci
    simp only [Array.size_swap] at hk hj
    simp only [Array.getElem_swap, if_neg (show k ≠ i by omega), if_neg (show k ≠ c by omega),
      if_pos hji]
    exact h.except k c hk hc hkpos hkc (by omega)

/-- A sift down with enough fuel ends in a heap. -/
theorem siftDown_isHeap {fuel : ℕ} {a : Array α} {i : ℕ} (h : DownReady key a i)
    (hfuel : a.size ≤ fuel + i) : IsHeap key (siftDown key fuel a i) := by
  induction fuel generalizing a i with
  | zero =>
    intro k j (hk : k < a.size) hj hkpos hkj
    have hjk : j < k := hkj ▸ parent_lt hkpos
    exact h.except k j hk hj hkpos hkj (by omega)
  | succ fuel ih =>
    unfold siftDown
    split
    · rename_i hnone
      intro k j hk hj hkpos hkj
      exact h.except k j hk hj hkpos hkj
        (hkj ▸ no_child_of_largerChild_eq_none hnone hk hkpos)
    · rename_i c hsome
      obtain ⟨hc, hcpos, hci⟩ := largerChild_bounds hsome
      have hic : i < c := hci ▸ parent_lt hcpos
      have hi : i < a.size := hic.trans hc
      rw [dif_pos ⟨hi, hc⟩]
      split
      · rename_i hlt
        exact ih (h.swap hi hc hsome hlt) (by simp only [Array.size_swap]; omega)
      · rename_i hle
        intro k j hk hj hkpos hkj
        by_cases hji : j = i
        · subst hji
          exact (le_largerChild hsome hc hk hkpos hkj).trans (not_lt.mp hle)
        · exact h.except k j hk hj hkpos hkj hji

/-- A sift down only rearranges the array. -/
lemma siftDown_perm (fuel : ℕ) (a : Array α) (i : ℕ) : (siftDown key fuel a i).Perm a := by
  induction fuel generalizing a i with
  | zero => exact Array.Perm.refl _
  | succ fuel ih =>
    unfold siftDown
    split
    · exact Array.Perm.refl _
    · split
      · split
        · exact (ih _ _).trans (Array.swap_perm _ _)
        · exact Array.Perm.refl _
      · exact Array.Perm.refl _

/-! ### The library operations -/

variable (key)

/-- `std::push_heap`: the array in front of its last element is a heap, and the last element moves
to its place. -/
def pushHeap (a : Array α) : Array α := siftUp key a.size a (a.size - 1)

/-- `std::pop_heap`: the root of the heap moves to the end, and the array in front of it becomes a
heap again. -/
def popHeap (a : Array α) : Array α :=
  if h : 0 < a.size then
    (siftDown key a.size (a.swap 0 (a.size - 1) h (by omega)).pop 0).push a[0]
  else a

variable {key}

/-- Pushing onto a heap gives a heap. -/
theorem pushHeap_isHeap {a : Array α} (h : IsHeap key a) (x : α) :
    IsHeap key (pushHeap key (a.push x)) := by
  refine siftUp_isHeap ⟨?_, ?_⟩ (by simp) (by simp)
  · intro k j hk hj hkpos hkj hlast
    have hjk : j < k := hkj ▸ parent_lt hkpos
    simp only [Array.size_push, Nat.add_sub_cancel] at hk hj hlast
    rw [Array.getElem_push_lt (by omega), Array.getElem_push_lt (by omega)]
    exact h k j (by omega) (by omega) hkpos hkj
  · intro k j hk _ hkpos hklast
    have := hklast ▸ parent_lt hkpos
    simp only [Array.size_push, Nat.add_sub_cancel] at hk this
    omega

/-- Pushing keeps the elements. -/
lemma pushHeap_perm (a : Array α) : (pushHeap key a).Perm a := siftUp_perm _ _ _

/-- Pushing keeps the size. -/
@[simp] lemma size_pushHeap (a : Array α) : (pushHeap key a).size = a.size :=
  (pushHeap_perm a).size_eq

/-- An array is its last element behind the rest. -/
lemma pop_push_last {a : Array α} (h : 0 < a.size) : a.pop.push a[a.size - 1] = a := by
  obtain ⟨c, x, rfl⟩ := Array.eq_push_of_size_ne_zero h.ne'
  simp

/-- Popping keeps the elements: the new array is the root behind a rearrangement of the rest. -/
lemma popHeap_perm (a : Array α) : (popHeap key a).Perm a := by
  unfold popHeap
  split
  · rename_i h
    have hlast : a.size - 1 < a.size := by omega
    have hroot : (a.swap 0 (a.size - 1) h hlast).pop.push a[0] =
        a.swap 0 (a.size - 1) h hlast := by
      have hpos : 0 < (a.swap 0 (a.size - 1) h hlast).size := by simpa using h
      refine Eq.trans ?_ (pop_push_last hpos)
      congr 1
      simp
    refine ((siftDown_perm _ _ _).push _).trans ?_
    rw [hroot]
    exact Array.swap_perm h hlast
  · exact Array.Perm.refl _

/-- Popping keeps the size. -/
@[simp] lemma size_popHeap (a : Array α) : (popHeap key a).size = a.size :=
  (popHeap_perm a).size_eq

/-- Popping moves the root to the end. -/
lemma popHeap_back? {a : Array α} (h : 0 < a.size) : (popHeap key a).back? = some a[0] := by
  simp [popHeap, h]

/-- Popping a heap leaves a heap in front of the last element. -/
theorem popHeap_isHeap {a : Array α} (h : IsHeap key a) : IsHeap key (popHeap key a).pop := by
  unfold popHeap
  split
  · rename_i h0
    rw [Array.pop_push]
    refine siftDown_isHeap ⟨?_, ?_⟩ (by simp)
    · intro k j hk hj hkpos hkj hj0
      have hjk : j < k := hkj ▸ parent_lt hkpos
      simp only [Array.size_pop, Array.size_swap] at hk hj
      simp only [Array.getElem_pop, Array.getElem_swap, if_neg (show k ≠ 0 by omega),
        if_neg (show k ≠ a.size - 1 by omega), if_neg hj0, if_neg (show j ≠ a.size - 1 by omega)]
      exact h k j (by omega) (by omega) hkpos hkj
    · intro k j _ _ _ _ h00
      exact absurd h00 (lt_irrefl 0)
  · exact h.pop

/-! ### Maps that preserve keys -/

variable {key' : γ → β} {g : α → γ}

/-- Exchanging two elements commutes with a map. -/
lemma map_swap (g : α → γ) (a : Array α) (i j : ℕ) (hi : i < a.size) (hj : j < a.size) :
    (a.swap i j hi hj).map g = (a.map g).swap i j (by simpa using hi) (by simpa using hj) := by
  apply Array.ext
  · simp
  · intro k _ _
    simp only [Array.getElem_map, Array.getElem_swap]
    split
    · rfl
    · split <;> rfl

/-- A sift up commutes with a map that preserves keys. -/
lemma map_siftUp (hg : ∀ x, key' (g x) = key x) (fuel : ℕ) (a : Array α) (i : ℕ) :
    (siftUp key fuel a i).map g = siftUp key' fuel (a.map g) i := by
  induction fuel generalizing a i with
  | zero => rfl
  | succ fuel ih =>
    unfold siftUp
    by_cases h : 0 < i ∧ i < a.size
    · have h' : 0 < i ∧ i < (a.map g).size := by simpa using h
      simp only [dif_pos h, dif_pos h', Array.getElem_map, hg]
      split
      · rw [ih, map_swap]
      · rfl
    · have h' : ¬ (0 < i ∧ i < (a.map g).size) := by simpa using h
      rw [dif_neg h, dif_neg h']

/-- The choice of the greatest child commutes with a map that preserves keys. -/
lemma largerChild_map (hg : ∀ x, key' (g x) = key x) (a : Array α) (i : ℕ) :
    largerChild key' (a.map g) i = largerChild key a i := by
  unfold largerChild
  simp [hg]

/-- A sift down commutes with a map that preserves keys. -/
lemma map_siftDown (hg : ∀ x, key' (g x) = key x) (fuel : ℕ) (a : Array α) (i : ℕ) :
    (siftDown key fuel a i).map g = siftDown key' fuel (a.map g) i := by
  induction fuel generalizing a i with
  | zero => rfl
  | succ fuel ih =>
    unfold siftDown
    rw [largerChild_map hg]
    cases largerChild key a i with
    | none => rfl
    | some c =>
      by_cases h : i < a.size ∧ c < a.size
      · have h' : i < (a.map g).size ∧ c < (a.map g).size := by simpa using h
        simp only [dif_pos h, dif_pos h', Array.getElem_map, hg]
        split
        · rw [ih, map_swap]
        · rfl
      · have h' : ¬ (i < (a.map g).size ∧ c < (a.map g).size) := by simpa using h
        simp only [dif_neg h, dif_neg h']

/-- Pushing commutes with a map that preserves keys. -/
theorem map_pushHeap (hg : ∀ x, key' (g x) = key x) (a : Array α) :
    (pushHeap key a).map g = pushHeap key' (a.map g) := by
  simp [pushHeap, map_siftUp hg]

/-- Popping commutes with a map that preserves keys. -/
theorem map_popHeap (hg : ∀ x, key' (g x) = key x) (a : Array α) :
    (popHeap key a).map g = popHeap key' (a.map g) := by
  unfold popHeap
  by_cases h : 0 < a.size
  · have h' : 0 < (a.map g).size := by simpa using h
    simp [h, map_siftDown hg, map_swap]
  · simp [h]

end BinaryHeap
