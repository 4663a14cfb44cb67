import MeshSim.Foundation.BinaryHeap
import MeshSim.Foundation.Mealy

/-!
# Sliding a bounded priority window over a sequence

A heap of at most `N` items slides over a sequence of arrivals: when it is full, an item with the
greatest key is popped just before the next arrival is pushed.  The popped items are the output.

An arrival is late when at least `N` arrivals with a smaller key came before it.  The main result is
that lateness can be read off the output: an item is late exactly when an item with a smaller key
was popped before it (`Slides.popped`).  So without late arrivals the output is sorted by descending
keys (`Slides.pairwise`), and an arrival that is not late never falls into a gap of the output
(`Slides.gap`).
-/

namespace PriorityWindow

open BinaryHeap

variable {α β : Type*} [LinearOrder β] (key : α → β) (N : ℕ)

/-- One arrival: the window after it, and the item popped before it when the window was full. -/
def slide (h : Array α) (x : α) : Array α × List α :=
  if h.size = N then
    (pushHeap key ((popHeap key h).pop.push x), (popHeap key h).back?.toList)
  else (pushHeap key (h.push x), [])

/-- A heap of at most `N` items. -/
structure Window (h : Array α) : Prop where
  /-- The items are heap-ordered. -/
  isHeap : IsHeap key h
  /-- There are at most `N` of them. -/
  size_le : h.size ≤ N

variable {key N}

/-- The empty window. -/
lemma window_empty : Window key N (#[] : Array α) := ⟨isHeap_empty key, Nat.zero_le N⟩

/-- Pushing onto a window that is not full. -/
lemma Window.push {h : Array α} (hheap : IsHeap key h) (hsize : h.size < N) (x : α) :
    Window key N (pushHeap key (h.push x)) := by
  refine ⟨pushHeap_isHeap hheap x, ?_⟩
  rw [size_pushHeap, Array.size_push]
  exact hsize

/-- The items after a push. -/
lemma toList_pushHeap_perm (h : Array α) (x : α) :
    (pushHeap key (h.push x)).toList.Perm (x :: h.toList) := by
  refine (Array.perm_iff_toList_perm.mp (pushHeap_perm (h.push x))).trans ?_
  rw [Array.toList_push]
  exact List.perm_append_singleton x h.toList

/-- The item a non-empty heap pops is one of its greatest. -/
lemma exists_popped {h : Array α} (hheap : IsHeap key h) (hpos : 0 < h.size) :
    ∃ v, (popHeap key h).back?.toList = [v] ∧ h.toList.Perm (v :: (popHeap key h).pop.toList) ∧
      ∀ w ∈ (popHeap key h).pop.toList, key w ≤ key v := by
  have hback : (popHeap key h).back? = some h[0] := popHeap_back? hpos
  have hperm : h.toList.Perm (h[0] :: (popHeap key h).pop.toList) := by
    have hlist : (popHeap key h).toList = (popHeap key h).pop.toList ++ [h[0]] := by
      rw [Array.toList_pop]
      refine (List.dropLast_append_getLast? _ ?_).symm
      rw [← Array.getLast?_toList] at hback
      exact hback
    have h₁ : (popHeap key h).toList.Perm h.toList :=
      Array.perm_iff_toList_perm.mp (popHeap_perm h)
    rw [hlist] at h₁
    exact h₁.symm.trans (List.perm_append_singleton _ _)
  refine ⟨h[0], by rw [hback]; rfl, hperm, fun w hw => ?_⟩
  have hmem : w ∈ h.toList := hperm.mem_iff.mpr (List.mem_cons_of_mem _ hw)
  obtain ⟨i, hi, rfl⟩ := List.mem_iff_getElem.mp hmem
  exact hheap.le_root hpos i hi

/-- **What one arrival does.** The window grows until it is full; then an item with a greatest key
is popped. -/
theorem slide_cases {h : Array α} (hw : Window key N h) (hN : 0 < N) (x : α) :
    (h.size < N ∧ (slide key N h x).2 = [] ∧
      (slide key N h x).1.toList.Perm (x :: h.toList) ∧ Window key N (slide key N h x).1) ∨
    (h.size = N ∧ ∃ v rest, (slide key N h x).2 = [v] ∧ h.toList.Perm (v :: rest) ∧
      (∀ w ∈ rest, key w ≤ key v) ∧ (slide key N h x).1.toList.Perm (x :: rest) ∧
      Window key N (slide key N h x).1) := by
  rcases hw.size_le.lt_or_eq with hlt | heq
  · refine Or.inl ⟨hlt, ?_⟩
    rw [slide, if_neg hlt.ne]
    exact ⟨rfl, toList_pushHeap_perm h x, Window.push hw.isHeap hlt x⟩
  · obtain ⟨v, hv, hperm, hle⟩ := exists_popped hw.isHeap (heq ▸ hN)
    refine Or.inr ⟨heq, v, (popHeap key h).pop.toList, ?_⟩
    rw [slide, if_pos heq]
    refine ⟨hv, hperm, hle, toList_pushHeap_perm _ x, Window.push (popHeap_isHeap hw.isHeap) ?_ x⟩
    rw [Array.size_pop, size_popHeap]
    omega

/-! ### The invariant of a run -/

/-- A window that has slid over the arrivals `pre` and popped `outs`, where `late` marks the late
arrivals. -/
structure Slides (key : α → β) (N : ℕ) (late : α → Prop) (pre : List α) (h : Array α)
    (outs : List α) : Prop where
  /-- The window is one. -/
  window : Window key N h
  /-- Every arrival has been popped or is in the window. -/
  perm : (outs ++ h.toList).Perm pre
  /-- Nothing is popped before the window is full. -/
  full : outs ≠ [] → h.size = N
  /-- A popped item had `N` arrivals of at most its key before it. -/
  beyond : ∀ o ∈ outs, N ≤ pre.countP fun y => key y ≤ key o
  /-- An item of the window is late exactly when one with a smaller key has been popped. -/
  inside : ∀ w ∈ h.toList, late w ↔ ∃ o ∈ outs, key o < key w
  /-- A popped item is late exactly when one with a smaller key was popped before. -/
  popped : ∀ before e after, outs = before ++ e :: after →
    (late e ↔ ∃ o ∈ before, key o < key e)
  /-- An arrival that is not late never lies strictly between what was popped before an item and the
  item. -/
  gap : ∀ x ∈ pre, ¬late x → ∀ before e after, outs = before ++ e :: after →
    ¬((∀ o ∈ before, key x < key o) ∧ key e < key x)

/-- A window over nothing. -/
lemma slides_nil (late : α → Prop) : Slides key N late [] (#[] : Array α) [] where
  window := window_empty
  perm := List.Perm.refl _
  full := fun h => absurd rfl h
  beyond := fun _ ho => by cases ho
  inside := fun _ hw => by cases hw
  popped := fun _ _ _ h => by simp at h
  gap := fun _ hx => by cases hx

section Step

variable {late : α → Prop} {pre : List α} {h : Array α} {outs : List α} {x : α}

/-- Splitting the output behind one more item. -/
lemma split_concat {before after outs : List α} {e v : α}
    (h : outs ++ [v] = before ++ e :: after) :
    (∃ after', outs = before ++ e :: after') ∨ (outs = before ∧ v = e) := by
  rcases List.eq_nil_or_concat after with rfl | ⟨after', u, rfl⟩
  · obtain ⟨h₁, h₂⟩ := List.append_inj' h rfl
    exact Or.inr ⟨h₁, by simpa using h₂⟩
  · refine Or.inl ⟨after', ?_⟩
    have h' : outs ++ [v] = (before ++ e :: after') ++ [u] := by
      rw [h]
      simp
    exact (List.append_inj' h' rfl).1

/-- **Lateness at the moment of arrival.** When fewer than `N` of the earlier arrivals are still in
the window, an arrival is late exactly when an item with a smaller key has been popped. -/
lemma late_iff_of_perm {rest : List α} (hperm : (outs ++ rest).Perm pre)
    (hrest : rest.length < N) (hbeyond : ∀ o ∈ outs, N ≤ pre.countP fun y => key y ≤ key o)
    (hlate : late x ↔ N ≤ pre.countP fun y => key y < key x) :
    late x ↔ ∃ o ∈ outs, key o < key x := by
  rw [hlate]
  constructor
  · intro hcount
    by_contra hno
    have houts : outs.countP (fun y => key y < key x) = 0 := by
      refine List.countP_eq_zero.mpr fun o ho hlt => ?_
      exact hno ⟨o, ho, of_decide_eq_true hlt⟩
    have hle := List.countP_le_length (p := fun y => decide (key y < key x)) (l := rest)
    rw [← hperm.countP_eq, List.countP_append, houts] at hcount
    omega
  · rintro ⟨o, ho, hlt⟩
    refine (hbeyond o ho).trans (List.countP_mono_left fun y _ hy => ?_)
    exact decide_eq_true ((of_decide_eq_true hy).trans_lt hlt)

/-- An arrival that pops nothing keeps the invariant. -/
lemma Slides.grow (hs : Slides key N late pre h outs) {h' : Array α} (hlt : h.size < N)
    (hperm : h'.toList.Perm (x :: h.toList)) (hw : Window key N h')
    (hlate : late x ↔ N ≤ pre.countP fun y => key y < key x) :
    Slides key N late (pre ++ [x]) h' outs := by
  have houts : outs = [] := by
    by_contra hne
    exact hlt.ne (hs.full hne)
  subst houts
  have hx := late_iff_of_perm hs.perm (by simpa using hlt) hs.beyond hlate
  constructor
  · exact hw
  · exact (hperm.trans (hs.perm.cons x)).trans (List.perm_append_singleton x pre).symm
  · exact fun hne => absurd rfl hne
  · exact fun _ ho => by cases ho
  · intro w hw
    rcases List.mem_cons.mp (hperm.mem_iff.mp hw) with rfl | hw
    · exact hx
    · exact hs.inside w hw
  · exact fun _ _ _ heq => by simp at heq
  · exact fun _ _ _ _ _ _ heq => by simp at heq

/-- An arrival that pops an item keeps the invariant. -/
lemma Slides.pop (hs : Slides key N late pre h outs) {h' : Array α} {v : α} {rest : List α}
    (hfull : h.size = N) (hpop : h.toList.Perm (v :: rest))
    (hgreatest : ∀ w ∈ rest, key w ≤ key v) (hperm : h'.toList.Perm (x :: rest))
    (hw : Window key N h') (hlate : late x ↔ N ≤ pre.countP fun y => key y < key x) :
    Slides key N late (pre ++ [x]) h' (outs ++ [v]) := by
  have hsize : rest.length + 1 = N := by
    have := hpop.length_eq
    rw [Array.length_toList, List.length_cons] at this
    omega
  have hpre : ((outs ++ [v]) ++ rest).Perm pre := by
    rw [List.append_assoc, List.singleton_append]
    exact (hpop.symm.append_left outs).trans hs.perm
  have hvmem : v ∈ h.toList := hpop.mem_iff.mpr (List.mem_cons_self)
  have hwin : ∀ w ∈ h.toList, key w ≤ key v := by
    intro w hw
    rcases List.mem_cons.mp (hpop.mem_iff.mp hw) with rfl | hw
    · exact le_rfl
    · exact hgreatest w hw
  have hbeyond : ∀ o ∈ outs ++ [v], N ≤ pre.countP fun y => key y ≤ key o := by
    intro o ho
    rcases List.mem_append.mp ho with ho | ho
    · exact hs.beyond o ho
    · rw [List.mem_singleton.mp ho, ← hs.perm.countP_eq, List.countP_append,
        List.countP_eq_length.mpr fun w hw => decide_eq_true (hwin w hw), Array.length_toList]
      omega
  have hx : late x ↔ ∃ o ∈ outs ++ [v], key o < key x :=
    late_iff_of_perm hpre (by omega) hbeyond hlate
  constructor
  · exact hw
  · refine ((hperm.append_left _).trans List.perm_middle).trans ?_
    exact (hpre.cons x).trans (List.perm_append_singleton x pre).symm
  · intro _
    have := hperm.length_eq
    rw [Array.length_toList, List.length_cons] at this
    omega
  · intro o ho
    rw [List.countP_append]
    exact (hbeyond o ho).trans (Nat.le_add_right _ _)
  · intro w hw
    rcases List.mem_cons.mp (hperm.mem_iff.mp hw) with rfl | hw
    · exact hx
    · have hmem : w ∈ h.toList := hpop.mem_iff.mpr (List.mem_cons_of_mem _ hw)
      rw [hs.inside w hmem]
      constructor
      · rintro ⟨o, ho, hlt⟩
        exact ⟨o, List.mem_append_left _ ho, hlt⟩
      · rintro ⟨o, ho, hlt⟩
        rcases List.mem_append.mp ho with ho | ho
        · exact ⟨o, ho, hlt⟩
        · rw [List.mem_singleton.mp ho] at hlt
          exact absurd (hwin w hmem) (not_le.mpr hlt)
  · intro before e after heq
    rcases split_concat heq with ⟨after', houts⟩ | ⟨rfl, rfl⟩
    · exact hs.popped before e after' houts
    · exact hs.inside v hvmem
  · intro y hy hnot before e after heq
    rintro ⟨hbelow, habove⟩
    rcases List.mem_append.mp hy with hy | hy
    · rcases split_concat heq with ⟨after', houts⟩ | ⟨rfl, rfl⟩
      · exact hs.gap y hy hnot before e after' houts ⟨hbelow, habove⟩
      · rcases List.mem_append.mp (hs.perm.mem_iff.mpr hy) with hy | hy
        · exact lt_irrefl _ (hbelow y hy)
        · exact absurd (hwin y hy) (not_le.mpr habove)
    · rw [List.mem_singleton.mp hy] at hnot habove
      exact hnot (hx.mpr ⟨e, by rw [heq]; simp, habove⟩)

end Step

/-- **Every run slides.** -/
theorem slides_run {late : α → Prop} {xs : List α} (hN : 0 < N)
    (hlate : ∀ pre x, pre ++ [x] <+: xs → (late x ↔ N ≤ pre.countP fun y => key y < key x)) :
    Slides key N late xs (Mealy.run (slide key N) #[] xs).1 (Mealy.run (slide key N) #[] xs).2 := by
  refine Mealy.run_invariant (slide key N) (I := Slides key N late) xs (slides_nil late) ?_
  intro pre x hpre hs
  rcases slide_cases hs.window hN x with ⟨hlt, hout, hperm, hw⟩ |
    ⟨hfull, v, rest, hout, hpop, hgreatest, hperm, hw⟩
  · rw [hout, List.append_nil]
    exact hs.grow hlt hperm hw (hlate pre x hpre)
  · rw [hout]
    exact hs.pop hfull hpop hgreatest hperm hw (hlate pre x hpre)

/-! ### The output -/

section Output

variable {late : α → Prop} {xs : List α} {h : Array α} {outs : List α}
  (hs : Slides key N late xs h outs)

include hs

/-- All but the last `N` arrivals are popped. -/
lemma Slides.length_outs : outs.length = xs.length - N := by
  have hlen := hs.perm.length_eq
  have hle := hs.window.size_le
  have hsize : h.toList.length = h.size := Array.length_toList
  rw [List.length_append, hsize] at hlen
  rcases eq_or_ne outs [] with rfl | hne
  · simp only [List.length_nil] at hlen ⊢
    omega
  · have := hs.full hne
    omega

/-- Without late arrivals the output is sorted by descending keys. -/
lemma Slides.pairwise (hno : ∀ x ∈ xs, ¬late x) : outs.Pairwise fun a b => key b ≤ key a := by
  have hmem : ∀ o ∈ outs, o ∈ xs := fun o ho => hs.perm.mem_iff.mp (List.mem_append_left _ ho)
  have hpopped := hs.popped
  clear hs
  induction outs using List.reverseRecOn with
  | nil => exact List.Pairwise.nil
  | append_singleton outs v ih =>
    refine List.pairwise_append.mpr ⟨ih (fun o ho => hmem o (List.mem_append_left _ ho)) ?_,
      List.pairwise_singleton _ _, fun a ha b hb => ?_⟩
    · intro before e after heq
      exact hpopped before e (after ++ [v]) (by rw [heq]; simp)
    · rw [List.mem_singleton.mp hb]
      by_contra hlt
      exact hno v (hmem v (by simp))
        ((hpopped outs v [] rfl).mpr ⟨a, ha, not_le.mp hlt⟩)

/-- Without late arrivals everything popped comes before everything in the window. -/
lemma Slides.le_of_mem (hno : ∀ x ∈ xs, ¬late x) {o w : α} (ho : o ∈ outs) (hw : w ∈ h.toList) :
    key w ≤ key o := by
  by_contra hlt
  have hmem : w ∈ xs := hs.perm.mem_iff.mp (List.mem_append_right _ hw)
  exact hno w hmem ((hs.inside w hw).mpr ⟨o, ho, not_le.mp hlt⟩)

end Output

/-! ### Labels -/

/-- Sliding commutes with a map that preserves keys. -/
lemma slide_map {γ : Type*} {key' : γ → β} {g : α → γ} (hg : ∀ x, key' (g x) = key x)
    (h : Array α) (x : α) :
    slide key' N (h.map g) (g x) = ((slide key N h x).1.map g, (slide key N h x).2.map g) := by
  have hpop : ((popHeap key h).pop).map g = (popHeap key' (h.map g)).pop := by
    rw [← map_popHeap hg, Array.map_pop]
  have hback : (popHeap key' (h.map g)).back?.toList = (popHeap key h).back?.toList.map g := by
    rw [← map_popHeap hg]
    cases hb : (popHeap key h).back? <;> simp [hb]
  unfold slide
  rw [Array.size_map]
  split
  · rw [map_pushHeap hg, Array.map_push, hpop, hback]
  · rw [map_pushHeap hg, Array.map_push, List.map_nil]

/-- Runs commute with a map that preserves keys. -/
theorem run_map {γ : Type*} {key' : γ → β} {g : α → γ} (hg : ∀ x, key' (g x) = key x)
    (xs : List α) :
    (Mealy.run (slide key' N) #[] (xs.map g)).2 = (Mealy.run (slide key N) #[] xs).2.map g := by
  have h : Mealy.run (slide key' N) ((#[] : Array α).map g) (xs.map g) =
      ((Mealy.run (slide key N) #[] xs).1.map g, (Mealy.run (slide key N) #[] xs).2.map g) :=
    Mealy.run_congr_map (slide key' N) (fun h x => slide_map hg h x) #[] xs
  rw [Array.map_empty] at h
  rw [h]

/-! ### Arrivals with their indices -/

variable (key N) in
/-- An indexed arrival is late when at least `N` arrivals with a smaller key came before it. -/
def Late (xs : List α) (e : α × ℕ) : Prop := N ≤ (xs.take e.2).countP fun y => key y < key e.1

/-- Lateness as the run sees it. -/
lemma late_iff_of_prefix {xs : List α} {pre : List (α × ℕ)} {e : α × ℕ}
    (hpre : pre ++ [e] <+: xs.zipIdx) :
    Late key N xs e ↔ N ≤ pre.countP fun y => key y.1 < key e.1 := by
  obtain ⟨tail, htail⟩ := hpre
  rw [List.append_assoc, List.singleton_append] at htail
  have hget : xs.zipIdx[pre.length]? = some e := by
    rw [← htail, List.getElem?_append_right le_rfl, Nat.sub_self]
    rfl
  have hidx : e.2 = pre.length := by
    rw [List.getElem?_zipIdx, Option.map_eq_some_iff] at hget
    obtain ⟨a, _, rfl⟩ := hget
    exact Nat.zero_add _
  have htake : xs.take e.2 = pre.map Prod.fst := by
    rw [hidx, ← List.zipIdx_map_fst 0 xs, ← htail, ← List.map_take, List.take_left]
  rw [Late, htake, List.countP_map]
  rfl

variable (key) in
/-- **Every run slides over its indexed arrivals.** -/
theorem slides_zipIdx (hN : 0 < N) (xs : List α) :
    Slides (fun e : α × ℕ => key e.1) N (Late key N xs) xs.zipIdx
      (Mealy.run (slide (fun e : α × ℕ => key e.1) N) #[] xs.zipIdx).1
      (Mealy.run (slide (fun e : α × ℕ => key e.1) N) #[] xs.zipIdx).2 :=
  slides_run hN fun _ _ hpre => late_iff_of_prefix hpre

/-- Forgetting the indices. -/
lemma map_fst_run_zipIdx (xs : List α) :
    (Mealy.run (slide key N) #[] xs).2 =
      (Mealy.run (slide (fun e : α × ℕ => key e.1) N) #[] xs.zipIdx).2.map Prod.fst := by
  rw [← run_map (fun _ => rfl), List.zipIdx_map_fst]

/-- A run pops nothing but arrivals. -/
lemma mem_of_mem_run (hN : 0 < N) {xs : List α} {x : α}
    (hx : x ∈ (Mealy.run (slide key N) #[] xs).2) : x ∈ xs := by
  rw [map_fst_run_zipIdx] at hx
  obtain ⟨e, he, rfl⟩ := List.mem_map.mp hx
  exact List.fst_mem_of_mem_zipIdx
    ((slides_zipIdx key hN xs).perm.mem_iff.mp (List.mem_append_left _ he))

/-- A run pops all but the last `N` arrivals. -/
lemma length_run (hN : 0 < N) (xs : List α) :
    (Mealy.run (slide key N) #[] xs).2.length = xs.length - N := by
  rw [map_fst_run_zipIdx, List.length_map, (slides_zipIdx key hN xs).length_outs,
    List.length_zipIdx]

/-! ### Sorting -/

/-- **Without late arrivals the window sorts.** What is popped are the arrivals in order, the last
`N` of them excepted. -/
theorem run_eq_take_mergeSort [LinearOrder α] (hkey : ∀ x y, key y ≤ key x → x ≤ y) (hN : 0 < N)
    {xs : List α} (hnone : ∀ e ∈ xs.zipIdx, ¬Late key N xs e) :
    (Mealy.run (slide key N) #[] xs).2 =
      (xs.mergeSort fun x y => x ≤ y).take (xs.length - N) := by
  have hs := slides_zipIdx key hN xs
  set outs := (Mealy.run (slide (fun e : α × ℕ => key e.1) N) #[] xs.zipIdx).2 with houts
  set h := (Mealy.run (slide (fun e : α × ℕ => key e.1) N) #[] xs.zipIdx).1
  set rest := (h.toList.map Prod.fst).mergeSort fun x y => x ≤ y with hrest
  have hperm : (outs.map Prod.fst ++ rest).Perm (xs.mergeSort fun x y => x ≤ y) := by
    have h₁ := hs.perm.map Prod.fst
    rw [List.map_append, List.zipIdx_map_fst] at h₁
    exact (((List.mergeSort_perm _ _).append_left _).trans h₁).trans
      (List.mergeSort_perm _ _).symm
  have hsorted : (outs.map Prod.fst ++ rest).Pairwise (· ≤ ·) := by
    refine List.pairwise_append.mpr ⟨?_, List.pairwise_mergeSort' _ _, ?_⟩
    · exact List.pairwise_map.mpr ((hs.pairwise hnone).imp fun hle => hkey _ _ hle)
    · intro a ha b hb
      obtain ⟨o, ho, rfl⟩ := List.mem_map.mp ha
      obtain ⟨w, hw, rfl⟩ := List.mem_map.mp ((List.mergeSort_perm _ _).mem_iff.mp hb)
      exact hkey _ _ (hs.le_of_mem hnone ho hw)
  rw [map_fst_run_zipIdx, ← houts,
    ← hperm.eq_of_pairwise' hsorted (List.pairwise_mergeSort' _ _), List.take_left']
  rw [List.length_map, hs.length_outs, List.length_zipIdx]

end PriorityWindow
