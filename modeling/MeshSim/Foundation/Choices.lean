import Mathlib

/-!
# Choosing one element from each of several lists

`choices ls` lists the ways to choose one element from each of the lists `ls`, with the choice from
the first list varying slowest.  `lexChoices_choices` describes it by positions: every combination
of list positions occurs exactly once, in lexicographic order.
-/

namespace Choices

variable {α β : Type*}

/-- The ways to choose one element from each list, the first varying slowest. -/
def choices : List (List α) → List (List α)
  | [] => [[]]
  | l :: ls => l.flatMap fun x => (choices ls).map (x :: ·)

@[simp] lemma choices_nil : choices ([] : List (List α)) = [[]] := rfl

@[simp] lemma choices_cons (l : List α) (ls : List (List α)) :
    choices (l :: ls) = l.flatMap fun x => (choices ls).map (x :: ·) := rfl

/-- There is one choice from a single list for each of its elements. -/
lemma choices_singleton (l : List α) : choices [l] = l.map fun x => [x] := by
  simp [List.map_eq_flatMap]

/-- Choosing from one more list at the end: it varies fastest. -/
lemma choices_concat (ls : List (List α)) (l : List α) :
    choices (ls ++ [l]) = (choices ls).flatMap fun t => l.map fun x => t ++ [x] := by
  induction ls with
  | nil => simp [List.map_eq_flatMap]
  | cons l' ls ih =>
    simp only [List.cons_append, choices_cons, ih, List.flatMap_assoc, List.map_flatMap,
      List.flatMap_map, List.map_map, Function.comp_def]

/-- Choosing from some lists and from others behind them. -/
lemma choices_append (ls ls' : List (List α)) :
    choices (ls ++ ls') = (choices ls).flatMap fun t => (choices ls').map (t ++ ·) := by
  induction ls with
  | nil => simp
  | cons l ls ih =>
    simp only [List.cons_append, choices_cons, ih, List.flatMap_assoc, List.map_flatMap,
      List.flatMap_map, List.map_map, Function.comp_def]

/-- Choosing from a union is choosing from one of its parts. -/
lemma choices_flatten_cons (parts : List (List α)) (ls : List (List α)) :
    choices (parts.flatten :: ls) = parts.flatMap fun l => choices (l :: ls) := by
  induction parts with
  | nil => rfl
  | cons l parts ih =>
    rw [List.flatten_cons, choices_cons, List.flatMap_append, ← choices_cons, ← choices_cons, ih,
      List.flatMap_cons]

/-- The number of choices is the product of the lengths. -/
theorem length_choices (ls : List (List α)) : (choices ls).length = (ls.map List.length).prod := by
  induction ls with
  | nil => rfl
  | cons l ls ih => simp [List.length_flatMap, ih]

/-- Choices from images are the images of choices. -/
lemma choices_map (f : α → β) (ls : List (List α)) :
    choices (ls.map (List.map f)) = (choices ls).map (List.map f) := by
  induction ls with
  | nil => rfl
  | cons l ls ih => simp [ih, List.flatMap_map, List.map_flatMap, Function.comp_def]

/-- A choice has an element of each list. -/
theorem mem_choices {ls : List (List α)} {t : List α} :
    t ∈ choices ls ↔ List.Forall₂ (fun x l => x ∈ l) t ls := by
  induction ls generalizing t with
  | nil => simp
  | cons l ls ih =>
    simp only [choices_cons, List.mem_flatMap, List.mem_map, ih]
    constructor
    · rintro ⟨x, hx, t, ht, rfl⟩
      exact .cons hx ht
    · rintro (_ | ⟨hx, ht⟩)
      exact ⟨_, hx, _, ht, rfl⟩

/-! ### Positions -/

/-- The positions of the elements to choose from. -/
def positions (ls : List (List α)) : List (List ℕ) :=
  choices (ls.map fun l => List.range l.length)

/-- The elements at some positions, one in each list. -/
def pick : List (List α) → List ℕ → List α
  | l :: ls, j :: js => (l[j]?).toList ++ pick ls js
  | _, _ => []

/-- The choices `out` from the lists `ls` are complete and in order: the positions of the elements
chosen are all combinations of list positions, each exactly once, and in lexicographic order. -/
def LexChoices (ls : List (List α)) (out : List (List α)) : Prop :=
  ∃ ps : List (List ℕ), ps.Pairwise (· < ·) ∧
    (∀ p, p ∈ ps ↔ List.Forall₂ (fun j (l : List α) => j < l.length) p ls) ∧ out = ps.map (pick ls)

/-- Choices in order stay in order when the first list is put in front. -/
lemma pairwise_choices {ls : List (List ℕ)} (h : ∀ l ∈ ls, l.Pairwise (· < ·)) :
    (choices ls).Pairwise (· < ·) := by
  induction ls with
  | nil => simp
  | cons l ls ih =>
    have ih := ih fun l' hl' => h l' (List.mem_cons_of_mem _ hl')
    have hl := h l List.mem_cons_self
    rw [choices_cons, List.pairwise_flatMap]
    constructor
    · intro x _
      rw [List.pairwise_map]
      exact ih.imp fun ht => List.cons_lt_cons_iff.mpr (Or.inr ⟨rfl, ht⟩)
    · refine hl.imp fun hxy t ht t' ht' => ?_
      obtain ⟨u, -, rfl⟩ := List.mem_map.mp ht
      obtain ⟨u', -, rfl⟩ := List.mem_map.mp ht'
      exact List.cons_lt_cons_iff.mpr (Or.inl hxy)

/-- Choosing elements is choosing their positions. -/
lemma map_pick_positions (ls : List (List α)) : (positions ls).map (pick ls) = choices ls := by
  induction ls with
  | nil => rfl
  | cons l ls ih =>
    have hrange : (List.range l.length).flatMap (fun j =>
        (positions ls).map fun js => (l[j]?).toList ++ pick ls js) =
          (List.finRange l.length).flatMap fun j => (choices ls).map (l.get j :: ·) := by
      rw [← List.map_coe_finRange_eq_range, List.flatMap_map, ← ih]
      refine List.flatMap_congr fun j _ => ?_
      simp
    have hl : (List.finRange l.length).flatMap (fun j => (choices ls).map (l.get j :: ·)) =
        l.flatMap fun x => (choices ls).map (x :: ·) := by
      conv_rhs => rw [← List.map_get_finRange l, List.flatMap_map]
    rw [choices_cons, ← hl, ← hrange, positions, List.map_cons, choices_cons, List.map_flatMap]
    simp only [List.map_map, Function.comp_def, positions, pick]

/-- **The choices are all combinations of positions, each once and in lexicographic order.** -/
theorem lexChoices_choices (ls : List (List α)) : LexChoices ls (choices ls) := by
  refine ⟨positions ls, pairwise_choices fun l hl => ?_, fun p => ?_, (map_pick_positions ls).symm⟩
  · obtain ⟨l', -, rfl⟩ := List.mem_map.mp hl
    exact List.pairwise_lt_range
  · rw [positions, mem_choices, List.forall₂_map_right_iff]
    simp only [List.mem_range]

end Choices
