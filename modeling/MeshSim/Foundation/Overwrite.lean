import Mathlib

/-!
# Stores that assignments overwrite

A store maps keys to values, and an assignment overwrites the value of its key.  After a list of
assignments that do not name a key it holds what it held before (`assign_of_forall_ne`).

When the assignments come in groups, one for each member of a list, the value of a key is decided by
the last member that assigns to it (`assign_flatMap_of_last`).

What a key holds is the value of the last assignment to it, `lastValue` (`assign_eq_lastValue`).
Assignments that are made for keys without one only, `addMissing`, give way to those that are there
(`lastValue_addMissing`).
-/

namespace Overwrite

variable {κ ν : Type*} [DecidableEq κ]

/-- The store after a list of assignments, made from the left. -/
def assign (s : κ → Option ν) : List (κ × ν) → κ → Option ν
  | [] => s
  | w :: ws => assign (Function.update s w.1 (some w.2)) ws

/-- No assignment changes nothing. -/
@[simp] lemma assign_nil (s : κ → Option ν) : assign s [] = s := rfl

/-- The first assignment is made first. -/
lemma assign_cons (s : κ → Option ν) (w : κ × ν) (ws : List (κ × ν)) :
    assign s (w :: ws) = assign (Function.update s w.1 (some w.2)) ws := rfl

/-- Assignments are made one list after the other. -/
lemma assign_append (s : κ → Option ν) (ws ws' : List (κ × ν)) :
    assign s (ws ++ ws') = assign (assign s ws) ws' := by
  induction ws generalizing s with
  | nil => rfl
  | cons w ws ih => rw [List.cons_append, assign_cons, assign_cons, ih]

/-- What a key holds depends on nothing but what it held before. -/
lemma assign_congr {s s' : κ → Option ν} {k : κ} (h : s k = s' k) (ws : List (κ × ν)) :
    assign s ws k = assign s' ws k := by
  induction ws generalizing s s' with
  | nil => exact h
  | cons w ws ih =>
    rw [assign_cons, assign_cons]
    refine ih ?_
    by_cases hw : k = w.1
    · rw [hw, Function.update_self, Function.update_self]
    · rw [Function.update_of_ne hw, Function.update_of_ne hw, h]

/-- A key that no assignment names keeps its value. -/
lemma assign_of_forall_ne {s : κ → Option ν} {ws : List (κ × ν)} {k : κ}
    (h : ∀ w ∈ ws, w.1 ≠ k) : assign s ws k = s k := by
  induction ws generalizing s with
  | nil => rfl
  | cons w ws ih =>
    rw [List.forall_mem_cons] at h
    rw [assign_cons, ih h.2, Function.update_of_ne h.1.symm]

/-- **The last group decides.** When the groups behind a member do not assign to a key, the key
holds what the member's group leaves in it. -/
lemma assign_flatMap_of_last {ι : Type*} (f : ι → List (κ × ν)) (s : κ → Option ν)
    {before after : List ι} {x : ι} {k : κ} (hafter : ∀ y ∈ after, ∀ w ∈ f y, w.1 ≠ k) :
    assign s ((before ++ x :: after).flatMap f) k =
      assign (assign s (before.flatMap f)) (f x) k := by
  rw [List.flatMap_append, List.flatMap_cons, assign_append, assign_append,
    assign_of_forall_ne]
  intro w hw
  obtain ⟨y, hy, hwy⟩ := List.mem_flatMap.mp hw
  exact hafter y hy w hwy

/-! ### The last assignment -/

/-- The value of the last assignment to a key. -/
def lastValue (ws : List (κ × ν)) (k : κ) : Option ν :=
  (ws.filter fun w => w.1 = k).getLast?.map Prod.snd

/-- No assignment, no value. -/
@[simp] lemma lastValue_nil (k : κ) : lastValue ([] : List (κ × ν)) k = none := rfl

/-- Later assignments come first. -/
lemma lastValue_append (ws ws' : List (κ × ν)) (k : κ) :
    lastValue (ws ++ ws') k = (lastValue ws' k).or (lastValue ws k) := by
  rw [lastValue, lastValue, lastValue, List.filter_append, List.getLast?_append, Option.map_or]

/-- A single assignment. -/
lemma lastValue_singleton (w : κ × ν) (k : κ) :
    lastValue [w] k = if w.1 = k then some w.2 else none := by
  rw [lastValue, List.filter_singleton]
  by_cases h : w.1 = k
  · simp [h]
  · simp [h]

/-- The first assignment comes last. -/
lemma lastValue_cons (w : κ × ν) (ws : List (κ × ν)) (k : κ) :
    lastValue (w :: ws) k = (lastValue ws k).or (if w.1 = k then some w.2 else none) := by
  rw [← List.singleton_append, lastValue_append, lastValue_singleton]

/-- A key without a value is not assigned to. -/
lemma lastValue_eq_none_iff {ws : List (κ × ν)} {k : κ} :
    lastValue ws k = none ↔ ∀ w ∈ ws, w.1 ≠ k := by
  rw [lastValue, Option.map_eq_none_iff, List.getLast?_eq_none_iff, List.filter_eq_nil_iff]
  simp

/-- Mapping the values. -/
lemma lastValue_map {μ : Type*} (f : ν → μ) (ws : List (κ × ν)) (k : κ) :
    lastValue (ws.map fun w => (w.1, f w.2)) k = (lastValue ws k).map f := by
  induction ws with
  | nil => rfl
  | cons w ws ih =>
    rw [List.map_cons, lastValue_cons, ih, lastValue_cons, Option.map_or]
    split <;> rfl

/-- **The last assignment decides.** -/
theorem assign_eq_lastValue (s : κ → Option ν) (ws : List (κ × ν)) (k : κ) :
    assign s ws k = (lastValue ws k).or (s k) := by
  induction ws generalizing s with
  | nil => rfl
  | cons w ws ih =>
    rw [assign_cons, ih, lastValue_cons, Option.or_assoc]
    by_cases h : w.1 = k
    · subst h
      rw [if_pos rfl, Function.update_self, Option.some_or]
    · rw [if_neg h, Function.update_of_ne (Ne.symm h), Option.none_or]

/-! ### Adding what is missing -/

/-- Assignments that are made, one after the other, for keys without one. -/
def addMissing (ws : List (κ × ν)) : List (κ × ν) → List (κ × ν)
  | [] => ws
  | d :: ds => addMissing (if ws.any fun w => w.1 = d.1 then ws else ws ++ [d]) ds

/-- What is there goes first, and of what is added the first. -/
theorem lastValue_addMissing (ws ds : List (κ × ν)) (k : κ) :
    lastValue (addMissing ws ds) k =
      (lastValue ws k).or ((ds.find? fun d => d.1 = k).map Prod.snd) := by
  induction ds generalizing ws with
  | nil => rw [addMissing, List.find?_nil, Option.map_none, Option.or_none]
  | cons d ds ih =>
    rw [addMissing, ih]
    by_cases hk : d.1 = k
    · subst hk
      rw [List.find?_cons_of_pos (by simp), Option.map_some]
      by_cases hany : ws.any fun w => w.1 = d.1
      · obtain ⟨v, hv⟩ : ∃ v, lastValue ws d.1 = some v := by
          rw [← Option.ne_none_iff_exists', Ne, lastValue_eq_none_iff]
          simpa using hany
        rw [if_pos hany, hv, Option.some_or, Option.some_or]
      · have hnone : lastValue ws d.1 = none := by
          rw [Bool.not_eq_true, List.any_eq_false] at hany
          exact lastValue_eq_none_iff.mpr fun w hw => by simpa using hany w hw
        rw [if_neg (by simpa using hany), lastValue_append, lastValue_singleton, if_pos rfl, hnone,
          Option.none_or, Option.some_or, Option.some_or]
    · rw [List.find?_cons_of_neg (by simpa using hk)]
      split
      · rfl
      · rw [lastValue_append, lastValue_singleton, if_neg hk, Option.none_or]

/-- Of assignments to different keys, the first to a key is the only one. -/
lemma find?_eq_some_iff_mem {ds : List (κ × ν)} (hds : (ds.map Prod.fst).Nodup) {k : κ} {v : ν} :
    (ds.find? fun d => d.1 = k).map Prod.snd = some v ↔ (k, v) ∈ ds := by
  induction ds with
  | nil => simp
  | cons d ds ih =>
    rw [List.map_cons, List.nodup_cons] at hds
    by_cases hk : d.1 = k
    · subst hk
      rw [List.find?_cons_of_pos (by simp), Option.map_some, Option.some.injEq, List.mem_cons]
      constructor
      · rintro rfl
        exact Or.inl rfl
      · rintro (h | h)
        · rw [← h]
        · exact absurd (List.mem_map_of_mem h) hds.1
    · rw [List.find?_cons_of_neg (by simpa using hk), ih hds.2, List.mem_cons]
      constructor
      · exact Or.inr
      · rintro (rfl | h)
        · exact absurd rfl hk
        · exact h

end Overwrite
