import Mathlib

/-!
# Runs of programs that may fail

The step function of an event-driven program may have no result: the program fails, or the input is
not one that it can receive in its state.  `PartialMealy.run` iterates such a step along a list of
inputs, and has a result when all steps have one.  Invariants of runs are proved with
`run_invariant`.

A program may hand on the items that it takes, and hold them in between.  It does so without loss
and in order when every step does (`run_conserves`), and in order when every step may lose some, but
keeps the order of the others (`run_sublist`).  That it can be brought to an end is proved with
`exists_run_of_measure`, from a measure that a step can decrease until then.
-/

namespace PartialMealy

variable {σ ι ω : Type*}

/-- The state reached from `s` along a list of inputs, and the outputs produced on the way. -/
def run (step : σ → ι → Option (σ × List ω)) (s : σ) : List ι → Option (σ × List ω)
  | [] => some (s, [])
  | i :: is =>
    (step s i).bind fun r => (run step r.1 is).map fun r' => (r'.1, r.2 ++ r'.2)

variable {step : σ → ι → Option (σ × List ω)}

/-- The first step of a run, and the rest of it. -/
lemma run_cons_eq_some_iff {s s' : σ} {i : ι} {is : List ι} {out : List ω} :
    run step s (i :: is) = some (s', out) ↔
      ∃ s₁ out₁ out₂, step s i = some (s₁, out₁) ∧ run step s₁ is = some (s', out₂) ∧
        out = out₁ ++ out₂ := by
  rw [run, Option.bind_eq_some_iff]
  constructor
  · rintro ⟨⟨s₁, out₁⟩, hstep, hrest⟩
    obtain ⟨⟨s₂, out₂⟩, hrun, heq⟩ := Option.map_eq_some_iff.mp hrest
    obtain ⟨rfl, rfl⟩ := Prod.mk.inj heq
    exact ⟨s₁, out₁, out₂, hstep, hrun, rfl⟩
  · rintro ⟨s₁, out₁, out₂, hstep, hrun, rfl⟩
    exact ⟨(s₁, out₁), hstep, Option.map_eq_some_iff.mpr ⟨(s', out₂), hrun, rfl⟩⟩

/-- A run, and the last step of it. -/
lemma run_concat_eq_some_iff {s s' : σ} {is : List ι} {i : ι} {out : List ω} :
    run step s (is ++ [i]) = some (s', out) ↔
      ∃ s₁ out₁ out₂, run step s is = some (s₁, out₁) ∧ step s₁ i = some (s', out₂) ∧
        out = out₁ ++ out₂ := by
  induction is generalizing s out with
  | nil =>
    rw [List.nil_append, run_cons_eq_some_iff]
    constructor
    · rintro ⟨s₁, out₁, out₂, hstep, hrun, rfl⟩
      obtain ⟨rfl, rfl⟩ := Prod.mk.inj (Option.some.inj hrun)
      exact ⟨s, [], out₁, rfl, hstep, by rw [List.append_nil, List.nil_append]⟩
    · rintro ⟨s₁, out₁, out₂, hrun, hstep, rfl⟩
      obtain ⟨rfl, rfl⟩ := Prod.mk.inj (Option.some.inj hrun)
      exact ⟨s', out₂, [], hstep, rfl, by rw [List.append_nil, List.nil_append]⟩
  | cons j is ih =>
    rw [List.cons_append, run_cons_eq_some_iff]
    constructor
    · rintro ⟨s₁, out₁, out₂, hstep, hrun, rfl⟩
      obtain ⟨s₂, out₃, out₄, hrun', hlast, rfl⟩ := ih.mp hrun
      exact ⟨s₂, out₁ ++ out₃, out₄, run_cons_eq_some_iff.mpr ⟨s₁, out₁, out₃, hstep, hrun', rfl⟩,
        hlast, (List.append_assoc _ _ _).symm⟩
    · rintro ⟨s₂, out₃, out₄, hrun, hlast, rfl⟩
      obtain ⟨s₁, out₁, out₂, hstep, hrun', rfl⟩ := run_cons_eq_some_iff.mp hrun
      exact ⟨s₁, out₁, out₂ ++ out₄, hstep, ih.mpr ⟨s₂, out₂, out₄, hrun', hlast, rfl⟩,
        List.append_assoc _ _ _⟩

/-- A run along a concatenation is a run along the first part, continued along the second. -/
lemma run_append {s s₁ s₂ : σ} {is js : List ι} {out₁ out₂ : List ω}
    (h : run step s is = some (s₁, out₁)) (h' : run step s₁ js = some (s₂, out₂)) :
    run step s (is ++ js) = some (s₂, out₁ ++ out₂) := by
  induction is generalizing s out₁ with
  | nil =>
    obtain ⟨rfl, rfl⟩ := Prod.mk.inj (Option.some.inj h)
    exact h'
  | cons i is ih =>
    obtain ⟨s₀, out, out', hstep, hrun, rfl⟩ := run_cons_eq_some_iff.mp h
    exact run_cons_eq_some_iff.mpr ⟨s₀, out, out' ++ out₂, hstep, ih hrun, List.append_assoc _ _ _⟩

/-- **The invariant rule.** A relation between the inputs consumed, the state and the outputs that
holds at the start and that every step preserves holds at the end of every run. -/
theorem run_invariant {I : List ι → σ → List ω → Prop} {s s' : σ} {all : List ι} {out : List ω}
    (h : run step s all = some (s', out)) (init : I [] s [])
    (next : ∀ is i s₁ out₁ s₂ out₂, run step s is = some (s₁, out₁) →
      step s₁ i = some (s₂, out₂) → I is s₁ out₁ → I (is ++ [i]) s₂ (out₁ ++ out₂)) :
    I all s' out := by
  induction all using List.reverseRecOn generalizing s' out with
  | nil =>
    obtain ⟨rfl, rfl⟩ := Prod.mk.inj (Option.some.inj h)
    exact init
  | append_singleton is i ih =>
    obtain ⟨s₁, out₁, out₂, hrun, hstep, rfl⟩ := run_concat_eq_some_iff.mp h
    exact next is i s₁ out₁ s' out₂ hrun hstep (ih hrun)

/-! ### Items that are handed on -/

section Items

variable (I : σ → Prop) (held : σ → List ω) (takes : ι → List ω) {s s' : σ} {is : List ι}
  {out : List ω}

/-- **No item is lost in a run**, nor overtaken, when none is in the steps that are allowed. -/
theorem run_conserves (allowed : ι → Prop)
    (hstep : ∀ s i s' out, I s → allowed i → step s i = some (s', out) →
      I s' ∧ out ++ held s' = held s ++ takes i)
    (h : run step s is = some (s', out)) (hs : I s) (his : ∀ i ∈ is, allowed i) :
    out ++ held s' = held s ++ is.flatMap takes := by
  induction is generalizing s out with
  | nil =>
    obtain ⟨rfl, rfl⟩ := Prod.mk.inj (Option.some.inj h)
    exact (List.append_nil _).symm
  | cons i is ih =>
    obtain ⟨hi, his⟩ := List.forall_mem_cons.mp his
    obtain ⟨s₁, out₁, out₂, hfirst, hrest, rfl⟩ := run_cons_eq_some_iff.mp h
    obtain ⟨hs₁, hitems⟩ := hstep s i s₁ out₁ hs hi hfirst
    rw [List.append_assoc, ih hrest hs₁ his, ← List.append_assoc, hitems, List.flatMap_cons,
      List.append_assoc]

/-- **No item is overtaken in a run**, when none is in a step. -/
theorem run_sublist
    (hstep : ∀ s i s' out, I s → step s i = some (s', out) →
      I s' ∧ (out ++ held s').Sublist (held s ++ takes i))
    (h : run step s is = some (s', out)) (hs : I s) :
    (out ++ held s').Sublist (held s ++ is.flatMap takes) := by
  induction is generalizing s out with
  | nil =>
    obtain ⟨rfl, rfl⟩ := Prod.mk.inj (Option.some.inj h)
    rw [List.nil_append, List.flatMap_nil, List.append_nil]
  | cons i is ih =>
    obtain ⟨s₁, out₁, out₂, hfirst, hrest, rfl⟩ := run_cons_eq_some_iff.mp h
    obtain ⟨hs₁, hitems⟩ := hstep s i s₁ out₁ hs hfirst
    have hlater := (ih hrest hs₁).append_left out₁
    rw [← List.append_assoc out₁ (held s₁)] at hlater
    rw [List.append_assoc, List.flatMap_cons, ← List.append_assoc (held s)]
    exact hlater.trans (hitems.append_right _)

end Items

/-- **The measure rule.** When a step is possible that decreases a measure, until the program is
done, then a run is possible after which it is, with at most as many steps as the measure says. -/
theorem exists_run_of_measure (I done : σ → Prop) (allowed : ι → Prop) (m : σ → ℕ)
    (hnext : ∀ s, I s → ¬ done s →
      ∃ i s' out, allowed i ∧ step s i = some (s', out) ∧ I s' ∧ m s' < m s)
    {s : σ} (hs : I s) :
    ∃ is s' out, (∀ i ∈ is, allowed i) ∧ is.length ≤ m s ∧ run step s is = some (s', out) ∧
      I s' ∧ done s' := by
  induction hm : m s using Nat.strong_induction_on generalizing s with
  | _ k ih =>
    by_cases hdone : done s
    · exact ⟨[], s, [], fun i hi => absurd hi List.not_mem_nil, Nat.zero_le _, rfl, hs, hdone⟩
    · obtain ⟨i, s₁, out₁, hi, hstep, hs₁, hlt⟩ := hnext s hs hdone
      obtain ⟨is, s', out₂, his, hlen, hrun, hs', hdone'⟩ := ih (m s₁) (hm ▸ hlt) hs₁ rfl
      refine ⟨i :: is, s', out₁ ++ out₂, List.forall_mem_cons.mpr ⟨hi, his⟩, ?_,
        run_cons_eq_some_iff.mpr ⟨s₁, out₁, out₂, hstep, hrun, rfl⟩, hs', hdone'⟩
      rw [List.length_cons]
      omega

end PartialMealy
