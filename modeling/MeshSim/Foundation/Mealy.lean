import Mathlib

/-!
# Runs of event-driven programs

An event-driven program is a step function: from its state and one input it computes its next state
and the list of outputs it produces on the way.  `Mealy.run` iterates the step along a list of
inputs and concatenates the outputs.

Invariants of runs are proved with `run_invariant`, where the invariant may speak of the inputs
consumed, the state reached and the outputs produced so far, and with `run_congr_map`, which carries
a run along maps of states, inputs and outputs that commute with the step.

Where the environment offers an input in some states only, the runs are those along `Feasible` lists
of inputs, and their invariants are proved with `Feasible.run_invariant`.

That something happens within a number of steps is proved with `exists_hit`, from a measure that the
steps counted decrease until it happens.
-/

namespace Mealy

variable {σ ι ω : Type*}

/-- The state reached from `s` along a list of inputs, and the outputs produced on the way. -/
def run (step : σ → ι → σ × List ω) (s : σ) : List ι → σ × List ω
  | [] => (s, [])
  | i :: is => ((run step (step s i).1 is).1, (step s i).2 ++ (run step (step s i).1 is).2)

variable (step : σ → ι → σ × List ω)

/-- Without input a run stays where it is and is silent. -/
@[simp] theorem run_nil (s : σ) : run step s [] = (s, []) := rfl

/-- A run consumes its inputs from the left. -/
theorem run_cons (s : σ) (i : ι) (is : List ι) :
    run step s (i :: is) =
      ((run step (step s i).1 is).1, (step s i).2 ++ (run step (step s i).1 is).2) := rfl

/-- A run along a concatenation is the run along the first part continued along the second. -/
theorem run_append (s : σ) (is js : List ι) :
    run step s (is ++ js) =
      ((run step (run step s is).1 js).1,
        (run step s is).2 ++ (run step (run step s is).1 js).2) := by
  induction is generalizing s with
  | nil => simp
  | cons i is ih => simp [run_cons, ih]

/-- One more input adds one more step at the end of a run. -/
theorem run_concat (s : σ) (is : List ι) (i : ι) :
    run step s (is ++ [i]) =
      ((step (run step s is).1 i).1, (run step s is).2 ++ (step (run step s is).1 i).2) := by
  rw [run_append]
  simp [run_cons]

/-- The outputs of a run only grow as it continues. -/
theorem run_output_prefix (s : σ) {is all : List ι} (h : is <+: all) :
    (run step s is).2 <+: (run step s all).2 := by
  obtain ⟨js, rfl⟩ := h
  rw [run_append]
  exact List.prefix_append _ _

/-- **The invariant rule.** A relation between the inputs consumed, the state and the outputs that
holds at the start and that every step along `all` preserves holds at the end of the run. -/
theorem run_invariant {I : List ι → σ → List ω → Prop} {s : σ} (all : List ι) (init : I [] s [])
    (next : ∀ is i, is ++ [i] <+: all → I is (run step s is).1 (run step s is).2 →
      I (is ++ [i]) (step (run step s is).1 i).1
        ((run step s is).2 ++ (step (run step s is).1 i).2)) :
    I all (run step s all).1 (run step s all).2 := by
  suffices h : ∀ is, is <+: all → I is (run step s is).1 (run step s is).2 from
    h all List.prefix_rfl
  intro is
  induction is using List.reverseRecOn with
  | nil => exact fun _ => init
  | append_singleton is i ih =>
    intro hpre
    rw [run_concat]
    exact next is i hpre (ih ((List.prefix_append is [i]).trans hpre))

/-- Along a list of inputs, each is enabled in the state that the ones before it lead to. -/
def Feasible (enabled : σ → ι → Prop) (s : σ) (is : List ι) : Prop :=
  ∀ pre i, pre ++ [i] <+: is → enabled (run step s pre).1 i

variable {step} in
/-- A feasible list remains feasible when its end is cut off. -/
lemma Feasible.of_isPrefix {enabled : σ → ι → Prop} {s : σ} {is all : List ι}
    (h : Feasible step enabled s all) (hpre : is <+: all) : Feasible step enabled s is :=
  fun pre i hi => h pre i (hi.trans hpre)

/-- The empty list of inputs is feasible. -/
lemma feasible_nil (enabled : σ → ι → Prop) (s : σ) : Feasible step enabled s [] := by
  intro pre i h
  have := h.length_le
  simp at this

/-- An input extends a feasible list when the state at its end enables it. -/
lemma feasible_concat_iff {enabled : σ → ι → Prop} {s : σ} {is : List ι} {i : ι} :
    Feasible step enabled s (is ++ [i]) ↔
      Feasible step enabled s is ∧ enabled (run step s is).1 i := by
  constructor
  · intro h
    exact ⟨h.of_isPrefix (List.prefix_append _ _), h is i List.prefix_rfl⟩
  · rintro ⟨h, hi⟩ pre j hpre
    rcases List.prefix_concat_iff.mp hpre with heq | hpre
    · obtain ⟨rfl, hj⟩ := List.append_inj' heq rfl
      cases hj
      exact hi
    · exact h pre j hpre

/-- A feasible list consists of an enabled input and a list that is feasible behind it. -/
lemma feasible_cons_iff {enabled : σ → ι → Prop} {s : σ} {i : ι} {is : List ι} :
    Feasible step enabled s (i :: is) ↔
      enabled s i ∧ Feasible step enabled (step s i).1 is := by
  constructor
  · intro h
    refine ⟨h [] i (by simp), fun pre j hpre => ?_⟩
    exact h (i :: pre) j (by simpa using hpre)
  · rintro ⟨hi, h⟩ pre j hpre
    cases pre with
    | nil =>
      obtain ⟨rfl, -⟩ := List.cons_prefix_cons.mp hpre
      exact hi
    | cons k pre =>
      rw [List.cons_append, List.cons_prefix_cons] at hpre
      obtain ⟨rfl, hpre⟩ := hpre
      exact h pre j hpre

instance decidableFeasible (enabled : σ → ι → Prop) [∀ s i, Decidable (enabled s i)] (s : σ) :
    (is : List ι) → Decidable (Feasible step enabled s is)
  | [] => .isTrue (feasible_nil step enabled s)
  | i :: is =>
    haveI := decidableFeasible enabled (step s i).1 is
    decidable_of_iff _ (feasible_cons_iff step).symm

variable {step} in
/-- **The invariant rule along feasible inputs**: the step may use that its input is enabled. -/
theorem Feasible.run_invariant {enabled : σ → ι → Prop} {I : List ι → σ → List ω → Prop} {s : σ}
    {all : List ι} (h : Feasible step enabled s all) (init : I [] s [])
    (next : ∀ is i, is ++ [i] <+: all → enabled (run step s is).1 i →
      I is (run step s is).1 (run step s is).2 →
      I (is ++ [i]) (step (run step s is).1 i).1
        ((run step s is).2 ++ (step (run step s is).1 i).2)) :
    I all (run step s all).1 (run step s all).2 :=
  Mealy.run_invariant step all init fun is i hpre hI => next is i hpre (h is i hpre) hI

/-- The inputs of a run, each with the state that consumes it. -/
def trace (s : σ) : List ι → List (σ × ι)
  | [] => []
  | i :: is => (s, i) :: trace (step s i).1 is

/-- One more input is consumed in the state that the ones before it lead to. -/
lemma trace_concat (s : σ) (is : List ι) (i : ι) :
    trace step s (is ++ [i]) = trace step s is ++ [((run step s is).1, i)] := by
  induction is generalizing s with
  | nil => rfl
  | cons j is ih => rw [List.cons_append, trace, trace, ih, run_cons, List.cons_append]

variable {step} in
/-- **The measure rule.** When the steps counted decrease a measure until one of them hits, and the
other steps do not increase it, then one of them hits if there are more of them than the measure at
the start. -/
theorem exists_hit {counts : σ × ι → Bool} {hits : σ × ι → Prop} {m : σ → ℕ} {s : σ}
    {is : List ι}
    (hother : ∀ p ∈ trace step s is, counts p = false → m (step p.1 p.2).1 ≤ m p.1)
    (hcounts : ∀ p ∈ trace step s is, counts p = true →
      hits p ∨ m (step p.1 p.2).1 < m p.1)
    (hlen : m s < ((trace step s is).filter counts).length) :
    ∃ p ∈ (trace step s is).filter counts, hits p := by
  induction is generalizing s with
  | nil => exact absurd hlen (Nat.not_lt_zero _)
  | cons i is ih =>
    have htrace : trace step s (i :: is) = (s, i) :: trace step (step s i).1 is := rfl
    rw [htrace] at hother hcounts hlen ⊢
    rw [List.forall_mem_cons] at hother hcounts
    cases hc : counts (s, i) with
    | false =>
      rw [List.filter_cons_of_neg (by simp [hc])] at hlen ⊢
      exact ih hother.2 hcounts.2 ((hother.1 hc).trans_lt hlen)
    | true =>
      rw [List.filter_cons_of_pos hc] at hlen ⊢
      rcases hcounts.1 hc with hhit | hlt
      · exact ⟨(s, i), List.mem_cons_self, hhit⟩
      · rw [List.length_cons] at hlen
        have hrest : m (step s i).1 < ((trace step (step s i).1 is).filter counts).length :=
          (show m (step s i).1 < m s from hlt).trans_le (Nat.lt_succ_iff.mp hlen)
        obtain ⟨p, hp, hhit⟩ := ih hother.2 hcounts.2 hrest
        exact ⟨p, List.mem_cons_of_mem _ hp, hhit⟩

/-- **The simulation rule.** When the states, inputs and outputs of one program map to those of
another and every step commutes with the maps, so does every run. -/
theorem run_congr_map {σ' ι' ω' : Type*} {step' : σ' → ι' → σ' × List ω'} {f : σ' → σ}
    {g : ι' → ι} {h : ω' → ω}
    (hstep : ∀ s i, step (f s) (g i) = (f (step' s i).1, (step' s i).2.map h))
    (s : σ') (is : List ι') :
    run step (f s) (is.map g) = (f (run step' s is).1, (run step' s is).2.map h) := by
  induction is generalizing s with
  | nil => rfl
  | cons i is ih => simp [run_cons, hstep, ih]

end Mealy
