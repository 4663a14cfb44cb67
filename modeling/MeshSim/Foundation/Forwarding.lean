import Mathlib

/-!
# Forwarding by longest prefix match

Address prefixes as masks on bit vectors, the choice of the routes that match an address best, and
the way of a packet through a network in which every node hands it to a neighbour or drops it.

`Routes own hop n route` says that a packet at the node `n` takes the way `route` whatever choice is
made at any node, and is accepted at its end.  `Routes.run_prefix`, `Routes.not_dropped` and
`Routes.not_forever` say what this means for single runs: each of them follows the route, none ends
with the packet being dropped, and none goes on for ever.
-/

namespace Forwarding

/-! ### Prefixes -/

section Prefix

variable {w : ℕ}

/-- The mask of the first `e` bits of an address of `w` bits. -/
def prefixMask (w e : ℕ) : BitVec w := ~~~(BitVec.ofNat w (2 ^ (w - e) - 1))

/-- The number of the bits that a mask selects. -/
def prefixLength (m : BitVec w) : ℕ := (List.range w).countP m.getLsbD

/-- The bits of a mask. -/
lemma getLsbD_prefixMask (e i : ℕ) :
    (prefixMask w e).getLsbD i = (decide (i < w) && decide (w - e ≤ i)) := by
  rw [prefixMask, BitVec.getLsbD_not, BitVec.getLsbD_ofNat, Nat.testBit_two_pow_sub_one]
  by_cases hi : i < w <;> simp [hi, ← decide_not]

/-- The number of bits of a mask of `e` bits. -/
theorem prefixLength_prefixMask {e : ℕ} (he : e ≤ w) : prefixLength (prefixMask w e) = e := by
  have hcount : ∀ n, (List.range n).countP (fun i => decide (w - e ≤ i)) = n - (w - e) := by
    intro n
    induction n with
    | zero => simp
    | succ n ih =>
      rw [List.range_succ, List.countP_append, ih, List.countP_singleton]
      split <;> simp_all <;> omega
  have hbits : (List.range w).countP (prefixMask w e).getLsbD =
      (List.range w).countP fun i => decide (w - e ≤ i) := by
    refine List.countP_congr fun i hi => ?_
    rw [getLsbD_prefixMask, decide_eq_true (List.mem_range.mp hi), Bool.true_and]
  rw [prefixLength, hbits, hcount]
  omega

/-- Two addresses have the same prefix when they agree in front of the last bits. -/
theorem and_prefixMask_eq_iff {a b : BitVec w} {e : ℕ} :
    a &&& prefixMask w e = b &&& prefixMask w e ↔
      a.toNat / 2 ^ (w - e) = b.toNat / 2 ^ (w - e) := by
  rw [← Nat.shiftRight_eq_div_pow, ← Nat.shiftRight_eq_div_pow]
  constructor
  · intro h
    refine Nat.eq_of_testBit_eq fun i => ?_
    have hbit := congrArg (fun v => v.getLsbD (w - e + i)) h
    simp only [BitVec.getLsbD_and, getLsbD_prefixMask] at hbit
    rw [Nat.testBit_shiftRight, Nat.testBit_shiftRight, BitVec.testBit_toNat, BitVec.testBit_toNat]
    by_cases hi : w - e + i < w
    · simpa [hi] using hbit
    · rw [BitVec.getLsbD_of_ge _ _ (not_lt.mp hi), BitVec.getLsbD_of_ge _ _ (not_lt.mp hi)]
  · intro h
    refine BitVec.eq_of_getLsbD_eq fun i hi => ?_
    rw [BitVec.getLsbD_and, BitVec.getLsbD_and, getLsbD_prefixMask]
    by_cases hle : w - e ≤ i
    · have hbit := congrArg (fun v => v.testBit (i - (w - e))) h
      simp only [Nat.testBit_shiftRight, Nat.add_sub_cancel' hle, BitVec.testBit_toNat] at hbit
      rw [hbit]
    · simp [hle]

end Prefix

/-! ### The best matches -/

section Best

variable {ρ : Type*} (covers : ρ → Bool) (len : ρ → ℕ)

/-- The routes that match and are not shorter than another one that matches. -/
def best (rs : List ρ) : List ρ :=
  rs.filter fun r => covers r && rs.all fun r' => !covers r' || decide (len r' ≤ len r)

variable {covers len}

/-- The best matches. -/
lemma mem_best {rs : List ρ} {r : ρ} : r ∈ best covers len rs ↔
    r ∈ rs ∧ covers r = true ∧ ∀ r' ∈ rs, covers r' = true → len r' ≤ len r := by
  simp only [best, List.mem_filter, Bool.and_eq_true, List.all_eq_true, Bool.or_eq_true,
    Bool.not_eq_true', decide_eq_true_eq, ← Bool.not_eq_true, imp_iff_not_or]

/-- If some route matches there is a best match. -/
theorem exists_mem_best {rs : List ρ} {r : ρ} (hr : r ∈ rs) (hcovers : covers r = true) :
    ∃ r', r' ∈ best covers len rs := by
  have hmem : r ∈ rs.filter covers := List.mem_filter.mpr ⟨hr, hcovers⟩
  have hne : rs.filter covers ≠ [] := List.ne_nil_of_mem hmem
  cases hmax : (rs.filter covers).argmax len with
  | none => exact absurd (List.argmax_eq_none.mp hmax) hne
  | some r' =>
    obtain ⟨hr', hcovers'⟩ := List.mem_filter.mp (List.argmax_mem hmax)
    refine ⟨r', mem_best.mpr ⟨hr', hcovers', fun r'' hr'' hcovers'' => ?_⟩⟩
    exact List.le_of_mem_argmax (List.mem_filter.mpr ⟨hr'', hcovers''⟩) hmax

end Best

/-! ### Ways through a network -/

section Network

variable {ν : Type*} (own : ν → Prop) (hop : ν → Option ν → Prop)

/-- All choices of a node are the same neighbour, and none is to drop the packet. -/
def Leads (n n' : ν) : Prop := ∀ next, hop n next ↔ next = some n'

/-- A packet at a node takes the way `route`, whatever is chosen on the way, and is accepted at the
end of it. -/
inductive Routes : ν → List ν → Prop where
  /-- The node accepts the packet. -/
  | accept {n : ν} (hown : own n) : Routes n [n]
  /-- The node forwards the packet, and all its choices are the same neighbour. -/
  | forward {n n' : ν} {route : List ν} (hown : ¬ own n) (hhop : Leads hop n n')
    (hroute : Routes n' route) : Routes n (n :: route)

/-- A packet at a node may have taken the way `run`, of which the last node is where it is. -/
inductive Run : ν → List ν → Prop where
  /-- It is where it started. -/
  | here (n : ν) : Run n [n]
  /-- It was forwarded. -/
  | forward {n n' : ν} {run : List ν} (hown : ¬ own n) (hhop : hop n (some n'))
    (hrun : Run n' run) : Run n (n :: run)

variable {own hop}

/-- The neighbour that a node forwards to. -/
lemma Leads.eq {n n' n'' : ν} (h : Leads hop n n') (hhop : hop n (some n'')) : n'' = n' :=
  Option.some.inj ((h _).mp hhop)

/-- The node at the end of a route accepts the packet. -/
lemma Routes.exists_getLast {n : ν} {route : List ν} (h : Routes own hop n route) :
    ∃ n', route.getLast? = some n' ∧ own n' := by
  induction h with
  | accept hown => exact ⟨_, rfl, hown⟩
  | @forward n n' route hown hhop hroute ih =>
    obtain ⟨n'', hlast, hown'⟩ := ih
    refine ⟨n'', ?_, hown'⟩
    obtain ⟨m, route', rfl⟩ := List.exists_cons_of_ne_nil
      (List.ne_nil_of_mem (List.mem_of_mem_getLast? hlast))
    rwa [List.getLast?_cons_cons]

/-- The route may be taken. -/
lemma Routes.run {n : ν} {route : List ν} (h : Routes own hop n route) : Run own hop n route := by
  induction h with
  | accept => exact .here _
  | forward hown hhop _ ih => exact .forward hown ((hhop _).mpr rfl) ih

/-- **Every run follows the route.** -/
theorem Routes.run_prefix {n : ν} {route run : List ν} (h : Routes own hop n route)
    (hrun : Run own hop n run) : run <+: route := by
  induction hrun generalizing route with
  | here n =>
    cases h with
    | accept => exact List.prefix_rfl
    | forward => exact List.prefix_append [n] _
  | @forward n n' run hown hhop hrun ih =>
    cases h with
    | accept hown' => exact absurd hown' hown
    | forward hown' hhop' hroute =>
      rw [hhop'.eq hhop] at ih
      exact List.prefix_cons_inj n |>.mpr (ih hroute)

/-- The way of a packet has a node. -/
lemma Run.exists_cons {n : ν} {run : List ν} (h : Run own hop n run) :
    ∃ rest, run = n :: rest := by
  cases h with
  | here => exact ⟨[], rfl⟩
  | forward => exact ⟨_, rfl⟩

/-- **No packet is dropped** on the way. -/
theorem Routes.not_dropped {n last : ν} {route run : List ν} (h : Routes own hop n route)
    (hrun : Run own hop n run) (hlast : run.getLast? = some last) : own last ∨ ¬ hop last none := by
  induction hrun generalizing route with
  | here n =>
    obtain rfl : n = last := Option.some.inj hlast
    cases h with
    | accept hown => exact Or.inl hown
    | forward _ hhop _ => exact Or.inr fun hdrop => nomatch (hhop none).mp hdrop
  | @forward n n' run hown hhop hrun ih =>
    cases h with
    | accept hown' => exact absurd hown' hown
    | forward hown' hhop' hroute =>
      obtain rfl := hhop'.eq hhop
      obtain ⟨rest, rfl⟩ := hrun.exists_cons
      exact ih hroute (by rwa [List.getLast?_cons_cons] at hlast)

/-- **No packet is forwarded for ever.** -/
theorem Routes.not_forever {n : ν} {route : List ν} (h : Routes own hop n route) (f : ℕ → ν)
    (h0 : f 0 = n) : ¬ ∀ i, ¬ own (f i) ∧ hop (f i) (some (f (i + 1))) := by
  induction h generalizing f with
  | accept hown => exact fun hf => (hf 0).1 (h0 ▸ hown)
  | forward hown hhop hroute ih =>
    intro hf
    have hnext : f 1 = _ := hhop.eq (h0 ▸ (hf 0).2)
    exact ih (fun i => f (i + 1)) hnext fun i => hf (i + 1)

/-- **Up a row of nodes**, each of which forwards to the next one. -/
theorem Routes.ascend (f : ℕ → ν) {m k : ℕ} {route : List ν}
    (hstep : ∀ i, m ≤ i → i < m + k → ¬ own (f i) ∧ Leads hop (f i) (f (i + 1)))
    (hroute : Routes own hop (f (m + k)) route) :
    Routes own hop (f m) ((List.range' m k).map f ++ route) := by
  induction k generalizing m with
  | zero => exact hroute
  | succ k ih =>
    obtain ⟨hown, hhop⟩ := hstep m le_rfl (by omega)
    rw [List.range'_succ, List.map_cons, List.cons_append]
    refine .forward hown hhop (ih (fun i hi hik => hstep i (by omega) (by omega)) ?_)
    rwa [Nat.add_right_comm]

/-- **Down a row of nodes**, each of which forwards to the one before. -/
theorem Routes.descend (f : ℕ → ν) {m k : ℕ} {route : List ν}
    (hstep : ∀ i, m < i → i ≤ m + k → ¬ own (f i) ∧ Leads hop (f i) (f (i - 1)))
    (hroute : Routes own hop (f m) route) :
    Routes own hop (f (m + k)) (((List.range' (m + 1) k).map f).reverse ++ route) := by
  induction k with
  | zero => exact hroute
  | succ k ih =>
    obtain ⟨hown, hhop⟩ := hstep (m + (k + 1)) (by omega) le_rfl
    have hlast : m + 1 + 1 * k = m + (k + 1) := by omega
    rw [List.range'_concat, hlast, List.map_append, List.reverse_append]
    exact .forward hown hhop (ih fun i hi hik => hstep i hi (by omega))

end Network

end Forwarding
