import Mathlib

/-!
# Per-second throughput

`_get_rate_stddev` of `scripts/createresultsdb`: from samples of the cumulative number of bytes it
takes the number at each second boundary, counted backwards from the last sample, and from these the
number of bytes in each second.

A single loop goes through the samples from the last one to the first one, and moves the boundary
back while the sample is not behind it.  So each boundary gets the last sample in the list that is
not behind it, also when there are several samples at a time or none for several seconds
(`rateBins_spec`), and the boundaries end with the last one that is not in front of all samples
(`rate_bins_exact`).  The standard deviation is a parameter.
-/

namespace MeshSim

namespace RateBins

/-- A sample: the time in microseconds and the cumulative number of bytes. -/
abbrev Sample := ℤ × ℤ

/-- `while t <= tlim:`, on `tlim` and `byte_counts_cum`. -/
def whileBoundary (t b tlim : ℤ) (byteCountsCum : List ℤ) : ℤ × List ℤ :=
  if t ≤ tlim then whileBoundary t b (tlim - 1000000) (byteCountsCum ++ [b])
  else (tlim, byteCountsCum)
termination_by (tlim + 1 - t).toNat
decreasing_by omega

/-- The loop over the samples, on `tlim` and `byte_counts_cum`. -/
def collect (state : ℤ × List ℤ) (sample : Sample) : ℤ × List ℤ :=
  whileBoundary sample.1 sample.2 state.1 state.2

/-- `byte_counts_cum`, unless there is no sample. -/
def byteCountsCum (samples : List Sample) : Option (List ℤ) :=
  samples.getLast?.map fun last => (samples.reverse.foldl collect (last.1, [])).2

/-- `byte_counts`. -/
def byteCounts (byteCountsCum : List ℤ) : List ℤ :=
  (List.range (byteCountsCum.length - 1)).map fun i =>
    byteCountsCum.getD i 0 - byteCountsCum.getD (i + 1) 0

/-- `_get_rate_stddev`, where `std` is `np.std`; it returns `None` when there are too few seconds,
and raises an exception when there is no sample. -/
def getRateStddev {R : Type} [Mul R] [OfNat R 8] (std : List ℤ → R) (samples : List Sample) :
    Option (Option R) :=
  (byteCountsCum samples).map fun cum =>
    if cum.length < 3 then none else some (8 * std (byteCounts cum))

/-! ### The loops -/

/-- The boundaries that one sample gets. -/
lemma whileBoundary_eq (t b tlim : ℤ) (cum : List ℤ) :
    ∃ m : ℕ, whileBoundary t b tlim cum = (tlim - m * 1000000, cum ++ List.replicate m b) ∧
      tlim - m * 1000000 < t ∧ ∀ j < m, t ≤ tlim - j * 1000000 := by
  fun_induction whileBoundary t b tlim cum with
  | case1 tlim cum hle ih =>
    obtain ⟨m, heq, hlt, hall⟩ := ih
    refine ⟨m + 1, ?_, by push_cast; linarith, fun j hj => ?_⟩
    · rw [heq, List.append_assoc, List.singleton_append, ← List.replicate_succ]
      congr 1
      push_cast
      ring
    · cases j with
      | zero => simpa using hle
      | succ j =>
        have hj := hall j (by omega)
        push_cast
        linarith
  | case2 tlim cum hlt => exact ⟨0, by simp, by simpa using hlt, fun j hj => absurd hj (by omega)⟩

/-- What the loop has done after some samples, the last ones first: the boundary is in front of all
of them, and each earlier boundary has the first of them that is not behind it. -/
structure Collected (T : ℤ) (done : List Sample) (state : ℤ × List ℤ) : Prop where
  /-- The next boundary. -/
  tlim : state.1 = T - state.2.length * 1000000
  /-- The samples are behind the next boundary. -/
  behind : ∀ s ∈ done, state.1 < s.1
  /-- The numbers at the boundaries. -/
  cum : ∀ k < state.2.length,
    state.2[k]? = (done.find? fun s => s.1 ≤ T - k * 1000000).map Prod.snd

/-- At the start no boundary has been passed. -/
lemma collected_nil (T : ℤ) : Collected T [] (T, []) where
  tlim := by simp
  behind := fun s hs => absurd hs List.not_mem_nil
  cum := fun k hk => absurd hk (by simp)

/-- **One more sample.** -/
lemma Collected.concat {T : ℤ} {done : List Sample} {state : ℤ × List ℤ}
    (h : Collected T done state) (sample : Sample) :
    Collected T (done ++ [sample]) (collect state sample) := by
  obtain ⟨tlim, cum⟩ := state
  obtain ⟨m, heq, hlt, hall⟩ := whileBoundary_eq sample.1 sample.2 tlim cum
  have htlim : tlim = T - cum.length * 1000000 := h.tlim
  rw [collect, heq]
  refine ⟨?_, fun s hs => ?_, fun k hk => ?_⟩
  · rw [List.length_append, List.length_replicate, htlim]
    push_cast
    ring
  · rcases List.mem_append.mp hs with hs | hs
    · have hbehind : tlim < s.1 := h.behind s hs
      dsimp only
      omega
    · rw [List.mem_singleton.mp hs]
      exact hlt
  · rw [List.length_append, List.length_replicate] at hk
    rw [List.find?_append]
    by_cases hk' : k < cum.length
    · -- the boundary has its sample already
      have hcum : cum[k]? = (done.find? fun s => s.1 ≤ T - k * 1000000).map Prod.snd := h.cum k hk'
      rw [List.getElem?_append_left hk', hcum]
      cases hfind : done.find? fun s => s.1 ≤ T - k * 1000000 with
      | some s => rfl
      | none =>
        rw [hfind, List.getElem?_eq_getElem hk'] at hcum
        cases hcum
    · -- all samples so far are behind the boundary
      have hnone : (done.find? fun s => s.1 ≤ T - k * 1000000) = none := by
        rw [List.find?_eq_none]
        intro s hs
        have hbehind : tlim < s.1 := h.behind s hs
        rw [decide_eq_true_eq]
        omega
      have hsample : sample.1 ≤ T - k * 1000000 := by
        have hj := hall (k - cum.length) (by omega)
        omega
      rw [List.getElem?_append_right (not_lt.mp hk'), List.getElem?_replicate, if_pos (by omega),
        hnone, Option.none_or, List.find?_cons_of_pos (by simpa using hsample), Option.map_some]

/-- All samples, from the last one to the first one. -/
lemma collected_foldl (T : ℤ) (done : List Sample) :
    Collected T done (done.foldl collect (T, [])) := by
  induction done using List.reverseRecOn with
  | nil => exact collected_nil T
  | append_singleton done sample ih =>
    rw [List.foldl_concat]
    exact ih.concat sample

/-! ### The numbers at the boundaries -/

/-- The last sample in a list that is not behind a time. -/
def lastUntil (samples : List Sample) (t : ℤ) : Option Sample :=
  (samples.filter fun s => s.1 ≤ t).getLast?

/-- The numbers at the boundaries are those of the last samples that are not behind them. -/
theorem rateBins_spec {samples : List Sample} (hne : samples ≠ []) :
    ∃ cum, byteCountsCum samples = some cum ∧
      (∀ s ∈ samples, (samples.getLast hne).1 - cum.length * 1000000 < s.1) ∧
      ∀ k < cum.length, ∃ s, lastUntil samples ((samples.getLast hne).1 - k * 1000000) = some s ∧
        cum[k]? = some s.2 := by
  have h := collected_foldl (samples.getLast hne).1 samples.reverse
  refine ⟨(samples.reverse.foldl collect ((samples.getLast hne).1, [])).2, ?_, ?_, ?_⟩
  · rw [byteCountsCum, List.getLast?_eq_some_getLast hne, Option.map_some]
  · intro s hs
    have hbehind := h.behind s (List.mem_reverse.mpr hs)
    rwa [h.tlim] at hbehind
  · intro k hk
    have hcum := h.cum k hk
    rw [← List.getLast?_filter] at hcum
    rw [List.getElem?_eq_getElem hk, eq_comm, Option.map_eq_some_iff] at hcum
    obtain ⟨s, hs, hb⟩ := hcum
    exact ⟨s, hs, by rw [List.getElem?_eq_getElem hk, hb]⟩

/-- The last sample is not behind itself. -/
lemma lastUntil_getLast {samples : List Sample} (hne : samples ≠ []) :
    lastUntil samples (samples.getLast hne).1 = some (samples.getLast hne) := by
  rw [lastUntil, List.getLast?_filter]
  obtain ⟨s, rest, hrev⟩ := List.exists_cons_of_ne_nil (List.reverse_ne_nil_iff.mpr hne)
  have hlast : samples.getLast hne = s := by
    have hhead : samples.reverse.head? = some s := by rw [hrev, List.head?_cons]
    rw [List.head?_reverse, List.getLast?_eq_some_getLast hne] at hhead
    exact Option.some.inj hhead
  rw [hrev, hlast, List.find?_cons_of_pos (by simp)]

/-- The last sample until some time is one of the samples. -/
lemma mem_of_lastUntil {samples : List Sample} {t : ℤ} {s : Sample}
    (h : lastUntil samples t = some s) : s ∈ samples ∧ s.1 ≤ t := by
  obtain ⟨hmem, hle⟩ := List.mem_filter.mp (List.mem_of_getLast? h)
  exact ⟨hmem, of_decide_eq_true hle⟩

/-- Cumulative numbers grow with the time. -/
lemma lastUntil_mono {samples : List Sample} (hcounts : samples.Pairwise fun a b => a.2 ≤ b.2)
    {t t' : ℤ} (ht : t ≤ t') {s s' : Sample} (hs : lastUntil samples t = some s)
    (hs' : lastUntil samples t' = some s') : s.2 ≤ s'.2 := by
  obtain ⟨hmem, hle⟩ := mem_of_lastUntil hs
  have hmem' : s ∈ samples.filter fun s => s.1 ≤ t' :=
    List.mem_filter.mpr ⟨hmem, decide_eq_true (hle.trans ht)⟩
  obtain ⟨before, hsplit⟩ := List.getLast?_eq_some_iff.mp hs'
  have hpair := hcounts.filter fun s : Sample => decide (s.1 ≤ t')
  rw [hsplit] at hpair hmem'
  rcases List.mem_append.mp hmem' with hbefore | hlast
  · exact (List.pairwise_append.mp hpair).2.2 s hbefore s' List.mem_cons_self
  · rw [List.mem_singleton.mp hlast]

/-- The number of seconds is determined by the first and the last boundary. -/
lemma length_eq_div {d : ℤ} {n : ℕ} (hle : (n - 1 : ℤ) * 1000000 ≤ d) (hlt : d < n * 1000000) :
    (n : ℤ) = d / 1000000 + 1 := by
  omega

/-- The sum of the differences of a sequence is the difference of its ends. -/
lemma sum_map_range_sub (f : ℕ → ℤ) (n : ℕ) :
    ((List.range n).map fun i => f i - f (i + 1)).sum = f 0 - f n := by
  induction n with
  | zero => simp
  | succ n ih =>
    rw [List.range_succ, List.map_append, List.sum_append, ih]
    simp

/-- The numbers of bytes in the seconds add up. -/
lemma sum_byteCounts (cum : List ℤ) :
    (byteCounts cum).sum = cum.getD 0 0 - cum.getD (cum.length - 1) 0 :=
  sum_map_range_sub (fun i => cum.getD i 0) (cum.length - 1)

/-- **Per-second throughput.** For samples in the order of time: there are as many boundaries as
there are full seconds between the first and the last sample, and one more; each of them has the
number of the last sample that is not behind it.  When the numbers do not decrease, the bytes in the
seconds are not negative and add up to the bytes received from the earliest boundary on.  When there
are more than two seconds, the result is not `None`. -/
theorem rate_bins_exact {R : Type} [Mul R] [OfNat R 8] (std : List ℤ → R) {samples : List Sample}
    (hne : samples ≠ []) (hsorted : samples.Pairwise fun a b => a.1 ≤ b.1) :
    ∃ cum, byteCountsCum samples = some cum ∧
      (cum.length : ℤ) = ((samples.getLast hne).1 - (samples.head hne).1) / 1000000 + 1 ∧
      (∀ k < cum.length, ∃ s, lastUntil samples ((samples.getLast hne).1 - k * 1000000) = some s ∧
        cum[k]? = some s.2) ∧
      ((samples.Pairwise fun a b => a.2 ≤ b.2) → (∀ x ∈ byteCounts cum, 0 ≤ x) ∧
        ∃ s, lastUntil samples ((samples.getLast hne).1 - (cum.length - 1 : ℤ) * 1000000) = some s ∧
          (byteCounts cum).sum = (samples.getLast hne).2 - s.2) ∧
      ((samples.head hne).1 < (samples.getLast hne).1 - 2000000 →
        getRateStddev std samples = some (some (8 * std (byteCounts cum)))) := by
  obtain ⟨cum, hcum, hbehind, hbins⟩ := rateBins_spec hne
  have hfirst : ∀ s ∈ samples, (samples.head hne).1 ≤ s.1 := by
    intro s hs
    obtain ⟨first, rest, rfl⟩ := List.exists_cons_of_ne_nil hne
    rcases List.mem_cons.mp hs with rfl | hs
    · exact le_rfl
    · exact (List.pairwise_cons.mp hsorted).1 s hs
  -- the boundary at the last sample is not in front of the samples
  have hpos : cum.length ≠ 0 := by
    intro hzero
    have hlast := hbehind _ (List.getLast_mem hne)
    rw [hzero] at hlast
    simp at hlast
  have hlength : (cum.length : ℤ) =
      ((samples.getLast hne).1 - (samples.head hne).1) / 1000000 + 1 := by
    obtain ⟨s, hs, -⟩ := hbins (cum.length - 1) (by omega)
    obtain ⟨hmem, hle⟩ := mem_of_lastUntil hs
    have hhead := hfirst s hmem
    have hlt := hbehind _ (List.head_mem hne)
    refine length_eq_div ?_ (by linarith)
    have hcast : ((cum.length - 1 : ℕ) : ℤ) = cum.length - 1 := by omega
    rw [hcast] at hle
    linarith
  refine ⟨cum, hcum, hlength, hbins, fun hcounts => ⟨fun x hx => ?_, ?_⟩, fun htwo => ?_⟩
  · obtain ⟨i, hi, rfl⟩ := List.mem_map.mp hx
    have hi := List.mem_range.mp hi
    obtain ⟨s, hs, hks⟩ := hbins i (by omega)
    obtain ⟨s', hs', hks'⟩ := hbins (i + 1) (by omega)
    have hmono := lastUntil_mono hcounts (by push_cast; linarith) hs' hs
    rw [List.getD_eq_getElem?_getD, List.getD_eq_getElem?_getD, hks, hks']
    exact sub_nonneg.mpr hmono
  · obtain ⟨s, hs, hks⟩ := hbins (cum.length - 1) (by omega)
    obtain ⟨s₀, hs₀, hks₀⟩ := hbins 0 (by omega)
    rw [Nat.cast_zero, zero_mul, sub_zero, lastUntil_getLast] at hs₀
    obtain rfl := Option.some.inj hs₀
    have hcast : ((cum.length - 1 : ℕ) : ℤ) = cum.length - 1 := by omega
    rw [hcast] at hs
    refine ⟨s, hs, ?_⟩
    rw [sum_byteCounts, List.getD_eq_getElem?_getD, List.getD_eq_getElem?_getD, hks, hks₀]
    rfl
  · have hthree : ¬cum.length < 3 := by omega
    rw [getRateStddev, hcum, Option.map_some, if_neg hthree]

/-- Samples that leave out a second, with two at one time. -/
theorem rate_bins_exact_gap :
    let samples : List Sample := [(0, 100), (0, 300), (500000, 400), (3000000, 900)]
    ∃ cum, byteCountsCum samples = some cum ∧ (cum.length : ℤ) = 4 ∧
      (byteCounts cum).sum = 900 - 300 ∧
      getRateStddev List.sum samples = some (some (8 * (byteCounts cum).sum)) := by
  intro samples
  obtain ⟨cum, hcum, hlength, -, hcounts, hresult⟩ :=
    rate_bins_exact List.sum (show samples ≠ [] by decide) (by decide)
  have hfour : (cum.length : ℤ) = 4 := hlength.trans (by decide)
  obtain ⟨-, s, hs, hsum⟩ := hcounts (by decide)
  rw [hfour] at hs
  have hfirst : s = (0, 300) := Option.some.inj (hs.symm.trans (by decide))
  rw [hfirst] at hsum
  exact ⟨cum, hcum, hfour, hsum, hresult (by decide)⟩

end RateBins

end MeshSim
