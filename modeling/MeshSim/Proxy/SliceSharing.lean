import MeshSim.Proxy.Forwarding

/-!
# Proxies that share the time

Proxies whose active slices are disjoint never send in the same slice, and leave each other more
than the taper.  Every timer of a proxy is armed for an instant at which it may transmit, whether an
arrival or a send arms it, so every send happens at such an instant; what follows for two proxies is
a property of their schedules.

`chainProxy` is the assignment of slices in
`scripts/chainsim/sim_configs/rq_multiclient/conf.in/apps.txt.php`.
-/

namespace MeshSim

open TimedProxyParams

namespace TimedProxy

variable {P Q : TimedProxyParams}

/-- The timer is armed for instants at which the proxy may transmit, and it has been so. -/
structure OnSchedule (P : TimedProxyParams) (p : TimedProxy) (evs : List Event) : Prop where
  /-- The pending timers are on schedule. -/
  pending : ∀ ev ∈ p.sim.pending, P.MayTransmit ev.time
  /-- The packets were sent on schedule. -/
  sends : ∀ s ∈ sends evs, P.MayTransmit s.1

/-- **Transitions keep the schedule.** -/
theorem OnSchedule.transition (h : P.Searchable) (htaper : P.sliceTaperMS < P.sliceWidthMS)
    {p p' : TimedProxy} {i : Step} {evs evs' : List Event} (hon : OnSchedule P p evs)
    (henabled : Enabled (.ok p) i) (ht : Transition P p i p' evs') :
    OnSchedule P p' (evs ++ evs') where
  pending := by
    intro ev hev
    rcases ht.pending hev with hev | ⟨now, htime⟩
    · exact hon.pending ev hev
    · exact (isLeast_of_getNextTxTime_eq h htaper htime).1.2
  sends := by
    intro s hs
    rw [sends_append, List.mem_append] at hs
    rcases hs with hs | hs
    · exact hon.sends s hs
    · obtain ⟨ev, rfl, htime⟩ := ht.mem_sends hs
      rw [htime]
      exact hon.pending ev henabled.1

/-- **A proxy sends when it may**: within its active slices, more than the taper before their end.
-/
theorem mayTransmit_of_mem_sends (h : P.Searchable) (htaper : P.sliceTaperMS < P.sliceWidthMS)
    {steps : List Step} (hf : Feasible P steps) :
    ∀ s ∈ sends (run P steps).2, P.MayTransmit s.1 := by
  obtain ⟨p, hp⟩ := exists_run_eq_ok h hf
  have hinit : OnSchedule P init [] := ⟨fun _ hev => absurd hev List.not_mem_nil,
    fun _ hs => absurd hs List.not_mem_nil⟩
  exact (run_invariant (I := fun _ p evs => OnSchedule P p evs) hf hinit
    (fun _ _ _ _ _ _ _ _ henabled hon ht => hon.transition h htaper henabled ht)
    (Prod.ext hp rfl)).sends

/-- In a cycle without a common slice no slice is active for both proxies. -/
lemma not_isActive (hslices : P.nSlices = Q.nSlices) (hpos : 1 ≤ P.nSlices)
    (hdisj : ∀ i < P.nSlices, ¬ (P.activeMap.testBit i = true ∧ Q.activeMap.testBit i = true))
    (slot : ℕ) (hactive : P.IsActive slot) : ¬ Q.IsActive slot := by
  intro hactive'
  unfold IsActive at hactive hactive'
  rw [← hslices] at hactive'
  exact hdisj _ (Nat.mod_lt _ hpos) ⟨hactive, hactive'⟩

/-- **Proxies with disjoint slices never send in the same slice.**  Whatever arrives at them, each
sends within its active slices, more than the taper before their end; they never send in the same
slice, and a send of one comes more than the taper of the other after every send of that one before
it. -/
theorem disjoint_slices (hP : P.Searchable) (hQ : Q.Searchable)
    (hwidth : P.sliceWidthMS = Q.sliceWidthMS) (hslices : P.nSlices = Q.nSlices)
    (htaperP : P.sliceTaperMS < P.sliceWidthMS) (htaperQ : Q.sliceTaperMS < Q.sliceWidthMS)
    (hdisj : ∀ i < P.nSlices, ¬ (P.activeMap.testBit i = true ∧ Q.activeMap.testBit i = true))
    {steps steps' : List Step} (hf : Feasible P steps) (hf' : Feasible Q steps') :
    (∀ s ∈ sends (run P steps).2, P.MayTransmit s.1) ∧
      (∀ s ∈ sends (run Q steps').2, Q.MayTransmit s.1) ∧
      ∀ s ∈ sends (run P steps).2, ∀ s' ∈ sends (run Q steps').2,
        P.slotAt s.1 ≠ Q.slotAt s'.1 ∧
          (s.1 ≤ s'.1 → s.1 + P.sliceTaper < s'.1) ∧
          (s'.1 ≤ s.1 → s'.1 + Q.sliceTaper < s.1) := by
  have hon := mayTransmit_of_mem_sends hP htaperP hf
  have hon' := mayTransmit_of_mem_sends hQ htaperQ hf'
  have hwidth' : (schedule htaperP).width = (schedule htaperQ).width := by
    change P.sliceWidthMS * nsPerMS = Q.sliceWidthMS * nsPerMS
    rw [hwidth]
  have hnot : ∀ slot, (schedule htaperP).Active slot → ¬ (schedule htaperQ).Active slot :=
    not_isActive hslices hP.nSlices_pos hdisj
  refine ⟨hon, hon', fun s hs s' hs' => ⟨?_, ?_, ?_⟩⟩
  · have hne := SliceSchedule.slice_ne_of_open hwidth' hnot (hon s hs) (hon' s' hs')
    rwa [SliceSchedule.slice_congr hwidth' s'.1] at hne
  · exact SliceSchedule.add_taper_lt_of_open hwidth' hnot (hon s hs) (hon' s' hs')
  · exact SliceSchedule.add_taper_lt_of_open hwidth'.symm
      (fun slot hactive' hactive => hnot slot hactive hactive') (hon' s' hs') (hon s hs)

/-! ### The chain of proxies -/

/-- A chain has few slices. -/
lemma chain_nSlices_lt {sl : ℕ} (hsl : sl = 2 ∨ sl = 3) : sl < 2 ^ 32 := by omega

/-- The slices of a chain fit into a bitmap. -/
lemma chain_activeMap_lt {sl : ℕ} (hsl : sl = 2 ∨ sl = 3) (i : ℕ) :
    1 <<< ((i - 1) % sl) < 2 ^ 32 := by
  have hlt : (i - 1) % sl < 32 := (Nat.mod_lt _ (by omega)).trans (by omega)
  rw [Nat.one_shiftLeft]
  exact Nat.pow_lt_pow_right (by decide) hlt

/-- The `i`-th proxy of the chain simulation, with a data rate, where each slice belongs to every
second proxy, or to every third one. -/
def chainProxy (sl i cbRate : ℕ) (txDuration : ℕ → ℕ) (hsl : sl = 2 ∨ sl = 3) :
    TimedProxyParams where
  cbRate := cbRate
  sliceWidthMS := 20
  nSlices := sl
  activeMap := 1 <<< ((i - 1) % sl)
  txDuration := txDuration
  sliceWidthMS_lt := TimedProxyParams.defaults.sliceWidthMS_lt
  sliceTaperMS_lt := TimedProxyParams.defaults.sliceTaperMS_lt
  nSlices_lt := chain_nSlices_lt hsl
  activeMap_lt := chain_activeMap_lt hsl i

/-- Every proxy of the chain has a slice. -/
lemma searchable_chainProxy (sl i cbRate : ℕ) (txDuration : ℕ → ℕ) (hsl : sl = 2 ∨ sl = 3) :
    (chainProxy sl i cbRate txDuration hsl).Searchable where
  sliceWidthMS_pos := by
    change 1 ≤ 20
    decide
  nSlices_pos := by
    change 1 ≤ sl
    omega
  nSlices_le := by
    change sl ≤ 32
    omega
  exists_active := by
    refine ⟨(i - 1) % sl, Nat.mod_lt _ (by omega), ?_⟩
    change (1 <<< ((i - 1) % sl)).testBit ((i - 1) % sl) = true
    rw [Nat.one_shiftLeft, Nat.testBit_two_pow_self]

/-- Neighbours of the chain have no slice in common. -/
lemma chainProxy_disjoint {sl i : ℕ} (cbRate : ℕ) (txDuration : ℕ → ℕ) (hsl : sl = 2 ∨ sl = 3)
    (hi : 1 ≤ i) (slot : ℕ) :
    ¬ ((chainProxy sl i cbRate txDuration hsl).activeMap.testBit slot = true ∧
      (chainProxy sl (i + 1) cbRate txDuration hsl).activeMap.testBit slot = true) := by
  change ¬ ((1 <<< ((i - 1) % sl)).testBit slot = true ∧
    (1 <<< ((i + 1 - 1) % sl)).testBit slot = true)
  rw [Nat.one_shiftLeft, Nat.one_shiftLeft, Nat.testBit_two_pow, Nat.testBit_two_pow]
  rcases hsl with rfl | rfl <;> simp only [decide_eq_true_eq] <;> omega

/-- The first two proxies of the chain, where a packet arrives at both at once: the second one holds
it back until its own slice. -/
theorem disjoint_slices_chain :
    let P := chainProxy 2 1 5000000 (fun size => size * 1600) (Or.inl rfl)
    let Q := chainProxy 2 2 5000000 (fun size => size * 1600) (Or.inl rfl)
    let steps : List Step :=
      [.startApplication 0, .handleRead 5 0 [[1]], .sendNextPacket ⟨5, 0⟩]
    let steps' : List Step :=
      [.startApplication 0, .handleRead 5 0 [[1]], .sendNextPacket ⟨20000000, 0⟩]
    (∀ s ∈ sends (run P steps).2, P.MayTransmit s.1) ∧
      (∀ s ∈ sends (run Q steps').2, Q.MayTransmit s.1) ∧
      ∀ s ∈ sends (run P steps).2, ∀ s' ∈ sends (run Q steps').2,
        P.slotAt s.1 ≠ Q.slotAt s'.1 ∧
          (s.1 ≤ s'.1 → s.1 + P.sliceTaper < s'.1) ∧
          (s'.1 ≤ s.1 → s'.1 + Q.sliceTaper < s.1) :=
  disjoint_slices (searchable_chainProxy 2 1 _ _ _) (searchable_chainProxy 2 2 _ _ _) rfl rfl
    (by decide) (by decide) (fun slot _ => chainProxy_disjoint _ _ _ le_rfl slot)
    (by decide +kernel) (by decide +kernel)

end TimedProxy

end MeshSim
