import MeshSim.Proxy.Forwarding

/-!
# Pacing

Whether the proxy keeps its configured rate, so that no packet is sent before the transmission of
the one before it has ended.  The proxy schedules by `m_txEndTime`, which is behind: when the timer
is armed after a send, `m_txEndTime` still belongs to the send before it, and when the store runs
empty it is not updated at all.  The rate is kept exactly when this does no harm, that is, when
every time the timer is armed no transmission opportunity lies between `m_txEndTime` and the end of
the transmission (`KeepsPace`).  It does harm to the first two packets of a burst, which are sent at
the same time (`burst_at_once`).
-/

namespace MeshSim

namespace TimedProxyParams

/-- The end, in nanoseconds, of the transmission of a packet that is sent at a time. -/
def transmissionEnd (P : TimedProxyParams) (s : ℕ × Packet) : ℚ :=
  s.1 + 8 * s.2.length * 1000000000 / P.cbRate

/-- No packet is sent before the transmission of the one before it has ended. -/
def Paced (P : TimedProxyParams) (l : List (ℕ × Packet)) : Prop :=
  l.IsChain fun s s' => P.transmissionEnd s ≤ s'.1

/-- One more packet is paced with the last one before it. -/
lemma paced_concat_iff {P : TimedProxyParams} {l : List (ℕ × Packet)} {t : ℕ} {packet : Packet} :
    P.Paced (l ++ [(t, packet)]) ↔ P.Paced l ∧ ∀ s ∈ l.getLast?, P.transmissionEnd s ≤ t := by
  unfold Paced
  rw [List.isChain_append, and_iff_right (List.isChain_singleton _)]
  simp

/-- From an instant up to the end of a transmission the proxy may not transmit. -/
def SilentUntilEnd (P : TimedProxyParams) (start : ℕ) (s : ℕ × Packet) : Prop :=
  ∀ u, start ≤ u → P.MayTransmit u → P.transmissionEnd s ≤ u

end TimedProxyParams

namespace TimedProxy

open TimedProxyParams

variable {P : TimedProxyParams}

/-- When a step arms the timer, the proxy may not transmit between `m_txEndTime`, or the present,
and the end of the transmission of the packet sent last. -/
def KeepsPace (P : TimedProxyParams) (p : TimedProxy) (evs : List Event) : Step → Prop
  | .handleRead t _ packets => p.packetStore = [] → packets ≠ [] →
      ∀ s ∈ (sends evs).getLast?, P.SilentUntilEnd (max p.txEndTime t) s
  | .sendNextPacket ev => ∀ packet rest, p.packetStore = packet :: rest → rest ≠ [] →
      P.SilentUntilEnd (max p.txEndTime ev.time) (ev.time, packet)
  | _ => True

/-- Every step of a run keeps the pace. -/
def KeepsPaceAlong (P : TimedProxyParams) (steps : List Step) : Prop :=
  ∀ is i, is ++ [i] <+: steps → ∀ p evs, run P is = (.ok p, evs) → KeepsPace P p evs i

/-- One more step keeps the pace along with the ones before it. -/
lemma keepsPaceAlong_concat_iff {is : List Step} {i : Step} {p : TimedProxy} {evs : List Event}
    (hrun : run P is = (.ok p, evs)) :
    KeepsPaceAlong P (is ++ [i]) ↔ KeepsPaceAlong P is ∧ KeepsPace P p evs i := by
  constructor
  · intro h
    exact ⟨fun js j hpre => h js j (hpre.trans (List.prefix_append is [i])),
      h is i List.prefix_rfl p evs hrun⟩
  · rintro ⟨h, hi⟩ js j hpre p' evs' hrun'
    rcases List.prefix_concat_iff.mp hpre with heq | hpre
    · obtain ⟨rfl, hj⟩ := List.append_inj' heq rfl
      cases hj
      rw [hrun] at hrun'
      cases hrun'
      exact hi
    · exact h js j hpre p' evs' hrun'

/-- The packet that the pending timer is going to send. -/
def planned (p : TimedProxy) : List (ℕ × Packet) :=
  match p.sim.pending, p.packetStore with
  | ev :: _, packet :: _ => [(ev.time, packet)]
  | _, _ => []

/-- An idle proxy plans nothing. -/
lemma planned_of_idle {p : TimedProxy} (h : p.packetStore = []) : p.planned = [] := by
  unfold planned
  rw [h]
  split <;> simp_all

/-- The timer is going to send the first packet. -/
lemma planned_of_pending {p : TimedProxy} {ev : EventId} {packet : Packet} {rest : List Packet}
    (hpending : p.sim.pending = [ev]) (hstore : p.packetStore = packet :: rest) :
    p.planned = [(ev.time, packet)] := by
  unfold planned
  rw [hpending, hstore]

/-- The first transmission opportunity comes after the end of a transmission exactly when the proxy
may not transmit before. -/
lemma transmissionEnd_le_iff (h : P.Searchable) (htaper : P.sliceTaperMS < P.sliceWidthMS)
    {txEndTime now t : ℕ} (ht : getNextTxTime P txEndTime now = .ok t) (s : ℕ × Packet) :
    P.transmissionEnd s ≤ t ↔ P.SilentUntilEnd (max txEndTime now) s := by
  obtain ⟨⟨hle, hmay⟩, hleast⟩ := isLeast_of_getNextTxTime_eq h htaper ht
  constructor
  · intro hend u hu humay
    exact hend.trans (Nat.cast_le.mpr (hleast ⟨hu, humay⟩))
  · intro hsilent
    exact hsilent t hle hmay

/-- The timer that is armed first is going to send the first packet, at the transmission
opportunity. -/
lemma planned_of_schedule {p p' : TimedProxy} {q : EventQueue} {now t : ℕ} {packet : Packet}
    {rest : List Packet} (htime : getNextTxTime P p.txEndTime now = .ok t) (hnow : q.now = now)
    (hpending : q.pending = []) (hsim : p'.sim = q.schedule (t - now))
    (hstore : p'.packetStore = packet :: rest) : p'.planned = [(t, packet)] := by
  have hsingle : p'.sim.pending = [q.nextId (t - now)] := by
    rw [hsim]
    exact EventQueue.pending_schedule_of_eq_nil hpending _
  have hadd : (q.nextId (t - now)).time = t := by
    subst hnow
    exact Nat.add_sub_of_le (now_le_of_getNextTxTime_eq htime)
  rw [planned_of_pending hsingle hstore, hadd]

/-- Packets that wake the proxy keep the pace when they are planned behind the last transmission. -/
lemma keepsPace_handleRead_iff (h : P.Searchable) (htaper : P.sliceTaperMS < P.sliceWidthMS)
    {p : TimedProxy} {evs : List Event} {t txtime : ℕ} {slot : Fin RqEncoder.rxSlotCount}
    {packets : List Packet} (hidle : p.packetStore = []) (hpackets : packets ≠ [])
    (htime : getNextTxTime P p.txEndTime t = .ok txtime) :
    KeepsPace P p evs (.handleRead t slot packets) ↔
      ∀ s ∈ (sends evs).getLast?, P.transmissionEnd s ≤ txtime := by
  simp only [transmissionEnd_le_iff h htaper htime]
  exact ⟨fun hs => hs hidle hpackets, fun hs _ _ => hs⟩

/-- A send keeps the pace when the packet behind is planned behind the transmission. -/
lemma keepsPace_sendNextPacket_iff (h : P.Searchable) (htaper : P.sliceTaperMS < P.sliceWidthMS)
    {p : TimedProxy} {evs : List Event} {ev : EventId} {nextTime : ℕ} {packet : Packet}
    {rest : List Packet} (hstore : p.packetStore = packet :: rest) (hrest : rest ≠ [])
    (htime : getNextTxTime P p.txEndTime ev.time = .ok nextTime) :
    KeepsPace P p evs (.sendNextPacket ev) ↔
      P.transmissionEnd (ev.time, packet) ≤ nextTime := by
  rw [transmissionEnd_le_iff h htaper htime]
  constructor
  · intro hs
    exact hs packet rest hstore hrest
  · intro hs packet' rest' hstore' _
    rw [hstore] at hstore'
    cases hstore'
    exact hs

/-- **A transition keeps the pace or it does not**: what was sent and what is planned stays paced
exactly when the step keeps the pace. -/
theorem Transition.paced_iff (h : P.Searchable) (htaper : P.sliceTaperMS < P.sliceWidthMS)
    {p p' : TimedProxy} {i : Step} {evs evs' : List Event} (htimer : OneTimer p)
    (henabled : Enabled (.ok p) i) (ht : Transition P p i p' evs') :
    P.Paced (sends (evs ++ evs') ++ p'.planned) ↔
      P.Paced (sends evs ++ p.planned) ∧ KeepsPace P p evs i := by
  cases ht with
  | start t =>
    rw [List.append_nil]
    exact (and_iff_left trivial).symm
  | stop t =>
    rw [List.append_nil]
    exact (and_iff_left trivial).symm
  | enqueue t slot packets hbusy =>
    have hplanned : (({ p with sim := p.sim.advance t } : TimedProxy).store slot packets).planned =
        p.planned := by
      rcases hbusy with hbusy | rfl
      · obtain ⟨packet, rest, hstore⟩ := List.exists_cons_of_ne_nil hbusy
        obtain ⟨ev, hpending⟩ := htimer.of_ne_nil hbusy
        rw [planned_of_pending hpending hstore]
        exact planned_of_pending hpending (congrArg (· ++ packets) hstore)
      · simp [planned, store]
    have hkeeps : KeepsPace P p evs (.handleRead t slot packets) := by
      intro hidle hpackets
      exact absurd (hbusy.resolve_right hpackets) (not_not.mpr hidle)
    rw [sends_append, sends_map_rxTrace, List.append_nil, hplanned]
    exact (and_iff_left hkeeps).symm
  | wake t slot packets txtime hidle hpackets htime =>
    obtain ⟨packet, rest, rfl⟩ := List.exists_cons_of_ne_nil hpackets
    have hplanned : ((({ p with sim := p.sim.advance t } : TimedProxy).arm txtime).store slot
        (packet :: rest)).planned = [(txtime, packet)] :=
      planned_of_schedule (q := p.sim.advance t) htime rfl (htimer.of_eq_nil hidle) rfl
        (congrArg (· ++ packet :: rest) hidle)
    rw [sends_append, sends_map_rxTrace, List.append_nil, hplanned, planned_of_idle hidle,
      List.append_nil, paced_concat_iff, keepsPace_handleRead_iff h htaper hidle hpackets htime]
  | sendLast ev packet hstore =>
    obtain ⟨-, hpending⟩ := htimer.of_mem henabled.1
    have hkeeps : KeepsPace P p evs (.sendNextPacket ev) := by
      intro packet' rest' hstore' hrest'
      rw [hstore] at hstore'
      cases hstore'
      exact absurd rfl hrest'
    rw [sends_append, planned_of_idle rfl, planned_of_pending hpending hstore, List.append_nil]
    exact (and_iff_left hkeeps).symm
  | sendNext ev packet rest nextTime hstore hrest htime =>
    obtain ⟨-, hpending⟩ := htimer.of_mem henabled.1
    obtain ⟨packet', rest', rfl⟩ := List.exists_cons_of_ne_nil hrest
    have hplanned : planned { (({ p with sim := p.sim.expire ev } : TimedProxy).forward packet
        (packet' :: rest')).arm nextTime with
          txEndTime := nextTime + P.txDuration packet.length } = [(nextTime, packet')] :=
      planned_of_schedule (q := p.sim.expire ev) htime rfl
        (EventQueue.pending_expire_of_singleton hpending) rfl rfl
    rw [hplanned, planned_of_pending hpending hstore, sends_append, paced_concat_iff,
      keepsPace_sendNextPacket_iff h htaper hstore hrest htime]
    refine and_congr_right fun _ => ?_
    change (∀ s ∈ (sends evs ++ [(ev.time, packet)]).getLast?, _) ↔ _
    simp only [List.getLast?_concat, Option.mem_some_iff, forall_eq']

/-- A transmission opportunity that is not before `m_txEndTime` is its own next one. -/
lemma eq_of_getNextTxTime_eq (h : P.Searchable) (htaper : P.sliceTaperMS < P.sliceWidthMS)
    {txEndTime now t : ℕ} (ht : getNextTxTime P txEndTime now = .ok t) (hle : txEndTime ≤ now)
    (hmay : P.MayTransmit now) : t = now := by
  apply (isLeast_of_getNextTxTime_eq h htaper ht).unique
  exact ⟨⟨max_le hle le_rfl, hmay⟩, fun u hu => (le_max_right _ _).trans hu.1⟩

/-- **The first two packets of a burst are sent at the same time**, whatever their sizes. -/
theorem burst_at_once (h : P.Searchable) (htaper : P.sliceTaperMS < P.sliceWidthMS)
    {p p₁ p₂ : TimedProxy} (htimer : OneTimer p) (hidle : p.packetStore = []) {t : ℕ}
    {slot : Fin RqEncoder.rxSlotCount} {first second : Packet} {rest : List Packet}
    {evs₁ evs₂ : List Event}
    (hread : Transition P p (.handleRead t slot (first :: second :: rest)) p₁ evs₁) {ev : EventId}
    (henabled : Enabled (.ok p₁) (.sendNextPacket ev))
    (hsend : Transition P p₁ (.sendNextPacket ev) p₂ evs₂) :
    sends evs₂ = [(ev.time, first)] ∧ p₂.planned = [(ev.time, second)] := by
  cases hread with
  | enqueue _ _ _ hbusy =>
    rcases hbusy with hbusy | hnil
    · exact absurd hidle hbusy
    · exact absurd hnil (List.cons_ne_nil _ _)
  | wake _ _ _ txtime _ _ htime =>
    have hpending := EventQueue.pending_schedule_of_eq_nil (q := p.sim.advance t)
      (htimer.of_eq_nil hidle) (txtime - t)
    have hnextId : ev = (p.sim.advance t).nextId (txtime - t) := by
      have hmem : ev ∈ ((p.sim.advance t).schedule (txtime - t)).pending := henabled.1
      rwa [hpending, List.mem_singleton] at hmem
    have hev : ev.time = txtime := by
      rw [hnextId]
      exact Nat.add_sub_of_le (now_le_of_getNextTxTime_eq htime)
    rw [← hnextId] at hpending
    obtain ⟨⟨hle, hmay⟩, -⟩ := isLeast_of_getNextTxTime_eq h htaper htime
    rw [← hev] at hle hmay
    cases hsend with
    | sendLast _ packet hstore =>
      have hlen := congrArg List.length hstore
      simp [store, arm, hidle] at hlen
    | sendNext _ packet others nextTime hstore hrest htime' =>
      have hcons : first :: second :: rest = packet :: others := by
        rw [← hstore]
        exact (congrArg (· ++ first :: second :: rest) hidle).symm
      cases hcons
      have hnext := eq_of_getNextTxTime_eq h htaper htime' ((le_max_left _ _).trans hle) hmay
      subst hnext
      refine ⟨rfl, ?_⟩
      exact planned_of_schedule (q := EventQueue.expire _ ev) htime' rfl
        (EventQueue.pending_expire_of_singleton hpending) rfl rfl

/-- **What was sent and what is planned is paced exactly when every step kept the pace.** -/
theorem paced_iff_keepsPaceAlong (h : P.Searchable) (htaper : P.sliceTaperMS < P.sliceWidthMS)
    {steps : List Step} (hf : Feasible P steps) {p : TimedProxy} {evs : List Event}
    (hrun : run P steps = (.ok p, evs)) :
    P.Paced (sends evs ++ p.planned) ↔ KeepsPaceAlong P steps := by
  refine run_invariant (I := fun is p evs => P.Paced (sends evs ++ p.planned) ↔
    KeepsPaceAlong P is) hf ?_ ?_ hrun
  · refine iff_of_true List.isChain_nil fun is i hpre => ?_
    have := hpre.length_le
    simp at this
  · intro is i p evs p' evs' hpre hrun henabled hI ht
    have hfeas : Feasible P is := hf.of_isPrefix ((List.prefix_append is [i]).trans hpre)
    rw [ht.paced_iff h htaper (oneTimer_run hfeas hrun) henabled, hI]
    exact (keepsPaceAlong_concat_iff hrun).symm

/-- **When the proxy keeps its rate.**  In every run whose steps all keep the pace, no packet is
sent before the transmission of the one before it has ended, at the configured rate; and in a run
that sends all it receives, the steps have to keep the pace for this. -/
theorem paced_of_keepsPace (h : P.Searchable) (htaper : P.sliceTaperMS < P.sliceWidthMS)
    {steps : List Step} (hf : Feasible P steps) :
    (KeepsPaceAlong P steps → P.Paced (sends (run P steps).2)) ∧
      ((sends (run P steps).2).map Prod.snd = received steps →
        P.Paced (sends (run P steps).2) → KeepsPaceAlong P steps) := by
  obtain ⟨p, hp⟩ := exists_run_eq_ok h hf
  have hrun : run P steps = (.ok p, (run P steps).2) := Prod.ext hp rfl
  have hiff := paced_iff_keepsPaceAlong h htaper hf hrun
  constructor
  · intro hkeeps
    exact (hiff.mpr hkeeps).left_of_append
  · intro hall hpaced
    have hidle : p.packetStore = [] := by
      have hpackets := packets_run hf hrun
      rw [hall] at hpackets
      exact List.append_right_eq_self.mp hpackets
    rw [← hiff, planned_of_idle hidle, List.append_nil]
    exact hpaced

/-- The default proxy searches for slices. -/
lemma searchable_defaults : TimedProxyParams.defaults.Searchable :=
  ⟨by decide, by decide, by decide, ⟨0, by decide⟩⟩

/-- Two packets that arrive one after the other, each at an idle proxy and when the packet before it
has been transmitted. -/
theorem paced_of_keepsPace_apart :
    let steps : List Step :=
      [.startApplication 0, .handleRead 0 0 [[1]], .sendNextPacket ⟨0, 0⟩,
        .handleRead 1600 0 [[2]], .sendNextPacket ⟨1600, 1⟩]
    KeepsPaceAlong .defaults steps ∧
      TimedProxyParams.defaults.Paced (sends (run .defaults steps).2) := by
  intro steps
  have hboth := paced_of_keepsPace (P := .defaults) searchable_defaults (by decide)
    (by decide +kernel : Feasible .defaults steps)
  have hsends : sends (run .defaults steps).2 = [(0, [1]), (1600, [2])] := by decide +kernel
  have hpaced : TimedProxyParams.defaults.Paced (sends (run .defaults steps).2) := by
    rw [hsends]
    refine List.isChain_pair.mpr ?_
    norm_num [transmissionEnd, TimedProxyParams.defaults]
  have hkeeps := hboth.2 (by rw [hsends]; rfl) hpaced
  exact ⟨hkeeps, hboth.1 hkeeps⟩

/-- Of two packets that arrive together, the default proxy sends both at once, although the first
one takes 1600 ns. -/
theorem not_paced_burst :
    ¬ ∀ P : TimedProxyParams, P.Searchable → P.sliceTaperMS < P.sliceWidthMS → 0 < P.cbRate →
      ∀ steps, Feasible P steps → P.Paced (sends (run P steps).2) := by
  intro hclaim
  let steps : List Step :=
    [.startApplication 0, .handleRead 0 0 [[1], [2]], .sendNextPacket ⟨0, 0⟩,
      .sendNextPacket ⟨0, 1⟩]
  have hsends : sends (run .defaults steps).2 = [(0, [1]), (0, [2])] := by decide +kernel
  have hpaced := hclaim .defaults searchable_defaults (by decide) (by decide) steps
    (by decide +kernel)
  rw [hsends] at hpaced
  have hle := List.isChain_pair.mp hpaced
  norm_num [transmissionEnd, TimedProxyParams.defaults] at hle

end TimedProxy

end MeshSim
