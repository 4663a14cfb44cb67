import MeshSim.Proxy.Chain

/-!
# Delivery along a chain of proxies

What the destination of a chain of timed proxies receives: packets that the source has sent, in
their order (`chain_in_order`), and all of them when the simulation goes on and no link loses one
(`chain_drains`).  A packet in the chain can always be moved on, either now or by the earliest
timer; every move brings the packets closer to the destination.

In the chains of `scripts/chainsim` the proxies that are apart never send in the same slice
(`chain_slices`).
-/

namespace MeshSim

/-! ### Packets can be moved on -/

/-- A step in which a packet moves on, or could do so. -/
def TimedProxy.Step.moves : TimedProxy.Step → Bool
  | .handleRead _ _ _ => true
  | .sendNextPacket _ => true
  | _ => false

/-- A step in which packets move on, or could do so. -/
def ChainStep.moves : ChainStep → Bool
  | .receive _ _ => true
  | .proxy _ i => i.moves
  | _ => false

/-- The step of the chain behind a proxy. -/
def ChainStep.behind : ChainStep → ChainStep
  | .proxy k i => .proxy (k + 1) i
  | .lose time link position => .lose time (link + 1) position
  | i => i

namespace Chain

open TimedProxy

variable {c c' : Chain} {out : List Packet} {now : ℕ}

/-- Whether a proxy is started and stopped. -/
def phaseOf : Except Fault TimedProxy → Option Phase
  | .error _ => none
  | .ok p => some p.phase

/-- All proxies are started and not stopped. -/
def Running : Chain → Prop
  | .last _ => True
  | .hop _ _ proxy rest => phaseOf proxy = some .running ∧ rest.Running

instance decidableRunning : (c : Chain) → Decidable c.Running
  | .last _ => inferInstanceAs (Decidable True)
  | .hop _ _ proxy rest =>
    haveI := decidableRunning rest
    inferInstanceAs (Decidable (phaseOf proxy = some .running ∧ rest.Running))

/-- The number of places that a packet in front of a chain passes. -/
def depth : Chain → ℕ
  | .last _ => 1
  | .hop _ _ _ rest => rest.depth + 2

/-- The number of places that the packets in a chain pass. -/
def distance : Chain → ℕ
  | .last link => link.length
  | .hop link _ proxy rest =>
    link.length * (rest.depth + 2) + (storeOf proxy).length * (rest.depth + 1) + rest.distance

/-- What is in flight does not matter for the proxies. -/
@[simp] lemma running_push (packets : List Packet) : (c.push packets).Running ↔ c.Running := by
  cases c <;> exact Iff.rfl

/-- Packets that are sent do not make a chain longer. -/
@[simp] lemma depth_push (packets : List Packet) (c : Chain) :
    (c.push packets).depth = c.depth := by
  cases c <;> rfl

/-- Packets that are sent have all places in front of them. -/
lemma distance_push (packets : List Packet) (c : Chain) :
    (c.push packets).distance = c.distance + packets.length * c.depth := by
  cases c with
  | last link =>
    simp only [push, distance, depth, List.length_append]
    omega
  | hop link P proxy rest =>
    simp only [push, distance, depth, List.length_append]
    ring

/-- Moving packets on leaves a proxy running. -/
lemma phase_of_transition {P : TimedProxyParams} {p p' : TimedProxy} {i : Step}
    {evs : List Event} (h : Transition P p i p' evs) (hi : i.moves) : p'.phase = p.phase := by
  cases h with
  | start t => cases hi
  | stop t => cases hi
  | enqueue t slot packets hbusy => rfl
  | wake t slot packets txtime hidle hpackets htime => rfl
  | sendLast ev packet hstore => rfl
  | sendNext ev packet rest nextTime hstore hrest htime => rfl

/-- A step of the first proxy moves the packets that it reads and those that it sends. -/
lemma exists_first {link : List Packet} {P : TimedProxyParams} {p : TimedProxy} {rest : Chain}
    {i : Step} (hp : SoundProxy now P p) (hnow : now = i.time) (hrunning : p.phase = .running)
    (hrest : rest.Running) (hi : i.moves) (henabled : Enabled (.ok p) i)
    (hread : i.packets <+: link) :
    ∃ c', (Chain.hop link P (.ok p) rest).proxyStep i 0 = some c' ∧ c'.Running ∧
      c'.depth = rest.depth + 2 ∧
      c'.distance + i.packets.length + (sends (TimedProxy.step P (.ok p) i).2).length =
        (Chain.hop link P (.ok p) rest).distance := by
  obtain ⟨p', evs, hstep, -, hpackets⟩ := hp.exists_step hnow henabled
  refine ⟨_, if_pos ⟨henabled, hread⟩, ?_, by rw [depth, depth_push], ?_⟩
  · have hphase := phase_of_transition (transition_of_step hstep) hi
    rw [hstep]
    exact ⟨congrArg some (hphase.trans hrunning), (running_push _).mpr hrest⟩
  · obtain ⟨link', rfl⟩ := hread
    have hlength := congrArg List.length hpackets
    rw [List.length_append, List.length_append, List.length_map] at hlength
    rw [hstep]
    simp only [distance, distance_push, depth_push, storeOf, List.drop_left, List.length_append,
      List.length_map]
    have hplaces : ((sends evs).length + p'.packetStore.length) * (rest.depth + 1) =
        (p.packetStore.length + i.packets.length) * (rest.depth + 1) := by
      rw [hlength]
    linarith

/-- A step of the chain behind a proxy is a step of the chain. -/
lemma step_behind {rest rest' : Chain} {i : ChainStep} (hi : i.moves)
    (h : rest.step i = some (rest', out)) (link : List Packet) (P : TimedProxyParams)
    (proxy : Except Fault TimedProxy) :
    (Chain.hop link P proxy rest).step i.behind = some (.hop link P proxy rest', out) := by
  cases i with
  | send time packets => cases hi
  | lose time link position => cases hi
  | receive time count => exact Option.map_eq_some_iff.mpr ⟨_, h, rfl⟩
  | proxy k i =>
    obtain ⟨c₁, hc, heq⟩ := Option.map_eq_some_iff.mp h
    obtain ⟨rfl, rfl⟩ := Prod.mk.inj heq
    refine Option.map_eq_some_iff.mpr ⟨_, ?_, rfl⟩
    exact Option.map_eq_some_iff.mpr ⟨_, hc, rfl⟩

/-- When packets are in the chain, one of them can be moved on now, or a timer is pending. -/
lemma exists_step_now (hs : c.Sound now) (hrunning : c.Running) (hne : c.contents ≠ []) :
    (∃ i c' out, i.time = now ∧ i.moves ∧ c.step i = some (c', out) ∧ c'.Running ∧
      c'.distance < c.distance ∧ c'.depth = c.depth) ∨ c.pending ≠ [] := by
  induction c with
  | last link =>
    refine Or.inl ⟨.receive now link.length, .last [], link, rfl, rfl, ?_, trivial, ?_, rfl⟩
    · rw [step, receive, if_pos le_rfl, List.drop_length, List.take_length]
    · exact List.length_pos_of_ne_nil hne
  | hop link P proxy rest ih =>
    obtain ⟨⟨p, rfl, hp⟩, hrest⟩ := hs
    obtain ⟨hphase, hrunrest⟩ := hrunning
    by_cases hlink : link = []
    · by_cases hstore : p.packetStore = []
      · -- all packets are behind the first proxy
        have hcontents : rest.contents ≠ [] := by
          intro hnil
          rw [contents, storeOf, hnil, hstore, hlink] at hne
          exact hne rfl
        rcases ih hrest hrunrest hcontents with
          ⟨i, rest', out, htime, hi, hstep, hrun', hlt, hdepth⟩ | hpending
        · refine Or.inl ⟨i.behind, .hop link P (.ok p) rest', out, ?_, ?_,
            step_behind hi hstep link P _, ⟨hphase, hrun'⟩, ?_, ?_⟩
          · rw [← htime]
            cases i <;> rfl
          · rw [← hi]
            cases i <;> rfl
          · simp only [distance, hdepth]
            omega
          · simp only [depth, hdepth]
        · exact Or.inr fun hnil => hpending (List.append_eq_nil_iff.mp hnil).2
      · -- the first proxy has its timer
        obtain ⟨ev, hev⟩ := hp.timer.of_ne_nil hstore
        refine Or.inr fun hnil => ?_
        rw [pending, pendingOf, hev] at hnil
        cases hnil
    · -- the first proxy can read the packets in flight to it
      have henabled : Enabled (.ok p) (.handleRead now 0 link) :=
        ⟨Option.some.inj hphase, hp.clock, hp.pending⟩
      have hread : (Step.handleRead now 0 link).packets <+: link := List.prefix_rfl
      obtain ⟨c', hstep, hrun', hdepth, hdistance⟩ := exists_first hp rfl
        (Option.some.inj hphase) hrunrest rfl henabled hread
      refine Or.inl ⟨.proxy 0 (.handleRead now 0 link), c', [], rfl, rfl,
        Option.map_eq_some_iff.mpr ⟨c', hstep, rfl⟩, hrun', ?_, hdepth⟩
      have hpos : 0 < (Step.handleRead now 0 link).packets.length :=
        List.length_pos_of_ne_nil hlink
      omega

/-- No timer is behind the clock. -/
lemma Sound.le_of_mem_pending (hs : c.Sound now) {ev : EventId} (hev : ev ∈ c.pending) :
    now ≤ ev.time := by
  induction c with
  | last link => cases hev
  | hop link P proxy rest ih =>
    obtain ⟨⟨p, rfl, hp⟩, hrest⟩ := hs
    rcases List.mem_append.mp hev with hev | hev
    · exact hp.pending ev hev
    · exact ih hrest hev

/-- A timer that expires moves a packet on. -/
lemma exists_step_timer {ev : EventId} (hs : c.Sound ev.time) (hrunning : c.Running)
    (hev : ev ∈ c.pending) :
    ∃ k c', c.proxyStep (.sendNextPacket ev) k = some c' ∧ c'.Running ∧
      c'.distance < c.distance ∧ c'.depth = c.depth := by
  induction c with
  | last link => cases hev
  | hop link P proxy rest ih =>
    obtain ⟨⟨p, rfl, hp⟩, hrest⟩ := hs
    obtain ⟨hphase, hrunrest⟩ := hrunning
    rcases List.mem_append.mp hev with hev | hev
    · obtain ⟨hstore, hpending⟩ := hp.timer.of_mem hev
      have henabled : Enabled (.ok p) (.sendNextPacket ev) := by
        refine ⟨hev, fun e he => ?_⟩
        rw [hpending, List.mem_singleton] at he
        rw [he]
        exact Or.inr ⟨rfl, le_rfl⟩
      have hread : (Step.sendNextPacket ev).packets <+: link := List.nil_prefix
      obtain ⟨c', hstep, hrun', hdepth, hdistance⟩ := exists_first hp rfl
        (Option.some.inj hphase) hrunrest rfl henabled hread
      have hsent : 0 < (sends (TimedProxy.step P (.ok p) (.sendNextPacket ev)).2).length := by
        obtain ⟨p', evs, hstep', -, -⟩ := hp.exists_step (i := .sendNextPacket ev) rfl henabled
        rw [hstep']
        cases transition_of_step hstep' with
        | sendLast ev packet hstore => exact Nat.one_pos
        | sendNext ev packet rest nextTime hstore hrest htime => exact Nat.one_pos
      exact ⟨0, c', hstep, hrun', by omega, hdepth⟩
    · obtain ⟨k, rest', hstep, hrun', hlt, hdepth⟩ := ih hrest hrunrest hev
      refine ⟨k + 1, .hop link P (.ok p) rest', Option.map_eq_some_iff.mpr ⟨rest', hstep, rfl⟩,
        ⟨hphase, hrun'⟩, ?_, ?_⟩
      · simp only [distance, hdepth]
        omega
      · simp only [depth, hdepth]

end Chain

namespace ChainSim

open TimedProxy Chain

variable {Ps : List TimedProxyParams} {steps : List ChainStep} {s : ChainSim}
  {out : List Packet}

/-- The earliest of some events. -/
lemma exists_earliest {l : List EventId} (hne : l ≠ []) :
    ∃ ev ∈ l, ∀ e ∈ l, ev.time ≤ e.time := by
  obtain ⟨ev, hev, hmin⟩ := l.toFinset.exists_min_image EventId.time
    ((List.toFinset_nonempty_iff l).mpr hne)
  exact ⟨ev, List.mem_toFinset.mp hev, fun e he => hmin e (List.mem_toFinset.mpr he)⟩

/-- While packets are in a running chain, one of them can be moved on. -/
lemma exists_move (hs : s.chain.Sound s.now) (hrunning : s.chain.Running)
    (hne : s.chain.contents ≠ []) :
    ∃ i s' out, i.moves = true ∧ s.step i = some (s', out) ∧
      (s'.chain.Sound s'.now ∧ s'.chain.Running) ∧ s'.chain.distance < s.chain.distance := by
  -- a step of the chain at a time that no timer is in front of
  have hstep : ∀ (i : ChainStep) (c' : Chain) (out : List Packet), s.now ≤ i.time →
      (∀ ev ∈ s.chain.pending, i.time ≤ ev.time) → i.moves = true →
      s.chain.step i = some (c', out) → c'.Running → c'.distance < s.chain.distance →
      ∃ i s' out, i.moves = true ∧ s.step i = some (s', out) ∧
        (s'.chain.Sound s'.now ∧ s'.chain.Running) ∧ s'.chain.distance < s.chain.distance := by
    intro i c' out hle hpending hi hc hrun' hlt
    have hsim : s.step i = some ({ now := i.time, chain := c' }, out) := by
      rw [step, if_pos ⟨hle, hpending⟩, hc]
      rfl
    exact ⟨i, _, out, hi, hsim, ⟨(sound_step hs hsim).1, hrun'⟩, hlt⟩
  rcases exists_step_now hs hrunning hne with
    ⟨i, c', out, htime, hi, hc, hrun', hlt, -⟩ | hpending
  · exact hstep i c' out htime.ge (fun ev hev => htime ▸ hs.le_of_mem_pending hev) hi hc hrun' hlt
  · obtain ⟨ev, hev, hmin⟩ := exists_earliest hpending
    have hle := hs.le_of_mem_pending hev
    obtain ⟨k, c', hc, hrun', hlt, -⟩ :=
      exists_step_timer (hs.advance hle hmin) hrunning hev
    exact hstep (.proxy k (.sendNextPacket ev)) c' [] hle hmin rfl
      (Option.map_eq_some_iff.mpr ⟨c', hc, rfl⟩) hrun' hlt

/-! ### The chains of the simulations -/

/-- The proxies of a chain simulation, with a data rate, where each slice belongs to every second
proxy, or to every third one. -/
def chainProxies (sl count cbRate : ℕ) (txDuration : ℕ → ℕ) (hsl : sl = 2 ∨ sl = 3) :
    List TimedProxyParams :=
  (List.range count).map fun i => chainProxy sl (i + 1) cbRate txDuration hsl

/-- Every proxy has a slice. -/
lemma searchable_chainProxies (sl count cbRate : ℕ) (txDuration : ℕ → ℕ) (hsl : sl = 2 ∨ sl = 3) :
    ∀ P ∈ chainProxies sl count cbRate txDuration hsl, P.Searchable := by
  intro P hP
  obtain ⟨i, -, rfl⟩ := List.mem_map.mp hP
  exact searchable_chainProxy sl (i + 1) cbRate txDuration hsl

/-- The first two proxies of a chain simulation. -/
def twoProxies : List TimedProxyParams :=
  chainProxies 2 2 5000000 (fun size => size * 1600) (Or.inl rfl)

/-- Two packets are sent, and the second proxy has sent the first one. -/
def twoPackets : List ChainStep :=
  [.proxy 0 (.startApplication 0), .proxy 1 (.startApplication 0), .send 1 [[1], [2]],
    .proxy 0 (.handleRead 5 0 [[1], [2]]), .proxy 0 (.sendNextPacket ⟨5, 0⟩),
    .proxy 0 (.sendNextPacket ⟨5, 1⟩), .proxy 1 (.handleRead 6 0 [[1], [2]]),
    .proxy 1 (.sendNextPacket ⟨20000000, 0⟩), .receive 20000000 1]

/-- The two packets can be sent. -/
lemma exists_twoPackets :
    ∃ s, (init twoProxies).run twoPackets = some (s, [[1]]) ∧ s.chain.contents = [[2]] ∧
      s.chain.distance = 2 ∧ s.chain.Running := by
  have hrun : ((init twoProxies).run twoPackets).map
      (fun r => (r.2, r.1.chain.contents, r.1.chain.distance, decide r.1.chain.Running)) =
        some ([[1]], [[2]], 2, true) := by
    decide +kernel
  obtain ⟨⟨s, out⟩, hs, heq⟩ := Option.map_eq_some_iff.mp hrun
  obtain ⟨rfl, hcontents, hdistance, hrunning⟩ : out = [[1]] ∧ s.chain.contents = [[2]] ∧
      s.chain.distance = 2 ∧ decide s.chain.Running = true := by
    simpa only [Prod.mk.injEq] using heq
  exact ⟨s, hs, hcontents, hdistance, of_decide_eq_true hrunning⟩

/-! ### Runs of a chain -/

/-- The order of the packets in a run, for all chains. -/
lemma sublist_run (hPs : ∀ P ∈ Ps, P.Searchable) (h : (init Ps).run steps = some (s, out)) :
    (out ++ s.chain.contents).Sublist (sent steps) := by
  have hsub := PartialMealy.run_sublist (fun s => s.chain.Sound s.now)
    (fun s => s.chain.contents) ChainStep.packets
    (fun s₁ i s₂ out hs hstep => ⟨(sound_step hs hstep).1, (sound_step hs hstep).2.1⟩) h
    (sound_init hPs)
  have hempty : (init Ps).chain.contents = [] := contents_init Ps
  rwa [hempty] at hsub

/-- Without a loss the packets in a run are all packets sent. -/
lemma append_contents_run (hPs : ∀ P ∈ Ps, P.Searchable)
    (h : (init Ps).run steps = some (s, out)) (hkept : ∀ i ∈ steps, i.loses = false) :
    out ++ s.chain.contents = sent steps := by
  have heq := kept_run h (sound_init hPs) hkept
  have hempty : (init Ps).chain.contents = [] := contents_init Ps
  rwa [hempty] at heq

/-- **A chain keeps the order.**  In every run, whatever the order of its steps, no proxy fails, and
the packets that the destination has received, followed by those in the chain, are packets that the
source has sent, in their order.  When no link loses a packet, they are all of them. -/
theorem chain_in_order (hPs : ∀ P ∈ Ps, P.Searchable)
    (h : (init Ps).run steps = some (s, out)) :
    s.chain.Sound s.now ∧ (out ++ s.chain.contents).Sublist (sent steps) ∧
      ((∀ i ∈ steps, i.loses = false) → out ++ s.chain.contents = sent steps) :=
  ⟨sound_run hPs h, sublist_run hPs h, append_contents_run hPs h⟩

/-- The two packets keep their order. -/
theorem chain_in_order_two :
    ∃ s, (init twoProxies).run twoPackets = some (s, [[1]]) ∧ s.chain.Sound s.now ∧
      ([[1]] ++ s.chain.contents).Sublist [[1], [2]] ∧
      ((∀ i ∈ twoPackets, i.loses = false) → [[1]] ++ s.chain.contents = [[1], [2]]) := by
  obtain ⟨s, hs, -⟩ := exists_twoPackets
  exact ⟨s, hs, chain_in_order (searchable_chainProxies 2 2 _ _ _) hs⟩

/-- From a state in which the proxies are running, the packets can be moved out of the chain. -/
lemma exists_drain (hs : s.chain.Sound s.now) (hrunning : s.chain.Running) :
    ∃ more s', (∀ i ∈ more, i.moves = true) ∧ more.length ≤ s.chain.distance ∧
      s.run more = some (s', s.chain.contents) ∧ s'.chain.contents = [] := by
  obtain ⟨more, s', out', hmoves, hlen, hrun, -, hempty⟩ :=
    PartialMealy.exists_run_of_measure (fun s : ChainSim => s.chain.Sound s.now ∧ s.chain.Running)
      (fun s => s.chain.contents = []) (fun i : ChainStep => i.moves = true)
      (fun s => s.chain.distance) (fun s hI hne => exists_move hI.1 hI.2 hne) ⟨hs, hrunning⟩
  have hkept : ∀ i ∈ more, i.loses = false ∧ i.packets = [] := by
    intro i hi
    have hmove := hmoves i hi
    cases i with
    | send time packets => cases hmove
    | receive time count => exact ⟨rfl, rfl⟩
    | proxy k i => exact ⟨rfl, rfl⟩
    | lose time link position => cases hmove
  have hitems := kept_run hrun hs fun i hi => (hkept i hi).1
  have hnothing : sent more = [] := List.flatMap_eq_nil_iff.mpr fun i hi => (hkept i hi).2
  rw [hempty, List.append_nil, hnothing, List.append_nil] at hitems
  exact ⟨more, s', hmoves, hlen, hitems ▸ hrun, hempty⟩

/-- **A chain never gets stuck.**  From every state of a run in which the proxies are started and
not stopped, the run can be continued, without another packet being sent, so that the destination
receives all packets in the chain.  This takes at most one step for each place that a packet has
still to pass, and when no link has lost a packet, the destination then has all packets sent. -/
theorem chain_drains (hPs : ∀ P ∈ Ps, P.Searchable) (h : (init Ps).run steps = some (s, out))
    (hrunning : s.chain.Running) :
    ∃ more s', (∀ i ∈ more, i.moves = true) ∧ more.length ≤ s.chain.distance ∧
      (init Ps).run (steps ++ more) = some (s', out ++ s.chain.contents) ∧
      s'.chain.contents = [] ∧
      ((∀ i ∈ steps, i.loses = false) → out ++ s.chain.contents = sent steps) := by
  obtain ⟨more, s', hmoves, hlen, hdrain, hempty⟩ := exists_drain (sound_run hPs h) hrunning
  exact ⟨more, s', hmoves, hlen, PartialMealy.run_append h hdrain, hempty,
    append_contents_run hPs h⟩

/-- The second packet can be delivered. -/
theorem chain_drains_two :
    ∃ more s', (∀ i ∈ more, i.moves = true) ∧ more.length ≤ 2 ∧
      (init twoProxies).run (twoPackets ++ more) = some (s', [[1], [2]]) ∧
      s'.chain.contents = [] ∧
      ((∀ i ∈ twoPackets, i.loses = false) → [[1], [2]] = sent twoPackets) := by
  obtain ⟨s, hs, hcontents, hdistance, hrunning⟩ := exists_twoPackets
  have hdrains := chain_drains (searchable_chainProxies 2 2 _ _ _) hs hrunning
  rwa [hcontents, hdistance] at hdrains

/-! ### Slices -/

/-- Instants at which proxies without a common slice may transmit are apart. -/
lemma apart_of_mayTransmit {P Q : TimedProxyParams} (hwidth : P.sliceWidthMS = Q.sliceWidthMS)
    (hP : P.sliceTaperMS < P.sliceWidthMS) (hQ : Q.sliceTaperMS < Q.sliceWidthMS)
    (hnot : ∀ slot, P.IsActive slot → ¬ Q.IsActive slot) {t u : ℕ} (ht : P.MayTransmit t)
    (hu : Q.MayTransmit u) : P.slotAt t ≠ Q.slotAt u ∧ (t ≤ u → t + P.sliceTaper < u) := by
  have hwidth' : (TimedProxyParams.schedule hP).width = (TimedProxyParams.schedule hQ).width := by
    change P.sliceWidthMS * nsPerMS = Q.sliceWidthMS * nsPerMS
    rw [hwidth]
  have hne := SliceSchedule.slice_ne_of_open hwidth' hnot ht hu
  rw [SliceSchedule.slice_congr hwidth' u] at hne
  exact ⟨hne, SliceSchedule.add_taper_lt_of_open hwidth' hnot ht hu⟩

/-- Two proxies of a chain simulation that are apart have no slice in common. -/
lemma not_isActive_chainProxy {sl j k : ℕ} (cbRate : ℕ) (txDuration : ℕ → ℕ)
    (hsl : sl = 2 ∨ sl = 3) (hne : j % sl ≠ k % sl) (slot : ℕ)
    (hactive : (chainProxy sl (j + 1) cbRate txDuration hsl).IsActive slot) :
    ¬ (chainProxy sl (k + 1) cbRate txDuration hsl).IsActive slot := by
  have hslices : (chainProxy sl (j + 1) cbRate txDuration hsl).nSlices =
      (chainProxy sl (k + 1) cbRate txDuration hsl).nSlices := rfl
  refine not_isActive hslices
    (searchable_chainProxy sl (j + 1) cbRate txDuration hsl).nSlices_pos (fun i _ => ?_) slot
    hactive
  change ¬ ((1 <<< ((j + 1 - 1) % sl)).testBit i = true ∧
    (1 <<< ((k + 1 - 1) % sl)).testBit i = true)
  rw [Nat.one_shiftLeft, Nat.one_shiftLeft, Nat.testBit_two_pow, Nat.testBit_two_pow]
  simp only [decide_eq_true_eq, Nat.add_sub_cancel]
  exact fun hbits => hne (hbits.1.trans hbits.2.symm)

/-- **Proxies that are apart do not send together.**  In every run of a chain simulation, two
proxies whose positions differ modulo the number of slices never send in the same slice, and leave
each other more than the taper: with two slices these are the neighbours, and with three slices also
the proxies with one between them. -/
theorem chain_slices {sl count cbRate : ℕ} {txDuration : ℕ → ℕ} {hsl : sl = 2 ∨ sl = 3}
    (h : (init (chainProxies sl count cbRate txDuration hsl)).run steps = some (s, out))
    {j k : ℕ} (hj : j < count) (hk : k < count) (hne : j % sl ≠ k % sl) :
    ∀ x ∈ sends (TimedProxy.run (chainProxy sl (j + 1) cbRate txDuration hsl)
        (stepsOf j steps)).2,
      ∀ y ∈ sends (TimedProxy.run (chainProxy sl (k + 1) cbRate txDuration hsl)
          (stepsOf k steps)).2,
        (chainProxy sl (j + 1) cbRate txDuration hsl).slotAt x.1 ≠
            (chainProxy sl (k + 1) cbRate txDuration hsl).slotAt y.1 ∧
          (x.1 ≤ y.1 →
            x.1 + (chainProxy sl (j + 1) cbRate txDuration hsl).sliceTaper < y.1) := by
  have hat : ∀ i < count, (chainProxies sl count cbRate txDuration hsl)[i]? =
      some (chainProxy sl (i + 1) cbRate txDuration hsl) := by
    intro i hi
    rw [chainProxies, List.getElem?_map, List.getElem?_range hi]
    rfl
  have htaper : ∀ i, (chainProxy sl i cbRate txDuration hsl).sliceTaperMS <
      (chainProxy sl i cbRate txDuration hsl).sliceWidthMS := by
    intro i
    change 2 < 20
    decide
  have hsends : ∀ i < count, ∀ x ∈ sends (TimedProxy.run
      (chainProxy sl (i + 1) cbRate txDuration hsl) (stepsOf i steps)).2,
      (chainProxy sl (i + 1) cbRate txDuration hsl).MayTransmit x.1 := by
    intro i hi
    exact mayTransmit_of_mem_sends (searchable_chainProxy sl (i + 1) cbRate txDuration hsl)
      (htaper (i + 1)) (project h (hat i hi)).1
  have hwidth : (chainProxy sl (j + 1) cbRate txDuration hsl).sliceWidthMS =
      (chainProxy sl (k + 1) cbRate txDuration hsl).sliceWidthMS := rfl
  intro x hx y hy
  exact apart_of_mayTransmit hwidth (htaper (j + 1)) (htaper (k + 1))
    (not_isActive_chainProxy cbRate txDuration hsl hne) (hsends j hj x hx) (hsends k hk y hy)

/-- The first send of either proxy. -/
theorem chain_slices_two :
    (chainProxy 2 1 5000000 (fun size => size * 1600) (Or.inl rfl)).slotAt 5 ≠
        (chainProxy 2 2 5000000 (fun size => size * 1600) (Or.inl rfl)).slotAt 20000000 ∧
      (5 ≤ 20000000 →
        5 + (chainProxy 2 1 5000000 (fun size => size * 1600) (Or.inl rfl)).sliceTaper <
          20000000) := by
  obtain ⟨s, hs, -⟩ := exists_twoPackets
  exact chain_slices (j := 0) (k := 1) hs (by decide) (by decide) (by decide) (5, [1])
    (by decide +kernel) (20000000, [1]) (by decide +kernel)

end ChainSim

end MeshSim
