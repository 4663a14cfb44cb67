import MeshSim.Foundation.PartialMealy
import MeshSim.Proxy.SliceSharing

/-!
# Chains of timed proxies

A source, timed proxies one behind the other, and a destination, as they are connected in
`scripts/chainsim/sim_configs/rqtest/conf.in/apps.txt.php`.  Each hands its packets to the next one
over a link, which keeps their order.  A link may lose packets.

The components share the clock of the simulation, and take their steps in any order that it allows.
The source and the destination are outside of the chain: packets are sent into it and received from
it at any time.

`step_spec` says what a step does to the packets in the chain.  What is known of a single proxy
carries over by `project`: each proxy of a chain takes the steps of a run of its own.
-/

namespace MeshSim

/-- A chain: the packets in flight to its first proxy, the proxy with its attributes, and the chain
behind it.  Behind the last proxy are the packets in flight to the destination. -/
inductive Chain where
  /-- The end of a chain. -/
  | last (link : List Packet)
  /-- A proxy, with the link in front of it. -/
  | hop (link : List Packet) (P : TimedProxyParams) (proxy : Except TimedProxy.Fault TimedProxy)
    (rest : Chain)

/-- The steps of a chain. -/
inductive ChainStep where
  /-- The source sends packets. -/
  | send (time : ℕ) (packets : List Packet)
  /-- The destination receives a number of packets. -/
  | receive (time count : ℕ)
  /-- A proxy takes a step. -/
  | proxy (hop : ℕ) (step : TimedProxy.Step)
  /-- A link loses the packet in a position. -/
  | lose (time link position : ℕ)

namespace Chain

open TimedProxy

/-! ### Steps -/

/-- Nothing is in flight, and the proxies are constructed. -/
def init : List TimedProxyParams → Chain
  | [] => .last []
  | P :: Ps => .hop [] P (.ok TimedProxy.init) (init Ps)

/-- Packets are handed to the first link. -/
def push (packets : List Packet) : Chain → Chain
  | .last link => .last (link ++ packets)
  | .hop link P proxy rest => .hop (link ++ packets) P proxy rest

/-- The destination receives a number of packets. -/
def receive (count : ℕ) : Chain → Option (Chain × List Packet)
  | .last link =>
    if count ≤ link.length then some (.last (link.drop count), link.take count) else none
  | .hop link P proxy rest => (rest.receive count).map fun r => (.hop link P proxy r.1, r.2)

/-- A proxy takes a step.  It reads the first packets in flight to it, and what it hands to its TX
socket is in flight to the next one. -/
def proxyStep (i : Step) : ℕ → Chain → Option Chain
  | _, .last _ => none
  | 0, .hop link P proxy rest =>
    if Enabled proxy i ∧ i.packets <+: link then
      some (.hop (link.drop i.packets.length) P (TimedProxy.step P proxy i).1
        (rest.push ((sends (TimedProxy.step P proxy i).2).map Prod.snd)))
    else none
  | k + 1, .hop link P proxy rest => (rest.proxyStep i k).map (.hop link P proxy)

/-- A link loses the packet in a position. -/
def lose (position : ℕ) : ℕ → Chain → Option Chain
  | 0, .last link =>
    if position < link.length then some (.last (link.eraseIdx position)) else none
  | 0, .hop link P proxy rest =>
    if position < link.length then some (.hop (link.eraseIdx position) P proxy rest) else none
  | _ + 1, .last _ => none
  | k + 1, .hop link P proxy rest => (rest.lose position k).map (.hop link P proxy)

/-- One step, with the packets that the destination receives in it. -/
def step (c : Chain) : ChainStep → Option (Chain × List Packet)
  | .send _ packets => some (c.push packets, [])
  | .receive _ count => c.receive count
  | .proxy k i => (c.proxyStep i k).map fun c' => (c', [])
  | .lose _ link position => (c.lose position link).map fun c' => (c', [])

/-- The pending events of a proxy. -/
def pendingOf : Except Fault TimedProxy → List EventId
  | .error _ => []
  | .ok p => p.sim.pending

/-- The pending events of all proxies. -/
def pending : Chain → List EventId
  | .last _ => []
  | .hop _ _ proxy rest => pendingOf proxy ++ rest.pending

/-- The packets that wait in a proxy. -/
def storeOf : Except Fault TimedProxy → List Packet
  | .error _ => []
  | .ok p => p.packetStore

/-- The packets in the chain: those closest to the destination come first. -/
def contents : Chain → List Packet
  | .last link => link
  | .hop link _ proxy rest => rest.contents ++ storeOf proxy ++ link

/-- The proxy in a position, with its attributes. -/
def proxyAt : ℕ → Chain → Option (TimedProxyParams × Except Fault TimedProxy)
  | _, .last _ => none
  | 0, .hop _ P proxy _ => some (P, proxy)
  | k + 1, .hop _ _ _ rest => rest.proxyAt k

end Chain

/-- The time of a step of a proxy. -/
def TimedProxy.Step.time : TimedProxy.Step → ℕ
  | .startApplication time => time
  | .handleRead time _ _ => time
  | .sendNextPacket ev => ev.time
  | .stopApplication time => time

namespace ChainStep

/-- The time of a step. -/
def time : ChainStep → ℕ
  | .send time _ => time
  | .receive time _ => time
  | .proxy _ i => i.time
  | .lose time _ _ => time

/-- The packets that the source sends in a step. -/
def packets : ChainStep → List Packet
  | .send _ packets => packets
  | _ => []

/-- The step of the proxy in a position. -/
def ofHop (k : ℕ) : ChainStep → Option TimedProxy.Step
  | .proxy hop i => if hop = k then some i else none
  | _ => none

/-- A step in which a packet is lost. -/
def loses : ChainStep → Bool
  | .lose _ _ _ => true
  | _ => false

end ChainStep

/-- A chain and the clock of its simulation. -/
structure ChainSim where
  /-- The current time. -/
  now : ℕ
  /-- The chain. -/
  chain : Chain

namespace ChainSim

open TimedProxy Chain

/-- At time zero nothing has happened. -/
def init (Ps : List TimedProxyParams) : ChainSim where
  now := 0
  chain := Chain.init Ps

/-- One step.  Time does not go back, and no pending event is passed over. -/
def step (s : ChainSim) (i : ChainStep) : Option (ChainSim × List Packet) :=
  if s.now ≤ i.time ∧ ∀ ev ∈ s.chain.pending, i.time ≤ ev.time then
    (s.chain.step i).map fun r => ({ now := i.time, chain := r.1 }, r.2)
  else none

/-- The run of a simulation along a list of steps, with the packets that the destination
receives. -/
def run (s : ChainSim) (steps : List ChainStep) : Option (ChainSim × List Packet) :=
  PartialMealy.run step s steps

/-- The packets that the source sends. -/
def sent (steps : List ChainStep) : List Packet := steps.flatMap ChainStep.packets

/-- The steps of the proxy in a position. -/
def stepsOf (k : ℕ) (steps : List ChainStep) : List TimedProxy.Step :=
  steps.filterMap (ChainStep.ofHop k)

end ChainSim

namespace Chain

open TimedProxy

variable {c c' : Chain} {out : List Packet}

/-! ### Packets are neither lost nor overtaken -/

/-- A step of a simulation is a step of the chain. -/
lemma step_of_simStep {s s' : ChainSim} {i : ChainStep} (h : s.step i = some (s', out)) :
    s.chain.step i = some (s'.chain, out) ∧ s'.now = i.time ∧ s.now ≤ i.time ∧
      ∀ ev ∈ s.chain.pending, i.time ≤ ev.time := by
  rw [ChainSim.step] at h
  split at h
  · rename_i htime
    obtain ⟨⟨c', out'⟩, hc, heq⟩ := Option.map_eq_some_iff.mp h
    obtain ⟨rfl, rfl⟩ := Prod.mk.inj heq
    exact ⟨hc, rfl, htime.1, htime.2⟩
  · cases h

/-- Packets that are sent are the last ones in the chain. -/
@[simp] lemma contents_push (packets : List Packet) (c : Chain) :
    (c.push packets).contents = c.contents ++ packets := by
  cases c with
  | last link => rfl
  | hop link P proxy rest => exact (List.append_assoc _ _ _).symm

/-- The packets received are the first ones in the chain. -/
lemma contents_receive {count : ℕ} (h : c.receive count = some (c', out)) :
    out ++ c'.contents = c.contents := by
  induction c generalizing c' out with
  | last link =>
    rw [receive] at h
    split at h
    · obtain ⟨rfl, rfl⟩ := Prod.mk.inj (Option.some.inj h)
      exact List.take_append_drop _ _
    · cases h
  | hop link P proxy rest ih =>
    obtain ⟨⟨rest', out'⟩, hrest, heq⟩ := Option.map_eq_some_iff.mp h
    obtain ⟨rfl, rfl⟩ := Prod.mk.inj heq
    simp only [contents, ← List.append_assoc]
    rw [ih hrest]

/-- The clock of a proxy stands at the time of its last step, and it schedules nothing for the
past. -/
lemma clock_of_transition {P : TimedProxyParams} {p p' : TimedProxy} {i : Step}
    {evs : List Event} (h : Transition P p i p' evs) :
    p'.sim.now = i.time ∧ ∀ ev ∈ p'.sim.pending, ev ∈ p.sim.pending ∨ i.time ≤ ev.time := by
  cases h with
  | start t => exact ⟨rfl, fun ev hev => Or.inl hev⟩
  | stop t => exact ⟨rfl, fun ev hev => Or.inl hev⟩
  | enqueue t slot packets hbusy => exact ⟨rfl, fun ev hev => Or.inl hev⟩
  | wake t slot packets txtime hidle hpackets htime =>
    refine ⟨rfl, fun ev hev => ?_⟩
    rcases List.mem_append.mp hev with hev | hev
    · exact Or.inl hev
    · rw [List.mem_singleton.mp hev]
      exact Or.inr (Nat.le_add_right t _)
  | sendLast e packet hstore => exact ⟨rfl, fun ev hev => Or.inl (List.mem_of_mem_erase hev)⟩
  | sendNext e packet rest nextTime hstore hrest htime =>
    refine ⟨rfl, fun ev hev => ?_⟩
    rcases List.mem_append.mp hev with hev | hev
    · exact Or.inl (List.mem_of_mem_erase hev)
    · rw [List.mem_singleton.mp hev]
      exact Or.inr (Nat.le_add_right e.time _)

/-- A proxy that has not failed: it finds a slice, it has its timer, and its clock is not ahead of
the one of the simulation, nor its timer behind. -/
structure SoundProxy (now : ℕ) (P : TimedProxyParams) (p : TimedProxy) : Prop where
  /-- The search for a slice succeeds. -/
  searchable : P.Searchable
  /-- A timer is pending while packets wait. -/
  timer : OneTimer p
  /-- The clock. -/
  clock : p.sim.now ≤ now
  /-- The timer. -/
  pending : ∀ ev ∈ p.sim.pending, now ≤ ev.time

/-- A proxy that takes a step does not fail. -/
lemma SoundProxy.exists_step {now : ℕ} {P : TimedProxyParams} {p : TimedProxy} {i : Step}
    (h : SoundProxy now P p) (hnow : now = i.time) (henabled : Enabled (.ok p) i) :
    ∃ p' evs, TimedProxy.step P (.ok p) i = (.ok p', evs) ∧ SoundProxy now P p' ∧
      (sends evs).map Prod.snd ++ p'.packetStore = p.packetStore ++ i.packets := by
  obtain ⟨p', evs, hstep⟩ := exists_step_eq_ok h.searchable h.timer henabled
  have ht := transition_of_step hstep
  obtain ⟨hclock, hpending⟩ := clock_of_transition ht
  refine ⟨p', evs, hstep, ⟨h.searchable, h.timer.transition henabled ht, ?_, fun ev hev => ?_⟩,
    ht.packets⟩
  · rw [hclock, hnow]
  · rcases hpending ev hev with hev | hle
    · exact h.pending ev hev
    · rw [hnow]
      exact hle

/-- The proxies of a chain are sound. -/
def Sound (now : ℕ) : Chain → Prop
  | .last _ => True
  | .hop _ P proxy rest => (∃ p, proxy = .ok p ∧ SoundProxy now P p) ∧ rest.Sound now

/-- Constructed proxies are sound. -/
lemma sound_init {Ps : List TimedProxyParams} (hPs : ∀ P ∈ Ps, P.Searchable) :
    (init Ps).Sound 0 := by
  induction Ps with
  | nil => trivial
  | cons P Ps ih =>
    obtain ⟨hP, hPs⟩ := List.forall_mem_cons.mp hPs
    exact ⟨⟨TimedProxy.init, rfl, hP, Or.inl ⟨rfl, rfl⟩, le_rfl,
      fun ev hev => absurd hev List.not_mem_nil⟩, ih hPs⟩

/-- Proxies stay sound while time goes by, and no pending event is passed over. -/
lemma Sound.advance {now t : ℕ} (hs : c.Sound now) (hle : now ≤ t)
    (hpending : ∀ ev ∈ c.pending, t ≤ ev.time) : c.Sound t := by
  induction c with
  | last link => trivial
  | hop link P proxy rest ih =>
    obtain ⟨⟨p, rfl, hp⟩, hrest⟩ := hs
    have hfirst : ∀ ev ∈ p.sim.pending, t ≤ ev.time :=
      fun ev hev => hpending ev (List.mem_append_left _ hev)
    exact ⟨⟨p, rfl, hp.searchable, hp.timer, hp.clock.trans hle, hfirst⟩,
      ih hrest fun ev hev => hpending ev (List.mem_append_right _ hev)⟩

/-- Constructed proxies hold nothing. -/
@[simp] lemma contents_init (Ps : List TimedProxyParams) : (init Ps).contents = [] := by
  induction Ps with
  | nil => rfl
  | cons P Ps ih =>
    rw [init, contents, ih]
    rfl

variable {now : ℕ}

/-- What is in flight does not matter for the proxies. -/
@[simp] lemma sound_push (packets : List Packet) : (c.push packets).Sound now ↔ c.Sound now := by
  cases c with
  | last link => exact Iff.rfl
  | hop link P proxy rest => exact Iff.rfl

/-- Receiving leaves the proxies. -/
lemma sound_receive {count : ℕ} (hs : c.Sound now) (h : c.receive count = some (c', out)) :
    c'.Sound now := by
  induction c generalizing c' out with
  | last link =>
    rw [receive] at h
    split at h
    · obtain ⟨rfl, rfl⟩ := Prod.mk.inj (Option.some.inj h)
      trivial
    · cases h
  | hop link P proxy rest ih =>
    obtain ⟨⟨rest', out'⟩, hrest, heq⟩ := Option.map_eq_some_iff.mp h
    obtain ⟨rfl, rfl⟩ := Prod.mk.inj heq
    exact ⟨hs.1, ih hs.2 hrest⟩

/-- Losing a packet leaves the proxies, and the other packets in order. -/
lemma lose_spec {position k : ℕ} (hs : c.Sound now) (h : c.lose position k = some c') :
    c'.Sound now ∧ c'.contents.Sublist c.contents := by
  induction c generalizing k c' with
  | last link =>
    cases k with
    | zero =>
      rw [lose] at h
      split at h
      · cases h
        exact ⟨trivial, List.eraseIdx_sublist link position⟩
      · cases h
    | succ k => cases h
  | hop link P proxy rest ih =>
    cases k with
    | zero =>
      rw [lose] at h
      split at h
      · cases h
        exact ⟨hs, (List.eraseIdx_sublist link position).append_left _⟩
      · cases h
    | succ k =>
      obtain ⟨rest', hrest, rfl⟩ := Option.map_eq_some_iff.mp h
      obtain ⟨hsound, hsub⟩ := ih hs.2 hrest
      exact ⟨⟨hs.1, hsound⟩, (hsub.append_right _).append_right _⟩

/-- **A step of a proxy** does not fail, and leaves the packets in the chain in their order. -/
lemma proxyStep_spec {i : Step} {k : ℕ} (hs : c.Sound now) (hnow : now = i.time)
    (h : c.proxyStep i k = some c') : c'.Sound now ∧ c'.contents = c.contents := by
  induction c generalizing k c' with
  | last link => cases k <;> cases h
  | hop link P proxy rest ih =>
    obtain ⟨⟨p, rfl, hp⟩, hrest⟩ := hs
    cases k with
    | zero =>
      rw [proxyStep] at h
      split at h
      · rename_i hcond
        cases h
        obtain ⟨henabled, link', rfl⟩ := hcond
        obtain ⟨p', evs, hstep, hp', hpackets⟩ := hp.exists_step hnow henabled
        rw [hstep]
        refine ⟨⟨⟨p', rfl, hp'⟩, (sound_push _).mpr hrest⟩, ?_⟩
        simp only [contents, contents_push, storeOf, List.drop_left, List.append_assoc]
        rw [← List.append_assoc (List.map _ _), hpackets, List.append_assoc]
      · cases h
    | succ k =>
      obtain ⟨rest', hrest', rfl⟩ := Option.map_eq_some_iff.mp h
      obtain ⟨hsound, hcontents⟩ := ih hrest hrest'
      exact ⟨⟨⟨p, rfl, hp⟩, hsound⟩, by rw [contents, contents, hcontents]⟩

/-- **What a step does**: no packet is overtaken, and only links lose packets. -/
lemma step_spec {i : ChainStep} (hs : c.Sound now) (hnow : now = i.time)
    (h : c.step i = some (c', out)) :
    c'.Sound now ∧ (out ++ c'.contents).Sublist (c.contents ++ i.packets) ∧
      (i.loses = false → out ++ c'.contents = c.contents ++ i.packets) := by
  have hkept : c'.Sound now → out ++ c'.contents = c.contents ++ i.packets →
      c'.Sound now ∧ (out ++ c'.contents).Sublist (c.contents ++ i.packets) ∧
        (i.loses = false → out ++ c'.contents = c.contents ++ i.packets) :=
    fun hsound heq => ⟨hsound, heq ▸ List.Sublist.refl _, fun _ => heq⟩
  cases i with
  | send time packets =>
    cases h
    exact hkept ((sound_push packets).mpr hs) (contents_push packets c)
  | receive time count =>
    exact hkept (sound_receive hs h) ((contents_receive h).trans (List.append_nil _).symm)
  | proxy k i =>
    obtain ⟨c₁, hc, heq⟩ := Option.map_eq_some_iff.mp h
    cases heq
    obtain ⟨hsound, hcontents⟩ := proxyStep_spec hs hnow hc
    exact hkept hsound (hcontents.trans (List.append_nil _).symm)
  | lose time link position =>
    obtain ⟨c₁, hc, heq⟩ := Option.map_eq_some_iff.mp h
    cases heq
    obtain ⟨hsound, hsub⟩ := lose_spec hs hc
    exact ⟨hsound, hsub.trans (List.sublist_append_left _ _), nofun⟩

/-! ### Each proxy runs on its own -/

/-- What is in flight is not a proxy. -/
@[simp] lemma proxyAt_push (packets : List Packet) (k : ℕ) (c : Chain) :
    (c.push packets).proxyAt k = c.proxyAt k := by
  cases c <;> cases k <;> rfl

/-- Receiving leaves the proxies. -/
lemma proxyAt_receive {count : ℕ} (h : c.receive count = some (c', out)) (k : ℕ) :
    c'.proxyAt k = c.proxyAt k := by
  induction c generalizing c' out k with
  | last link =>
    rw [receive] at h
    split at h
    · obtain ⟨rfl, rfl⟩ := Prod.mk.inj (Option.some.inj h)
      cases k <;> rfl
    · cases h
  | hop link P proxy rest ih =>
    obtain ⟨⟨rest', out'⟩, hrest, heq⟩ := Option.map_eq_some_iff.mp h
    obtain ⟨rfl, rfl⟩ := Prod.mk.inj heq
    cases k with
    | zero => rfl
    | succ k => exact ih hrest k

/-- Losing a packet leaves the proxies. -/
lemma proxyAt_lose {position j : ℕ} (h : c.lose position j = some c') (k : ℕ) :
    c'.proxyAt k = c.proxyAt k := by
  induction c generalizing c' j k with
  | last link =>
    cases j with
    | zero =>
      rw [lose] at h
      split at h
      · cases h
        cases k <;> rfl
      · cases h
    | succ j => cases h
  | hop link P proxy rest ih =>
    cases j with
    | zero =>
      rw [lose] at h
      split at h
      · cases h
        cases k <;> rfl
      · cases h
    | succ j =>
      obtain ⟨rest', hrest, rfl⟩ := Option.map_eq_some_iff.mp h
      cases k with
      | zero => rfl
      | succ k => exact ih hrest k

/-- A step of a proxy leaves the other ones. -/
lemma proxyAt_proxyStep {i : Step} {j : ℕ} (h : c.proxyStep i j = some c') :
    (∃ P proxy, c.proxyAt j = some (P, proxy) ∧ Enabled proxy i ∧
      c'.proxyAt j = some (P, (TimedProxy.step P proxy i).1)) ∧
    ∀ k, k ≠ j → c'.proxyAt k = c.proxyAt k := by
  induction c generalizing c' j with
  | last link => cases j <;> cases h
  | hop link P proxy rest ih =>
    cases j with
    | zero =>
      rw [proxyStep] at h
      split at h
      · rename_i hcond
        cases h
        refine ⟨⟨P, proxy, rfl, hcond.1, rfl⟩, fun k hk => ?_⟩
        cases k with
        | zero => exact absurd rfl hk
        | succ k => exact proxyAt_push _ k rest
      · cases h
    | succ j =>
      obtain ⟨rest', hrest, rfl⟩ := Option.map_eq_some_iff.mp h
      obtain ⟨hself, hothers⟩ := ih hrest
      refine ⟨hself, fun k hk => ?_⟩
      cases k with
      | zero => rfl
      | succ k => exact hothers k fun heq => hk (congrArg (· + 1) heq)

/-- The constructed proxy in a position. -/
lemma proxyAt_init {Ps : List TimedProxyParams} {k : ℕ} {P : TimedProxyParams}
    (hk : Ps[k]? = some P) : (init Ps).proxyAt k = some (P, .ok TimedProxy.init) := by
  induction Ps generalizing k with
  | nil => cases hk
  | cons Q Ps ih =>
    cases k with
    | zero =>
      cases hk
      rfl
    | succ k => exact ih hk

end Chain

namespace ChainSim

open TimedProxy Chain

variable {Ps : List TimedProxyParams} {steps : List ChainStep} {s : ChainSim}
  {out : List Packet}

/-- **Each proxy runs on its own**: it takes the steps of a run of its own. -/
theorem project (h : (init Ps).run steps = some (s, out)) {k : ℕ} {P : TimedProxyParams}
    (hk : Ps[k]? = some P) :
    Feasible P (stepsOf k steps) ∧
      s.chain.proxyAt k = some (P, (TimedProxy.run P (stepsOf k steps)).1) := by
  refine PartialMealy.run_invariant (I := fun steps s _ => Feasible P (stepsOf k steps) ∧
    s.chain.proxyAt k = some (P, (TimedProxy.run P (stepsOf k steps)).1)) h
    ⟨Mealy.feasible_nil _ _ _, proxyAt_init hk⟩ ?_
  rintro is i s₁ out₁ s₂ out₂ - hstep ⟨hf, hproxy⟩
  obtain ⟨hc, -⟩ := step_of_simStep hstep
  have hsame : i.ofHop k = none → s₂.chain.proxyAt k = s₁.chain.proxyAt k →
      Feasible P (stepsOf k (is ++ [i])) ∧
        s₂.chain.proxyAt k = some (P, (TimedProxy.run P (stepsOf k (is ++ [i]))).1) := by
    intro hnone heq
    have hsteps : stepsOf k (is ++ [i]) = stepsOf k is := by
      rw [stepsOf, List.filterMap_append, List.filterMap_cons_none hnone]
      exact List.append_nil _
    rw [hsteps, heq]
    exact ⟨hf, hproxy⟩
  cases i with
  | send time packets =>
    have hpush : s₁.chain.push packets = s₂.chain := (Prod.mk.inj (Option.some.inj hc)).1
    rw [← hpush] at hsame ⊢
    exact hsame rfl (proxyAt_push packets k _)
  | receive time count => exact hsame rfl (proxyAt_receive hc k)
  | lose time link position =>
    obtain ⟨c₁, hlose, heq⟩ := Option.map_eq_some_iff.mp hc
    rw [← (Prod.mk.inj heq).1] at hsame ⊢
    exact hsame rfl (proxyAt_lose hlose k)
  | proxy j i =>
    obtain ⟨c₁, hproxyStep, heq⟩ := Option.map_eq_some_iff.mp hc
    rw [← (Prod.mk.inj heq).1] at hsame ⊢
    obtain ⟨⟨P', proxy, hself, henabled, hself'⟩, hothers⟩ := proxyAt_proxyStep hproxyStep
    by_cases hj : j = k
    · subst hj
      rw [hproxy] at hself
      obtain ⟨rfl, rfl⟩ := Prod.mk.inj (Option.some.inj hself)
      have hsteps : stepsOf j (is ++ [.proxy j i]) = stepsOf j is ++ [i] := by
        have hof : (ChainStep.proxy j i).ofHop j = some i := if_pos rfl
        rw [stepsOf, List.filterMap_append, List.filterMap_cons_some hof]
        rfl
      rw [hsteps]
      refine ⟨(Mealy.feasible_concat_iff _).mpr ⟨hf, henabled⟩, ?_⟩
      have hrun : TimedProxy.run P (stepsOf j is ++ [i]) =
          ((TimedProxy.step P (TimedProxy.run P (stepsOf j is)).1 i).1,
            (TimedProxy.run P (stepsOf j is)).2 ++
              (TimedProxy.step P (TimedProxy.run P (stepsOf j is)).1 i).2) :=
        Mealy.run_concat _ _ _ _
      rw [hself', hrun]
    · exact hsame (if_neg hj) (hothers k (Ne.symm hj))

/-- The proxies of a chain stay sound. -/
lemma sound_step {s₁ s₂ : ChainSim} {i : ChainStep} (hs : s₁.chain.Sound s₁.now)
    (h : s₁.step i = some (s₂, out)) :
    s₂.chain.Sound s₂.now ∧
      (out ++ s₂.chain.contents).Sublist (s₁.chain.contents ++ i.packets) ∧
      (i.loses = false → out ++ s₂.chain.contents = s₁.chain.contents ++ i.packets) := by
  obtain ⟨hc, hnow, hle, hpending⟩ := step_of_simStep h
  rw [hnow]
  exact step_spec (hs.advance hle hpending) rfl hc

/-- The proxies of a chain are sound in every run. -/
lemma sound_run (hPs : ∀ P ∈ Ps, P.Searchable) (h : (init Ps).run steps = some (s, out)) :
    s.chain.Sound s.now :=
  PartialMealy.run_invariant (I := fun _ s _ => s.chain.Sound s.now) h (sound_init hPs)
    fun _ _ _ _ _ _ _ hstep hs => (sound_step hs hstep).1

/-- Without a loss no packet is lost. -/
lemma kept_run {s₁ s₂ : ChainSim} (h : s₁.run steps = some (s₂, out))
    (hs : s₁.chain.Sound s₁.now) (hkept : ∀ i ∈ steps, i.loses = false) :
    out ++ s₂.chain.contents = s₁.chain.contents ++ sent steps :=
  PartialMealy.run_conserves (fun s => s.chain.Sound s.now) (fun s => s.chain.contents)
    ChainStep.packets (fun i => i.loses = false)
    (fun _ _ _ _ hs hi hstep => ⟨(sound_step hs hstep).1, (sound_step hs hstep).2.2 hi⟩)
    h hs hkept

end ChainSim

end MeshSim
