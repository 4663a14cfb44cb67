import MeshSim.Proxy.SliceSearch

/-!
# Forwarding

The timed proxy is a lossless queue with one timer.  `Transition` lists what a step of the proxy can
do, `transition_of_step` says that the list is complete, and `run_invariant` reduces the invariants
of runs to it.
-/

namespace MeshSim

namespace TimedProxy

variable {P : TimedProxyParams}

/-- The state after `packets` were read from a slot. -/
def store (p : TimedProxy) (slot : Fin RqEncoder.rxSlotCount) (packets : List Packet) :
    TimedProxy :=
  { p with
    rxTotal := packets.foldl (countRx slot) p.rxTotal
    packetStore := p.packetStore ++ packets }

/-- The state after the first packet was handed to the TX socket. -/
def forward (p : TimedProxy) (packet : Packet) (rest : List Packet) : TimedProxy :=
  { p with
    packetStore := rest
    txTotal := MachineInt.u64 (p.txTotal + MachineInt.i32 packet.length) }

/-- What a step of the proxy can do: the step, the state it leads to, and what it does to the
outside. -/
inductive Transition (P : TimedProxyParams) (p : TimedProxy) :
    Step → TimedProxy → List Event → Prop where
  /-- The application is started. -/
  | start (t : ℕ) :
    Transition P p (.startApplication t) { p with phase := .running, sim := p.sim.advance t } []
  /-- The application is stopped. -/
  | stop (t : ℕ) :
    Transition P p (.stopApplication t) { p with phase := .stopped, sim := p.sim.advance t } []
  /-- Packets queue up behind others, or nothing is read. -/
  | enqueue (t : ℕ) (slot : Fin RqEncoder.rxSlotCount) (packets : List Packet)
    (hbusy : p.packetStore ≠ [] ∨ packets = []) :
    Transition P p (.handleRead t slot packets)
      (({ p with sim := p.sim.advance t } : TimedProxy).store slot packets)
      (packets.map (.rxTrace slot))
  /-- Packets arrive at an idle proxy, and the timer is armed. -/
  | wake (t : ℕ) (slot : Fin RqEncoder.rxSlotCount) (packets : List Packet) (txtime : ℕ)
    (hidle : p.packetStore = []) (hpackets : packets ≠ [])
    (htime : getNextTxTime P p.txEndTime t = .ok txtime) :
    Transition P p (.handleRead t slot packets)
      ((({ p with sim := p.sim.advance t } : TimedProxy).arm txtime).store slot packets)
      (packets.map (.rxTrace slot))
  /-- The last packet is forwarded. -/
  | sendLast (ev : EventId) (packet : Packet) (hstore : p.packetStore = [packet]) :
    Transition P p (.sendNextPacket ev)
      (({ p with sim := p.sim.expire ev } : TimedProxy).forward packet [])
      [.send ev.time packet]
  /-- A packet is forwarded, and the timer is armed for the next one. -/
  | sendNext (ev : EventId) (packet : Packet) (rest : List Packet) (nextTime : ℕ)
    (hstore : p.packetStore = packet :: rest) (hrest : rest ≠ [])
    (htime : getNextTxTime P p.txEndTime ev.time = .ok nextTime) :
    Transition P p (.sendNextPacket ev)
      { (({ p with sim := p.sim.expire ev } : TimedProxy).forward packet rest).arm nextTime with
        txEndTime := nextTime + P.txDuration packet.length }
      [.send ev.time packet]

/-! ### The steps are transitions -/

/-- Scheduling fails as the search does, and is never for the past. -/
lemma scheduleNext_eq_error {p : TimedProxy} {f : Fault}
    (h : getNextTxTime P p.txEndTime p.sim.now = .error f) : scheduleNext P p = .error f := by
  unfold scheduleNext
  rw [h]

/-- Scheduling succeeds as the search does. -/
lemma scheduleNext_eq_ok {p : TimedProxy} {t : ℕ}
    (h : getNextTxTime P p.txEndTime p.sim.now = .ok t) : scheduleNext P p = .ok (p.arm t, t) := by
  have hle := now_le_of_getNextTxTime_eq h
  unfold scheduleNext
  rw [h]
  exact if_neg (not_lt.mpr hle)

/-- Packets that are read while others wait queue up behind them. -/
lemma handleRead_of_ne_nil (slot : Fin RqEncoder.rxSlotCount) (packets : List Packet)
    {p : TimedProxy} (h : p.packetStore ≠ []) :
    handleRead P p slot packets = (.ok (p.store slot packets), packets.map (.rxTrace slot)) := by
  unfold handleRead
  induction packets generalizing p with
  | nil => simp [store]
  | cons packet packets ih =>
    have hreceive : receive P slot (.ok p) packet =
        (.ok (p.store slot [packet]), [.rxTrace slot packet]) := by
      unfold receive store
      dsimp only
      rw [if_neg h]
      rfl
    rw [Mealy.run_cons, hreceive, ih (by simp [store])]
    simp [store]

/-- Packets that are read while none wait arm the timer. -/
lemma handleRead_of_eq_ok (slot : Fin RqEncoder.rxSlotCount) {packets : List Packet}
    {p : TimedProxy} {t : ℕ} (h : p.packetStore = []) (hpackets : packets ≠ [])
    (htime : getNextTxTime P p.txEndTime p.sim.now = .ok t) :
    handleRead P p slot packets =
      (.ok ((p.arm t).store slot packets), packets.map (.rxTrace slot)) := by
  obtain ⟨packet, packets, rfl⟩ := List.exists_cons_of_ne_nil hpackets
  have hreceive : receive P slot (.ok p) packet =
      (.ok ((p.arm t).store slot [packet]), [.rxTrace slot packet]) := by
    unfold receive
    dsimp only
    rw [if_pos h,
      scheduleNext_eq_ok (p := { p with rxTotal := countRx slot p.rxTotal packet }) htime]
    rfl
  unfold handleRead
  rw [Mealy.run_cons, hreceive]
  have hrun := handleRead_of_ne_nil (P := P) slot packets (p := (p.arm t).store slot [packet])
    (by simp [store])
  unfold handleRead at hrun
  rw [hrun]
  simp [store]

/-- The search fails for the first packet that is read while none wait. -/
lemma handleRead_of_eq_error (slot : Fin RqEncoder.rxSlotCount) {packets : List Packet}
    {p : TimedProxy} {f : Fault} (h : p.packetStore = []) (hpackets : packets ≠ [])
    (htime : getNextTxTime P p.txEndTime p.sim.now = .error f) :
    (handleRead P p slot packets).1 = .error f := by
  obtain ⟨packet, packets, rfl⟩ := List.exists_cons_of_ne_nil hpackets
  have hreceive : receive P slot (.ok p) packet = (.error f, [.rxTrace slot packet]) := by
    unfold receive
    dsimp only
    rw [if_pos h,
      scheduleNext_eq_error (p := { p with rxTotal := countRx slot p.rxTotal packet }) htime]
  have herror : ∀ rest, Mealy.run (receive P slot) (.error f) rest = (.error f, []) := by
    intro rest
    induction rest with
    | nil => rfl
    | cons packet rest ih => rw [Mealy.run_cons, receive, ih, List.append_nil]
  unfold handleRead
  rw [Mealy.run_cons, hreceive, herror]

/-- Without the assertions nothing is sent. -/
lemma sendNextPacket_of_not {p : TimedProxy}
    (h : ¬ (p.sim.IsExpired p.sendEv ∧ p.packetStore ≠ [])) :
    sendNextPacket P p = (.error .assertion, []) := by
  unfold sendNextPacket
  split
  · rfl
  · rename_i hexpired
    have hnil : p.packetStore = [] := by
      by_contra hne
      exact h ⟨not_not.mp hexpired, hne⟩
    rw [hnil]

/-- Sending the last packet leaves the proxy idle. -/
lemma sendNextPacket_of_singleton {p : TimedProxy} {packet : Packet}
    (hexpired : p.sim.IsExpired p.sendEv) (hstore : p.packetStore = [packet]) :
    sendNextPacket P p = (.ok (p.forward packet []), [.send p.sim.now packet]) := by
  unfold sendNextPacket
  rw [if_neg (not_not.mpr hexpired), hstore]
  rfl

/-- Sending a packet with others behind it arms the timer. -/
lemma sendNextPacket_of_eq_ok {p : TimedProxy} {packet : Packet} {rest : List Packet} {t : ℕ}
    (hexpired : p.sim.IsExpired p.sendEv) (hstore : p.packetStore = packet :: rest)
    (hrest : rest ≠ []) (htime : getNextTxTime P p.txEndTime p.sim.now = .ok t) :
    sendNextPacket P p =
      (.ok { (p.forward packet rest).arm t with txEndTime := t + P.txDuration packet.length },
        [.send p.sim.now packet]) := by
  have hschedule := scheduleNext_eq_ok (p := p.forward packet rest) htime
  unfold forward at hschedule
  unfold sendNextPacket
  rw [if_neg (not_not.mpr hexpired), hstore]
  dsimp only
  rw [if_neg hrest, hschedule]
  rfl

/-- When the search fails behind a packet, that packet is sent. -/
lemma sendNextPacket_of_eq_error {p : TimedProxy} {packet : Packet} {rest : List Packet}
    {f : Fault} (hexpired : p.sim.IsExpired p.sendEv) (hstore : p.packetStore = packet :: rest)
    (hrest : rest ≠ []) (htime : getNextTxTime P p.txEndTime p.sim.now = .error f) :
    sendNextPacket P p = (.error f, [.send p.sim.now packet]) := by
  have hschedule := scheduleNext_eq_error (p := p.forward packet rest) htime
  unfold forward at hschedule
  unfold sendNextPacket
  rw [if_neg (not_not.mpr hexpired), hstore]
  dsimp only
  rw [if_neg hrest, hschedule]

/-- With the assertions the first packet is sent, whatever comes next. -/
lemma sendNextPacket_eq {p : TimedProxy} {packet : Packet} {rest : List Packet}
    (hexpired : p.sim.IsExpired p.sendEv) (hstore : p.packetStore = packet :: rest) :
    ∃ s, sendNextPacket P p = (s, [.send p.sim.now packet]) := by
  by_cases hrest : rest = []
  · subst hrest
    exact ⟨_, sendNextPacket_of_singleton hexpired hstore⟩
  · cases htime : getNextTxTime P p.txEndTime p.sim.now with
    | error f => exact ⟨_, sendNextPacket_of_eq_error hexpired hstore hrest htime⟩
    | ok t => exact ⟨_, sendNextPacket_of_eq_ok hexpired hstore hrest htime⟩

/-- What reading packets does. -/
lemma transition_of_handleRead {p p' : TimedProxy} {t : ℕ} {slot : Fin RqEncoder.rxSlotCount}
    {packets : List Packet} {evs : List Event}
    (h : handleRead P { p with sim := p.sim.advance t } slot packets = (.ok p', evs)) :
    Transition P p (.handleRead t slot packets) p' evs := by
  by_cases hpackets : packets = []
  · subst hpackets
    cases h
    have hstore := Transition.enqueue (P := P) (p := p) t slot [] (Or.inr rfl)
    simpa [store] using hstore
  by_cases hidle : p.packetStore = []
  · cases htime : getNextTxTime P p.txEndTime t with
    | error f =>
      have herror := handleRead_of_eq_error (P := P) slot
        (p := { p with sim := p.sim.advance t }) hidle hpackets htime
      rw [h] at herror
      cases herror
    | ok txtime =>
      rw [handleRead_of_eq_ok slot (p := { p with sim := p.sim.advance t }) hidle hpackets htime]
        at h
      cases h
      exact .wake t slot packets txtime hidle hpackets htime
  · rw [handleRead_of_ne_nil slot packets (p := { p with sim := p.sim.advance t }) hidle] at h
    cases h
    exact .enqueue t slot packets (Or.inl hidle)

/-- What an expiry of the timer does. -/
lemma transition_of_sendNextPacket {p p' : TimedProxy} {ev : EventId} {evs : List Event}
    (h : sendNextPacket P { p with sim := p.sim.expire ev } = (.ok p', evs)) :
    Transition P p (.sendNextPacket ev) p' evs := by
  by_cases hassert : (p.sim.expire ev).IsExpired p.sendEv ∧ p.packetStore ≠ []
  · obtain ⟨hexpired, hne⟩ := hassert
    obtain ⟨packet, rest, hstore⟩ := List.exists_cons_of_ne_nil hne
    by_cases hrest : rest = []
    · subst hrest
      rw [sendNextPacket_of_singleton (p := { p with sim := p.sim.expire ev }) hexpired hstore] at h
      cases h
      exact .sendLast ev packet hstore
    · cases htime : getNextTxTime P p.txEndTime ev.time with
      | error f =>
        rw [sendNextPacket_of_eq_error (p := { p with sim := p.sim.expire ev }) hexpired hstore
          hrest htime] at h
        cases h
      | ok nextTime =>
        rw [sendNextPacket_of_eq_ok (p := { p with sim := p.sim.expire ev }) hexpired hstore hrest
          htime] at h
        cases h
        exact .sendNext ev packet rest nextTime hstore hrest htime
  · rw [sendNextPacket_of_not (p := { p with sim := p.sim.expire ev }) hassert] at h
    cases h

/-- **What a step does.** -/
theorem transition_of_step {p p' : TimedProxy} {i : Step} {evs : List Event}
    (h : step P (.ok p) i = (.ok p', evs)) : Transition P p i p' evs := by
  cases i with
  | startApplication t =>
    cases h
    exact .start t
  | stopApplication t =>
    cases h
    exact .stop t
  | handleRead t slot packets => exact transition_of_handleRead h
  | sendNextPacket ev => exact transition_of_sendNextPacket h

/-! ### Runs -/

/-- **The invariant rule**: what holds at the start and what transitions preserve holds of every
run that has not ended with a fault. -/
theorem run_invariant {I : List Step → TimedProxy → List Event → Prop} {steps : List Step}
    (hf : Feasible P steps) (hinit : I [] init [])
    (next : ∀ is i p evs p' evs', is ++ [i] <+: steps → run P is = (.ok p, evs) →
      Enabled (.ok p) i → I is p evs → Transition P p i p' evs' → I (is ++ [i]) p' (evs ++ evs'))
    {p : TimedProxy} {evs : List Event} (h : run P steps = (.ok p, evs)) : I steps p evs := by
  have hinv := Mealy.Feasible.run_invariant hf
    (I := fun is s evs => ∀ p, s = .ok p → I is p evs) ?_ ?_
  · rw [run] at h
    rw [h] at hinv
    exact hinv p rfl
  · rintro p ⟨⟩
    exact hinit
  · intro is i hpre henabled hI p' hp'
    generalize hrun : Mealy.run (step P) (.ok init) is = r at henabled hI hp' ⊢
    obtain ⟨s, evs⟩ := r
    cases s with
    | error f => exact henabled.elim
    | ok p =>
      have hstep : step P (.ok p) i = (.ok p', (step P (.ok p) i).2) := Prod.ext hp' rfl
      exact next is i p evs p' _ hpre hrun henabled (hI p rfl) (transition_of_step hstep)

/-- The last step of a run that has not ended with a fault is a transition. -/
lemma exists_transition {is : List Step} {i : Step} {p : TimedProxy} {evs : List Event}
    (hf : Feasible P (is ++ [i])) (h : run P (is ++ [i]) = (.ok p, evs)) :
    ∃ p₀ evs₀ evs₁, run P is = (.ok p₀, evs₀) ∧ Transition P p₀ i p evs₁ := by
  obtain ⟨-, henabled⟩ := (Mealy.feasible_concat_iff _).mp hf
  unfold run at h
  rw [Mealy.run_concat] at h
  generalize hrun : Mealy.run (step P) (.ok init) is = r at henabled h
  obtain ⟨s, evs₀⟩ := r
  cases s with
  | error f => exact henabled.elim
  | ok p₀ =>
    have hstep : step P (.ok p₀) i = (.ok p, (step P (.ok p₀) i).2) :=
      Prod.ext (Prod.ext_iff.mp h).1 rfl
    exact ⟨p₀, evs₀, _, hrun, transition_of_step hstep⟩

/-- The packet that an event hands to the TX socket, with the time. -/
def Event.sent? : Event → Option (ℕ × Packet)
  | .rxTrace _ _ => none
  | .send time pkt => some (time, pkt)

/-- The packets handed to the TX socket, in order, with their times. -/
def sends (evs : List Event) : List (ℕ × Packet) := evs.filterMap Event.sent?

/-- The packets that a step reads from an RX socket. -/
def Step.packets : Step → List Packet
  | .handleRead _ _ packets => packets
  | _ => []

/-- The packets received, in order. -/
def received (steps : List Step) : List Packet := steps.flatMap Step.packets

@[simp] lemma sends_append (evs evs' : List Event) :
    sends (evs ++ evs') = sends evs ++ sends evs' := List.filterMap_append

/-- Receiving sends nothing. -/
@[simp] lemma sends_map_rxTrace (slot : Fin RqEncoder.rxSlotCount) (packets : List Packet) :
    sends (packets.map (.rxTrace slot)) = [] := by
  unfold sends
  rw [List.filterMap_map, List.filterMap_eq_nil_iff]
  intro packet _
  rfl

/-- A timer is pending while packets wait, and none otherwise. -/
def OneTimer (p : TimedProxy) : Prop :=
  p.packetStore = [] ∧ p.sim.pending = [] ∨ p.packetStore ≠ [] ∧ ∃ ev, p.sim.pending = [ev]

/-- The pending timer of a proxy that can fire one. -/
lemma OneTimer.of_mem {p : TimedProxy} (h : OneTimer p) {ev : EventId} (hev : ev ∈ p.sim.pending) :
    p.packetStore ≠ [] ∧ p.sim.pending = [ev] := by
  rcases h with ⟨-, hnil⟩ | ⟨hne, e, he⟩
  · rw [hnil] at hev
    exact absurd hev List.not_mem_nil
  · rw [he, List.mem_singleton] at hev
    rw [hev]
    exact ⟨hne, he⟩

/-- An idle proxy has no timer. -/
lemma OneTimer.of_eq_nil {p : TimedProxy} (h : OneTimer p) (hidle : p.packetStore = []) :
    p.sim.pending = [] := by
  rcases h with ⟨-, hpending⟩ | ⟨hne, -⟩
  · exact hpending
  · exact absurd hidle hne

/-- A busy proxy has a timer. -/
lemma OneTimer.of_ne_nil {p : TimedProxy} (h : OneTimer p) (hbusy : p.packetStore ≠ []) :
    ∃ ev, p.sim.pending = [ev] := by
  rcases h with ⟨hidle, -⟩ | ⟨-, hpending⟩
  · exact absurd hidle hbusy
  · exact hpending

/-- **Transitions keep the timer.** -/
theorem OneTimer.transition {p p' : TimedProxy} {i : Step} {evs : List Event} (h : OneTimer p)
    (henabled : Enabled (.ok p) i) (ht : Transition P p i p' evs) : OneTimer p' := by
  cases ht with
  | start t => exact h
  | stop t => exact h
  | enqueue t slot packets hbusy =>
    rcases hbusy with hbusy | rfl
    · exact Or.inr ⟨by simp [store, hbusy], h.of_ne_nil hbusy⟩
    · simpa [OneTimer, store] using h
  | wake t slot packets txtime hidle hpackets htime =>
    have hsingle := EventQueue.pending_schedule_of_eq_nil (q := p.sim.advance t)
      (h.of_eq_nil hidle) (txtime - t)
    exact Or.inr ⟨by simp [store, arm, hpackets], _, hsingle⟩
  | sendLast ev packet hstore =>
    obtain ⟨-, hpending⟩ := h.of_mem henabled.1
    exact Or.inl ⟨rfl, EventQueue.pending_expire_of_singleton hpending⟩
  | sendNext ev packet rest nextTime hstore hrest htime =>
    obtain ⟨-, hpending⟩ := h.of_mem henabled.1
    have hsingle := EventQueue.pending_schedule_of_eq_nil
      (EventQueue.pending_expire_of_singleton hpending) (nextTime - ev.time)
    exact Or.inr ⟨hrest, _, hsingle⟩

/-- A proxy has its timer in every run. -/
theorem oneTimer_run {steps : List Step} (hf : Feasible P steps) {p : TimedProxy}
    {evs : List Event} (h : run P steps = (.ok p, evs)) : OneTimer p :=
  run_invariant (I := fun _ p _ => OneTimer p) hf (Or.inl ⟨rfl, rfl⟩)
    (fun _ _ _ _ _ _ _ _ henabled hI ht => hI.transition henabled ht) h

/-- **Transitions lose no packet**, and keep the order. -/
theorem Transition.packets {p p' : TimedProxy} {i : Step} {evs : List Event}
    (h : Transition P p i p' evs) :
    (sends evs).map Prod.snd ++ p'.packetStore = p.packetStore ++ i.packets := by
  cases h with
  | start t => simp [sends, Step.packets]
  | stop t => simp [sends, Step.packets]
  | enqueue t slot packets hbusy =>
    rw [sends_map_rxTrace]
    rfl
  | wake t slot packets txtime hidle hpackets htime =>
    rw [sends_map_rxTrace]
    rfl
  | sendLast ev packet hstore => simp [sends, Event.sent?, forward, Step.packets, hstore]
  | sendNext ev packet rest nextTime hstore hrest htime =>
    simp [sends, Event.sent?, forward, arm, Step.packets, hstore]

/-- **No packet is lost**, duplicated or overtaken in a run. -/
theorem packets_run {steps : List Step} (hf : Feasible P steps) {p : TimedProxy}
    {evs : List Event} (h : run P steps = (.ok p, evs)) :
    (sends evs).map Prod.snd ++ p.packetStore = received steps := by
  refine run_invariant (I := fun is p evs =>
    (sends evs).map Prod.snd ++ p.packetStore = received is) hf rfl ?_ h
  intro is i p evs p' evs' _ _ _ hpackets ht
  rw [sends_append, List.map_append, List.append_assoc, ht.packets, ← List.append_assoc, hpackets]
  simp [received]

/-- A pending timer was pending before, or is armed for the next transmission opportunity. -/
theorem Transition.pending {p p' : TimedProxy} {i : Step} {evs : List Event}
    (h : Transition P p i p' evs) {ev : EventId} (hev : ev ∈ p'.sim.pending) :
    ev ∈ p.sim.pending ∨ ∃ now, getNextTxTime P p.txEndTime now = .ok ev.time := by
  cases h with
  | start t => exact Or.inl hev
  | stop t => exact Or.inl hev
  | enqueue t slot packets hbusy => exact Or.inl hev
  | wake t slot packets txtime hidle hpackets htime =>
    rcases List.mem_append.mp hev with hev | hev
    · exact Or.inl hev
    · have hle := now_le_of_getNextTxTime_eq htime
      rw [List.mem_singleton.mp hev]
      exact Or.inr ⟨t, by rw [htime]; exact congrArg _ (Nat.add_sub_of_le hle).symm⟩
  | sendLast e packet hstore => exact Or.inl (List.mem_of_mem_erase hev)
  | sendNext e packet rest nextTime hstore hrest htime =>
    rcases List.mem_append.mp hev with hev | hev
    · exact Or.inl (List.mem_of_mem_erase hev)
    · have hle := now_le_of_getNextTxTime_eq htime
      rw [List.mem_singleton.mp hev]
      exact Or.inr ⟨e.time, by rw [htime]; exact congrArg _ (Nat.add_sub_of_le hle).symm⟩

/-- Packets are sent by the timer, at the time it was armed for. -/
theorem Transition.mem_sends {p p' : TimedProxy} {i : Step} {evs : List Event}
    (h : Transition P p i p' evs) {s : ℕ × Packet} (hs : s ∈ sends evs) :
    ∃ ev, i = .sendNextPacket ev ∧ s.1 = ev.time := by
  cases h with
  | start t => exact absurd hs List.not_mem_nil
  | stop t => exact absurd hs List.not_mem_nil
  | enqueue t slot packets hbusy =>
    rw [sends_map_rxTrace] at hs
    exact absurd hs List.not_mem_nil
  | wake t slot packets txtime hidle hpackets htime =>
    rw [sends_map_rxTrace] at hs
    exact absurd hs List.not_mem_nil
  | sendLast ev packet hstore => exact ⟨ev, rfl, by rw [List.mem_singleton.mp hs]⟩
  | sendNext ev packet rest nextTime hstore hrest htime =>
    exact ⟨ev, rfl, by rw [List.mem_singleton.mp hs]⟩

/-- **Nothing fails** where the search succeeds and the timer is in order. -/
theorem exists_step_eq_ok (h : P.Searchable) {p : TimedProxy} (ht : OneTimer p) {i : Step}
    (henabled : Enabled (.ok p) i) : ∃ p' evs, step P (.ok p) i = (.ok p', evs) := by
  cases i with
  | startApplication t => exact ⟨_, _, rfl⟩
  | stopApplication t => exact ⟨_, _, rfl⟩
  | handleRead t slot packets =>
    change ∃ p' evs, handleRead P { p with sim := p.sim.advance t } slot packets = (.ok p', evs)
    by_cases hidle : p.packetStore = []
    · by_cases hpackets : packets = []
      · subst hpackets
        exact ⟨_, _, rfl⟩
      · obtain ⟨txtime, htime⟩ := exists_getNextTxTime_eq h p.txEndTime t
        exact ⟨_, _, handleRead_of_eq_ok slot (p := { p with sim := p.sim.advance t }) hidle
          hpackets htime⟩
    · exact ⟨_, _, handleRead_of_ne_nil slot packets (p := { p with sim := p.sim.advance t })
        hidle⟩
  | sendNextPacket ev =>
    change ∃ p' evs, sendNextPacket P { p with sim := p.sim.expire ev } = (.ok p', evs)
    obtain ⟨hne, hpending⟩ := ht.of_mem henabled.1
    have hexpired : (p.sim.expire ev).IsExpired p.sendEv := by
      apply EventQueue.isExpired_of_pending_eq_nil
      exact EventQueue.pending_expire_of_singleton hpending
    obtain ⟨packet, rest, hstore⟩ := List.exists_cons_of_ne_nil hne
    by_cases hrest : rest = []
    · subst hrest
      exact ⟨_, _, sendNextPacket_of_singleton (p := { p with sim := p.sim.expire ev }) hexpired
        hstore⟩
    · obtain ⟨nextTime, htime⟩ := exists_getNextTxTime_eq h p.txEndTime ev.time
      exact ⟨_, _, sendNextPacket_of_eq_ok (p := { p with sim := p.sim.expire ev }) hexpired
        hstore hrest htime⟩

/-- **No run ends with a fault** where the search succeeds. -/
theorem exists_run_eq_ok (h : P.Searchable) {steps : List Step} (hf : Feasible P steps) :
    ∃ p, (run P steps).1 = .ok p := by
  have hinv := Mealy.Feasible.run_invariant hf
    (I := fun _ s _ => ∃ p, s = .ok p ∧ OneTimer p) ⟨init, rfl, Or.inl ⟨rfl, rfl⟩⟩ ?_
  · obtain ⟨p, hp, -⟩ := hinv
    exact ⟨p, hp⟩
  · rintro is i - henabled ⟨p, hp, htimer⟩
    rw [hp] at henabled ⊢
    obtain ⟨p', evs', hstep⟩ := exists_step_eq_ok h htimer henabled
    exact ⟨p', congrArg Prod.fst hstep, htimer.transition henabled (transition_of_step hstep)⟩

/-- **The proxy is a lossless queue with one timer.**  Along every run no assertion fails, and there
is no other fault; the packets handed to the TX socket, followed by those that wait, are the packets
received, in order; and a timer is pending while packets wait, and none otherwise. -/
theorem lossless_run (h : P.Searchable) {steps : List Step} (hf : Feasible P steps) :
    ∃ p evs, run P steps = (.ok p, evs) ∧
      (sends evs).map Prod.snd ++ p.packetStore = received steps ∧
      p.sim.pending.length = if p.packetStore = [] then 0 else 1 := by
  obtain ⟨p, hp⟩ := exists_run_eq_ok h hf
  have hrun : run P steps = (.ok p, (run P steps).2) := Prod.ext hp rfl
  refine ⟨p, _, hrun, packets_run hf hrun, ?_⟩
  rcases oneTimer_run hf hrun with ⟨hnil, hpending⟩ | ⟨hne, ev, hpending⟩
  · rw [hpending, if_pos hnil, List.length_nil]
  · rw [hpending, if_neg hne, List.length_singleton]

/-- Two packets that arrive together, of which one is forwarded. -/
theorem lossless_run_two :
    ∃ p evs, run .defaults
        [.startApplication 0, .handleRead 5 0 [[1], [2]], .sendNextPacket ⟨5, 0⟩] = (.ok p, evs) ∧
      (sends evs).map Prod.snd ++ p.packetStore = [[1], [2]] ∧
      p.sim.pending.length = if p.packetStore = [] then 0 else 1 :=
  lossless_run (P := .defaults) ⟨by decide, by decide, by decide, ⟨0, by decide⟩⟩
    (by decide +kernel)

end TimedProxy

end MeshSim
