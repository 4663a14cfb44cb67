import MeshSim.Rq.Decoder

/-!
# The send side of the decoder

The send buffers of the decoder balance: what a slot holds is what was credited to it less what was
sent on it, up to the width of the buffer counter.  This holds along every run, whatever packets
arrive, since the credits of a packet are all that is added to the buffers and a transmission is all
that is taken from one.
-/

namespace MeshSim

open MachineInt

namespace RqDecoder

variable {n : ℕ}

/-- The symbols an event credits to a slot. -/
def Event.creditTo (i : Fin n) : Event n → ℤ
  | .credit _ slot symbols => if slot = i then symbols else 0
  | _ => 0

/-- The bytes an event sends on a slot. -/
def Event.sentOn (i : Fin n) : Event n → ℕ
  | .txTrace slot amount => if slot = i then amount else 0
  | _ => 0

/-- The symbols credited to a slot, on account of whatever source block. -/
def creditedTo (evs : List (Event n)) (i : Fin n) : ℤ := (evs.map (Event.creditTo i)).sum

/-- The bytes sent on a slot. -/
def bytesSent (evs : List (Event n)) (i : Fin n) : ℕ := (evs.map (Event.sentOn i)).sum

/-- The bytes sent to an address, over the slots whose socket is connected to it. -/
def bytesSentTo {α : Type*} [DecidableEq α] (addr : Fin n → Option α) (evs : List (Event n))
    (a : α) : ℕ :=
  (evs.map fun e => match e with
    | .txTrace slot amount => if addr slot = some a then amount else 0
    | _ => 0).sum

/-- When one slot has the address, what is sent to it is what is sent on the slot. -/
lemma bytesSentTo_eq {α : Type*} [DecidableEq α] {addr : Fin n → Option α} {a : α} {i : Fin n}
    (h : ∀ j, addr j = some a ↔ j = i) (evs : List (Event n)) :
    bytesSentTo addr evs a = bytesSent evs i := by
  refine congrArg List.sum (List.map_congr_left fun e _ => ?_)
  cases e with
  | txTrace slot amount => simp only [Event.sentOn, h slot]
  | _ => rfl

/-- Credits of a concatenation of events. -/
@[simp] lemma creditedTo_append (evs evs' : List (Event n)) (i : Fin n) :
    creditedTo (evs ++ evs') i = creditedTo evs i + creditedTo evs' i := by
  simp [creditedTo]

/-- Transmissions of a concatenation of events. -/
@[simp] lemma bytesSent_append (evs evs' : List (Event n)) (i : Fin n) :
    bytesSent (evs ++ evs') i = bytesSent evs i + bytesSent evs' i := by
  simp [bytesSent]

/-- Without transmissions nothing is sent. -/
lemma bytesSent_eq_zero {evs : List (Event n)} (h : ∀ slot amount, Event.txTrace slot amount ∉ evs)
    (i : Fin n) : bytesSent evs i = 0 := by
  refine List.sum_eq_zero fun x hx => ?_
  obtain ⟨e, he, rfl⟩ := List.mem_map.mp hx
  cases e with
  | txTrace slot amount => exact absurd he (h slot amount)
  | _ => rfl

/-- When all credits are made on account of one source block, its account is all there is. -/
lemma creditedTo_eq {evs : List (Event n)} {b : ℤ}
    (h : ∀ sbid slot symbols, Event.credit sbid slot symbols ∈ evs → sbid = b) (i : Fin n) :
    creditedTo evs i = symbolsCredited evs b i := by
  refine congrArg List.sum (List.map_congr_left fun e he => ?_)
  cases e with
  | credit sbid slot symbols => simp [Event.creditTo, Event.symbols, h sbid slot symbols he]
  | _ => rfl

/-! ### One step -/

/-- What a slot holds is what was credited to it less what was sent on it. -/
def Balanced (P : RqParams) (d : RqDecoder n) (evs : List (Event n)) : Prop :=
  ∀ i, (d.slotStates i).nbuffered = u32 (creditedTo evs i * P.tval - bytesSent evs i)

/-- What a decoder step leaves balanced: the buffers grow by the credits, and nothing is sent. -/
structure Credited (P : RqParams) (d d' : RqDecoder n) (evs : List (Event n)) : Prop where
  /-- The buffers grow by the credits. -/
  nbuffered : ∀ i, (d.slotStates i).nbuffered < 2 ^ 32 → ((d'.slotStates i).nbuffered : ℤ) =
    u32 ((d.slotStates i).nbuffered + creditedTo evs i * P.tval)
  /-- Nothing is sent. -/
  not_sent : ∀ slot amount, Event.txTrace slot amount ∉ evs

/-- Steps that only credit keep the balance. -/
lemma Credited.balanced {P : RqParams} {d d' : RqDecoder n} {evs evs' : List (Event n)}
    (h : Credited P d d' evs') (hb : Balanced P d evs) : Balanced P d' (evs ++ evs') := by
  intro i
  have hlt : (d.slotStates i).nbuffered < 2 ^ 32 := by
    rw [hb i]
    exact u32_lt _
  have heq := h.nbuffered i hlt
  rw [hb i, u32_add_u32] at heq
  rw [creditedTo_append, bytesSent_append, bytesSent_eq_zero h.not_sent, add_zero]
  have hsum : creditedTo evs i * P.tval - bytesSent evs i + creditedTo evs' i * P.tval =
      (creditedTo evs i + creditedTo evs' i) * P.tval - bytesSent evs i := by ring
  rw [hsum] at heq
  exact_mod_cast heq

/-- The events of counting a packet: a result, or a credit on account of the source block. -/
lemma mem_count {P : RqParams} {d : RqDecoder n} {c : Fin n → ℤ} {slot : Option (Fin n)} {esi : ℤ}
    {e : Event n} (he : e ∈ (count P d c slot esi).2) :
    (∃ info, e = .decodeInfo info) ∨ ∃ i symbols, e = .credit d.sbid i symbols := by
  have hsbid : ((releaseContig P (d.raiseNsymb c) slot).1.countSymbol P esi).sbid = d.sbid :=
    (releaseContig_counters P (d.raiseNsymb c) slot).1
  have hevs : (count P d c slot esi).2 = (releaseContig P (d.raiseNsymb c) slot).2 ++
      (releaseBlock P ((releaseContig P (d.raiseNsymb c) slot).1.countSymbol P esi)).2 := rfl
  rcases List.mem_append.mp (hevs ▸ he) with he | he
  · obtain ⟨i, rfl⟩ := mem_releaseContig P _ he
    exact Or.inr ⟨i, 1, rfl⟩
  · obtain ⟨-, rfl | ⟨i, rfl⟩⟩ := mem_releaseBlock P _ he
    · exact Or.inl ⟨_, rfl⟩
    · exact Or.inr ⟨i, _, by rw [hsbid]⟩

/-- All credits of counting a packet are made on account of its source block. -/
lemma creditedTo_count (P : RqParams) (d : RqDecoder n) (c : Fin n → ℤ) (slot : Option (Fin n))
    (esi : ℤ) (i : Fin n) :
    creditedTo (count P d c slot esi).2 i = symbolsCredited (count P d c slot esi).2 d.sbid i := by
  refine creditedTo_eq (fun sbid j symbols hmem => ?_) i
  rcases mem_count hmem with ⟨info, he⟩ | ⟨k, s, he⟩
  · cases he
  · cases he
    rfl

/-- Counting a packet only credits. -/
lemma credited_count (P : RqParams) (d : RqDecoder n) (c : Fin n → ℤ) (slot : Option (Fin n))
    (esi : ℤ) : Credited P d (count P d c slot esi).1 (count P d c slot esi).2 := by
  constructor
  · intro i hi
    rw [creditedTo_count]
    exact count_nbuffered P d c slot esi i hi
  · intro j amount hmem
    rcases mem_count hmem with ⟨info, he⟩ | ⟨k, s, he⟩ <;> cases he

/-- Events that neither credit nor send may come first. -/
lemma Credited.cons {P : RqParams} {d d' d'' : RqDecoder n} {evs' : List (Event n)}
    (h : Credited P d' d'' evs') (evs : List (Event n))
    (hd : ∀ i, (d'.slotStates i).nbuffered = (d.slotStates i).nbuffered)
    (hcredit : ∀ sbid slot symbols, Event.credit sbid slot symbols ∉ evs)
    (hsent : ∀ slot amount, Event.txTrace slot amount ∉ evs) : Credited P d d'' (evs ++ evs') where
  nbuffered := by
    intro i hi
    have hzero : creditedTo evs i = 0 := by
      rw [creditedTo_eq (b := 0) fun b slot symbols hmem => absurd hmem (hcredit b slot symbols),
        symbolsCredited_eq_zero hcredit]
    rw [creditedTo_append, hzero, zero_add, ← hd i]
    exact h.nbuffered i (by rw [hd i]; exact hi)
  not_sent := by
    intro slot amount hmem
    rcases List.mem_append.mp hmem with hmem | hmem
    · exact hsent slot amount hmem
    · exact h.not_sent slot amount hmem

/-- A packet that changes no buffer. -/
lemma credited_self (P : RqParams) (d : RqDecoder n) : Credited P d d [] where
  nbuffered := by
    intro i hi
    have hnat : (u32 ((d.slotStates i).nbuffered : ℤ) : ℤ) = (d.slotStates i).nbuffered :=
      u32_of_lt (by omega) (by omega)
    simp only [creditedTo, List.map_nil, List.sum_nil, zero_mul, add_zero]
    exact hnat.symm
  not_sent := fun _ _ hmem => (List.not_mem_nil hmem).elim

/-- Entering a source block leaves the buffers. -/
lemma enter_nbuffered (d : RqDecoder n) (b : ℤ) (i : Fin n) :
    ((d.enter b).slotStates i).nbuffered = (d.slotStates i).nbuffered := by
  unfold enter
  split <;> rfl

/-- **A packet only credits**, whatever its header says. -/
theorem credited_receive {P : RqParams} {d d' : RqDecoder n} {pkt : Packet} {evs : List (Event n)}
    (h : receive P d pkt = some (d', evs)) : Credited P d d' evs := by
  obtain ⟨hdr, size, -, ⟨-, rfl, rfl⟩ | ⟨-, c, slot, evs', hcount, rfl⟩⟩ := receive_eq_some h
  · exact (credited_self P d').cons [.rxTrace pkt, .discarded] (fun _ => rfl) (by simp) (by simp)
  · have hcredited := credited_count P (d.enter (sbidOf P hdr.seqno)) c slot (esiOf P hdr.seqno)
    rw [hcount] at hcredited
    have hleave : ∀ e ∈ (if d.sbid < sbidOf P hdr.seqno then d.leaveBlock P else []),
        e = .decodeInfo (populateDecodeInfo P d) := by
      intro e he
      split at he
      · unfold leaveBlock at he
        split at he
        · exact List.mem_singleton.mp he
        · cases he
      · cases he
    generalize (if d.sbid < sbidOf P hdr.seqno then d.leaveBlock P else []) = left at hleave ⊢
    have hleft := hcredited.cons left (enter_nbuffered d _)
      (fun b i symbols hmem => by cases hleave _ hmem) fun i amount hmem => by cases hleave _ hmem
    exact hleft.cons [.rxTrace pkt] (fun _ => rfl) (by simp) (by simp)

/-- Sending takes what it sends from the buffer. -/
lemma Balanced.tryToSend {P : RqParams} {d : RqDecoder n} {evs : List (Event n)}
    (hb : Balanced P d evs) (slot : Fin n) (txAvailable : Option ℕ) :
    Balanced P (tryToSend d slot txAvailable).1 (evs ++ (tryToSend d slot txAvailable).2) := by
  unfold RqDecoder.tryToSend
  split
  · rwa [List.append_nil]
  · rename_i txavail
    dsimp only
    split
    · rwa [List.append_nil]
    · split
      · rwa [List.append_nil]
      · intro i
        have hcredit : creditedTo [Event.txTrace slot (min txavail (d.slotStates slot).nbuffered)] i
            = 0 := rfl
        rw [creditedTo_append, bytesSent_append, hcredit, add_zero]
        have hi := hb i
        dsimp only
        by_cases hslot : i = slot
        · subst hslot
          have hsent : bytesSent [Event.txTrace i (min txavail (d.slotStates i).nbuffered)] i =
              min txavail (d.slotStates i).nbuffered := by simp [bytesSent, Event.sentOn]
          rw [Function.update_self, hsent]
          have hle := min_le_right txavail (d.slotStates i).nbuffered
          generalize min txavail (d.slotStates i).nbuffered = amount at hle ⊢
          rw [hi] at hle ⊢
          generalize creditedTo evs i * P.tval = credited at hle ⊢
          unfold u32 at hle ⊢
          push_cast
          omega
        · have hsent :
              bytesSent [Event.txTrace slot (min txavail (d.slotStates slot).nbuffered)] i = 0 := by
            simp [bytesSent, Event.sentOn, Ne.symm hslot]
          rw [Function.update_of_ne hslot, hsent, add_zero]
          exact hi

/-! ### Runs -/

/-- **The send buffers balance** along every run that does not abort. -/
theorem balanced_run (P : RqParams) {steps : List (Step n)} {d : RqDecoder n}
    {evs : List (Event n)} (h : run P steps = (some d, evs)) : Balanced P d evs := by
  have hinv := Mealy.run_invariant (step P) (s := some (init n))
    (I := fun _ o evs => ∀ d, o = some d → Balanced P d evs) steps ?_ ?_
  · rw [run] at h
    rw [h] at hinv
    exact hinv d rfl
  · rintro d ⟨rfl⟩ i
    simp [init, creditedTo, bytesSent, u32]
  · intro pre s _ hI d' hd'
    revert hI hd'
    cases (Mealy.run (step P) (some (init n)) pre).1 with
    | none => exact fun _ hd' => by cases s <;> cases hd'
    | some d =>
      intro hI hd'
      cases s with
      | recv pkt =>
        cases hr : receive P d pkt with
        | none =>
          simp only [step, hr, reduceCtorEq] at hd'
        | some r =>
          simp only [step, hr] at hd' ⊢
          cases hd'
          exact (credited_receive hr).balanced (hI d rfl)
      | tryToSend slot txAvailable =>
        cases hd'
        exact (hI d rfl).tryToSend slot txAvailable

end RqDecoder

end MeshSim
