import MeshSim.Rq.HeaderStream

/-!
# Round-robin reading

The encoder reads from its RX slots in turn.  A slot that has a symbol to read comes closer to
`m_nextRxSlot` with every source symbol that is read from another slot (`offset_scan`), so that as
many calls as there are slots cannot all pass it by.  The scan meets every slot once at most, and a
call that sends nothing leaves the encoder as it is, the start of the next scan included.
-/

namespace MeshSim

namespace RqEncoder

open MachineInt

variable {n : ℕ}

/-! ### The scan -/

/-- The slots that the do-while loop tests, in their order. -/
def scanVisits (readable : Fin n → Bool) (stop : Fin n) : ℕ → Fin n → List (Fin n)
  | 0, _ => []
  | fuel + 1, slot =>
    slot ::
      if readable slot then []
      else if advance slot ≠ stop then scanVisits readable stop fuel (advance slot)
      else []

/-- More iterations than there are slots left before `stop` do not change the scan. -/
lemma scan_eq_of_le (readable : Fin n → Bool) {stop slot : Fin n} {fuel fuel' : ℕ}
    (hfuel : distance slot stop ≤ fuel) (hle : fuel ≤ fuel') :
    scan readable stop fuel' slot = scan readable stop fuel slot := by
  induction fuel generalizing slot fuel' with
  | zero =>
    have hslot := slot.isLt
    unfold distance at hfuel
    split at hfuel <;> omega
  | succ fuel ih =>
    obtain ⟨k, rfl⟩ : ∃ k, fuel' = k + 1 := ⟨fuel' - 1, by omega⟩
    unfold scan
    by_cases hread : readable slot = true
    · rw [if_pos hread, if_pos hread]
    · rw [if_neg hread, if_neg hread]
      by_cases hne : advance slot ≠ stop
      · have hdist := distance_advance hne
        rw [if_pos hne, if_pos hne]
        exact ih (by omega) (by omega)
      · rw [if_neg hne, if_neg hne]

/-- The slots that are tested are at most as far from `stop` as the first one. -/
lemma distance_le_of_mem_scanVisits {readable : Fin n → Bool} {stop slot s : Fin n} {fuel : ℕ}
    (hs : s ∈ scanVisits readable stop fuel slot) : distance s stop ≤ distance slot stop := by
  induction fuel generalizing slot with
  | zero => cases hs
  | succ fuel ih =>
    rcases List.mem_cons.mp hs with rfl | hs
    · exact le_rfl
    · split at hs
      · cases hs
      · split at hs
        · rename_i hne
          have hdist := distance_advance hne
          exact (ih hs).trans (by omega)
        · cases hs

/-- **The scan tests every slot once at most.** -/
theorem nodup_scanVisits (readable : Fin n → Bool) (stop : Fin n) (fuel : ℕ) (slot : Fin n) :
    (scanVisits readable stop fuel slot).Nodup := by
  induction fuel generalizing slot with
  | zero => exact List.nodup_nil
  | succ fuel ih =>
    unfold scanVisits
    refine List.nodup_cons.mpr ⟨?_, ?_⟩
    · intro hmem
      split at hmem
      · cases hmem
      · split at hmem
        · rename_i hne
          have hle := distance_le_of_mem_scanVisits hmem
          have hdist := distance_advance hne
          omega
        · cases hmem
    · split
      · exact List.nodup_nil
      · split
        · exact ih _
        · exact List.nodup_nil

/-- The scan reads from the first readable slot that it tests. -/
lemma scan_eq_find? (readable : Fin n → Bool) (stop : Fin n) (fuel : ℕ) (slot : Fin n) :
    (scan readable stop fuel slot).2 = (scanVisits readable stop fuel slot).find? readable := by
  induction fuel generalizing slot with
  | zero => rfl
  | succ fuel ih =>
    unfold scan scanVisits
    by_cases hread : readable slot = true
    · rw [if_pos hread, List.find?_cons_of_pos hread]
    · rw [if_neg hread, if_neg hread, List.find?_cons_of_neg hread]
      split
      · exact ih _
      · rfl

/-- How far a slot is ahead of another one. -/
def offset (slot i : Fin n) : ℕ :=
  if slot.val ≤ i.val then i.val - slot.val else i.val + n - slot.val

/-- A slot is less than once around ahead. -/
lemma offset_lt (slot i : Fin n) : offset slot i < n := by
  have hslot := slot.isLt
  have hi := i.isLt
  unfold offset
  split <;> omega

/-- Advancing comes closer to a slot ahead. -/
lemma offset_advance {slot i : Fin n} (h : slot ≠ i) :
    offset (advance slot) i + 1 = offset slot i := by
  have hne : slot.val ≠ i.val := fun hv => h (Fin.ext hv)
  have hslot := slot.isLt
  have hi := i.isLt
  unfold offset
  rw [advance_val]
  split_ifs <;> omega

/-- **The scan reads from a readable slot or comes closer to it.** -/
lemma offset_scan {readable : Fin n → Bool} {stop slot i : Fin n} {fuel : ℕ}
    (hfuel : distance slot stop ≤ fuel) (hread : readable i = true)
    (hoff : offset slot i < distance slot stop) :
    scan readable stop fuel slot = (advance i, some i) ∨
      ∃ s, scan readable stop fuel slot = (advance s, some s) ∧
        offset (advance s) i < offset slot i := by
  induction fuel generalizing slot with
  | zero => omega
  | succ fuel ih =>
    unfold scan
    by_cases heq : slot = i
    · subst heq
      exact Or.inl (if_pos hread)
    · have hadv := offset_advance heq
      by_cases hslot : readable slot = true
      · exact Or.inr ⟨slot, if_pos hslot, by omega⟩
      · rw [if_neg hslot]
        have hne : advance slot ≠ stop := by
          rintro hstop
          -- the slot before `stop` has no slot ahead of it but itself
          have hone : distance slot stop = 1 := by
            have hlt := slot.isLt
            have hval := congrArg Fin.val hstop
            rw [advance_val] at hval
            unfold distance
            split_ifs at hval ⊢ <;> omega
          omega
        have hdist := distance_advance hne
        rw [if_pos hne]
        have hdist' : distance (advance slot) stop ≤ fuel := by omega
        rcases ih hdist' (by omega) with h | ⟨s, h, hlt⟩
        · exact Or.inl h
        · exact Or.inr ⟨s, h, by omega⟩

/-! ### Fruitless calls -/

/-- A call that sends nothing leaves the encoder. -/
lemma sendPacket_of_not_sent {P : RqParams} {e : RqEncoder n} {c : SendCall n}
    (h : ∀ pkt, Event.send pkt ∉ (sendPacket P e c).2) : sendPacket P e c = (e, []) := by
  have hcreated : ∀ (e' : RqEncoder n) (sid : ℤ) (payload : Packet),
      ∃ pkt, Event.send pkt ∈ (sendCreated P e' sid payload).2 := by
    intro e' sid payload
    unfold sendCreated
    dsimp only
    split <;> exact ⟨_, List.mem_cons_self⟩
  rcases sendPacket_cases P e c with hc | ⟨slot, -, -, -, hc⟩ | ⟨-, -, hc⟩
  · exact hc
  · obtain ⟨pkt, hpkt⟩ := hcreated (e.takeSymbol (advance slot) slot (c.recv slot)) slot.val
      (c.recv slot)
    rw [hc] at h
    exact absurd (List.mem_cons_of_mem _ hpkt) (h pkt)
  · obtain ⟨pkt, hpkt⟩ := hcreated e (-1) (List.replicate P.tval 0)
    rw [hc] at h
    exact absurd hpkt (h pkt)

/-- Without room for a packet, or without a readable slot in the source phase, a call does nothing.
-/
lemma sendPacket_of_fruitless {P : RqParams} {e : RqEncoder n} {c : SendCall n}
    (h : ¬ HasRoom P c ∨ e.esi < P.kval ∧ ∀ slot, readable P c slot = false) :
    sendPacket P e c = (e, []) := by
  rcases sendPacket_cases P e c with hc | ⟨slot, hroom, hesi, hread, -⟩ | ⟨hroom, hesi, -⟩
  · exact hc
  · rcases h with h | ⟨-, h⟩
    · exact absurd hroom h
    · rw [h slot] at hread
      cases hread
  · rcases h with h | ⟨h, -⟩
    · exact absurd hroom h
    · exact absurd h (not_lt.mpr hesi)

/-! ### Fairness -/

/-- A call that may read: it has room for a packet and is made in the source phase. -/
def isSourceCall (P : RqParams) (p : RqEncoder n × SendCall n) : Bool :=
  decide (u32 (P.tval + RqHeader.minSerializedSize + n * 4) ≤ p.2.txAvailable ∧ p.1.esi < P.kval)

/-- The calls from a state on that may read, each with the state in which it is made. -/
def sourceCalls (P : RqParams) (e : RqEncoder n) (calls : List (SendCall n)) :
    List (RqEncoder n × SendCall n) :=
  (Mealy.trace (sendPacket P) e calls).filter (isSourceCall P)

/-- A call reads from a slot. -/
def ReadsFrom (P : RqParams) (i : Fin n) (p : RqEncoder n × SendCall n) : Prop :=
  Event.rxTrace i (p.2.recv i) ∈ (sendPacket P p.1 p.2).2

/-- Handing a packet to the TX socket leaves the start of the next scan. -/
lemma sendCreated_nextRxSlot (P : RqParams) (e : RqEncoder n) (streamid : ℤ) (payload : Packet) :
    (sendCreated P e streamid payload).1.nextRxSlot = e.nextRxSlot := by
  unfold sendCreated
  dsimp only
  split <;> rfl

/-- Calls that may not read leave the start of the next scan. -/
lemma nextRxSlot_of_not_isSourceCall {P : RqParams} {p : RqEncoder n × SendCall n}
    (h : isSourceCall P p = false) : (sendPacket P p.1 p.2).1.nextRxSlot = p.1.nextRxSlot := by
  have hnot := of_decide_eq_false h
  rcases sendPacket_cases P p.1 p.2 with hc | ⟨slot, hroom, hesi, -, -⟩ | ⟨-, -, hc⟩
  · rw [hc]
  · exact absurd ⟨hroom, hesi⟩ hnot
  · rw [hc, sendCreated_nextRxSlot]

/-- A call that may read from a readable slot does so or comes closer to it. -/
lemma readsFrom_or_offset_lt {P : RqParams} {p : RqEncoder n × SendCall n} {i : Fin n}
    (h : isSourceCall P p = true) (hread : readable P p.2 i = true) :
    ReadsFrom P i p ∨
      offset (sendPacket P p.1 p.2).1.nextRxSlot i < offset p.1.nextRxSlot i := by
  obtain ⟨hroom, hesi⟩ := of_decide_eq_true h
  have hdist : distance p.1.nextRxSlot p.1.nextRxSlot = n := by
    unfold distance
    rw [if_neg (lt_irrefl _)]
    omega
  have hscan := offset_scan hdist.le hread
    ((offset_lt p.1.nextRxSlot i).trans_eq hdist.symm)
  unfold ReadsFrom sendPacket
  rw [if_neg (not_lt.mpr hroom), if_pos hesi]
  rcases hscan with hscan | ⟨s, hscan, hlt⟩
  · rw [hscan]
    exact Or.inl List.mem_cons_self
  · rw [hscan]
    refine Or.inr ?_
    dsimp only
    rwa [sendCreated_nextRxSlot]

/-- **Round-robin reading is fair, and a fruitless scan changes nothing.**  Whatever an encoder has
done before: when a slot has a symbol to read at every one of as many calls as there are slots that
have room for a packet and are made in the source phase, one of them reads from the slot, whatever
other calls are made in between.  The scan of a call tests every slot once at most, and more
iterations than there are slots do not change it; and a call that has no room for a packet, that
finds no readable slot, or that sends nothing for whatever reason leaves the encoder as it is. -/
theorem round_robin (P : RqParams) [NeZero n] (before : List (SendCall n)) :
    (∀ (calls : List (SendCall n)) (i : Fin n),
        n ≤ (sourceCalls P (run P before).1 calls).length →
        (∀ p ∈ sourceCalls P (run P before).1 calls, readable P p.2 i = true) →
        ∃ p ∈ sourceCalls P (run P before).1 calls, ReadsFrom P i p) ∧
      ∀ c : SendCall n, let e := (run P before).1
        (scan (readable P c) e.nextRxSlot n e.nextRxSlot).2 =
          (scanVisits (readable P c) e.nextRxSlot n e.nextRxSlot).find? (readable P c) ∧
        (scanVisits (readable P c) e.nextRxSlot n e.nextRxSlot).Nodup ∧
        (∀ fuel, n ≤ fuel → scan (readable P c) e.nextRxSlot fuel e.nextRxSlot =
          scan (readable P c) e.nextRxSlot n e.nextRxSlot) ∧
        (¬ HasRoom P c ∨ e.esi < P.kval ∧ (∀ slot, readable P c slot = false) →
          sendPacket P e c = (e, [])) ∧
        ((∀ pkt, Event.send pkt ∉ (sendPacket P e c).2) → (sendPacket P e c).1 = e) := by
  constructor
  · intro calls i hlen hread
    refine Mealy.exists_hit (m := fun e => offset e.nextRxSlot i) ?_ ?_
      ((offset_lt _ i).trans_le hlen)
    · intro p _ hp
      exact (congrArg (fun slot => offset slot i) (nextRxSlot_of_not_isSourceCall hp)).le
    · intro p hmem hp
      exact readsFrom_or_offset_lt hp (hread p (List.mem_filter.mpr ⟨hmem, hp⟩))
  · intro c e
    refine ⟨scan_eq_find? _ _ _ _, nodup_scanVisits _ _ _ _, fun fuel hfuel => ?_,
      sendPacket_of_fruitless, fun h => ?_⟩
    · exact scan_eq_of_le _ (distance_le _ _) hfuel
    · rw [sendPacket_of_not_sent h]

/-- Of two calls with nothing held back, one reads from the second slot. -/
theorem round_robin_second :
    let P : RqParams := { kval := 2, nval := 3, tval := 1 }
    ∃ p ∈ sourceCalls P (run (n := 2) P []).1 (List.replicate 2 (SendCall.ready P 2)),
      ReadsFrom P 1 p :=
  (round_robin _ []).1 _ 1 (by decide +kernel) (by decide +kernel)

end RqEncoder

end MeshSim
