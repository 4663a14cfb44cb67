import MeshSim.Proxy.Forwarding
import MeshSim.Rq.Conservation

/-!
# The byte totals of the proxy applications

`ns3_apps/proxy-base.cc` declares a byte total for every slot and sums them in `GetTotalRx` and
`GetTotalTx`; `rq-encoder.cc`, `rq-decoder.cc` and `timed-proxy.cc` count and trace on their own.
A `Ledger` sets what an application has counted beside the packets it has taken, handed on and
traced, and `Kept` says that they agree.  The encoder keeps its totals as long as 64 bits are enough
for them.  The decoder never counts what it receives, and the timed proxy never traces what it
sends.
-/

namespace MeshSim

open MachineInt

variable {n : ℕ}

namespace ProxyBase

/-! ### The sums of `ProxyBase` -/

/-- The loop of `GetTotalRx` and `GetTotalTx` over the totals of the slots. -/
def getTotal (slotCount : ℕ) (total : ℕ → ℕ) : ℕ :=
  (List.range slotCount).foldl (fun tot i => u64 ((tot + total i : ℕ) : ℤ)) 0

/-- `m_rxSlots[i].total` or `m_txSlots[i].total`, of which `n` slots are in use; the slots behind
them keep the zeros of the constructor. -/
def slotTotals (total : Fin n → ℕ) (i : ℕ) : ℕ := if h : i < n then total ⟨i, h⟩ else 0

/-- The loop computes the sum in 64 bits. -/
lemma getTotal_eq (slotCount : ℕ) (total : ℕ → ℕ) :
    getTotal slotCount total = u64 ((∑ i ∈ Finset.range slotCount, total i : ℕ) : ℤ) := by
  induction slotCount with
  | zero => rfl
  | succ k ih =>
    rw [getTotal, List.range_succ, List.foldl_append, ← getTotal, ih, Finset.sum_range_succ]
    change u64 ((u64 _ + _ : ℕ) : ℤ) = _
    rw [Nat.cast_add, u64_add_u64, Nat.cast_add]

/-- The slots that are not in use add nothing. -/
lemma sum_slotTotals {slotCount : ℕ} (h : n ≤ slotCount) (total : Fin n → ℕ) :
    ∑ i ∈ Finset.range slotCount, slotTotals total i = ∑ i, total i := by
  obtain ⟨k, rfl⟩ := Nat.exists_eq_add_of_le h
  have hunused : ∑ i ∈ Finset.range k, slotTotals total (n + i) = 0 :=
    Finset.sum_eq_zero fun i _ => dif_neg (by omega)
  rw [Finset.sum_range_add, hunused, add_zero, Finset.sum_range]
  exact Finset.sum_congr rfl fun i _ => dif_pos i.isLt

/-- Slots in which nothing was counted add up to nothing. -/
lemma getTotal_slotTotals_zero (n slotCount : ℕ) :
    getTotal slotCount (slotTotals fun _ : Fin n => 0) = 0 := by
  rw [getTotal_eq, Finset.sum_eq_zero fun i _ => by simp [slotTotals]]
  rfl

/-- The totals count a number of bytes, in 64 bits. -/
def Counts (total : Fin n → ℕ) (bytes : ℤ) : Prop :=
  ((∑ i, total i : ℕ) : ℤ) % 2 ^ 64 = bytes % 2 ^ 64

/-- Nothing is counted at first. -/
lemma counts_zero (n : ℕ) : Counts (fun _ : Fin n => 0) 0 := by simp [Counts]

/-- Counting a packet in a slot. -/
lemma Counts.update {total : Fin n → ℕ} {bytes : ℤ} (h : Counts total bytes) (slot : Fin n)
    (size : ℤ) :
    Counts (Function.update total slot (u64 (total slot + size))) (bytes + size) := by
  have hold : ∑ i, total i = total slot + ∑ i ∈ Finset.univ.erase slot, total i :=
    (Finset.add_sum_erase _ _ (Finset.mem_univ slot)).symm
  have hnew : ∑ i, Function.update total slot (u64 (total slot + size)) i =
      u64 (total slot + size) + ∑ i ∈ Finset.univ.erase slot, total i := by
    rw [← Finset.add_sum_erase _ _ (Finset.mem_univ slot), Function.update_self]
    congr 1
    refine Finset.sum_congr rfl fun i hi => Function.update_of_ne (Finset.ne_of_mem_erase hi) _ _
  unfold Counts at h ⊢
  rw [hnew]
  rw [hold] at h
  generalize ∑ i ∈ Finset.univ.erase slot, total i = others at h ⊢
  unfold u64
  omega

/-- An application with one slot counts in that slot. -/
lemma update_one {α : Type*} (total : Fin 1 → α) (value : α) :
    Function.update total 0 value = fun _ => value := by
  funext i
  rw [Fin.fin_one_eq_zero i, Function.update_self]

/-- The sum of the totals is the number of bytes, in 64 bits. -/
lemma Counts.getTotal {total : Fin n → ℕ} {bytes : ℤ} (h : Counts total bytes) {slotCount : ℕ}
    (hn : n ≤ slotCount) : ProxyBase.getTotal slotCount (slotTotals total) = u64 bytes := by
  rw [getTotal_eq, sum_slotTotals hn, u64, h]
  rfl

/-- A number of bytes survives in 64 bits exactly when it is below `2 ^ 64`. -/
lemma u64_natCast_eq_iff (m : ℕ) : u64 m = m ↔ m < 2 ^ 64 := by
  unfold u64
  omega

/-! ### Ledgers -/

/-- The bytes of some packets. -/
def bytes (packets : List Packet) : ℕ := (packets.map List.length).sum

@[simp] lemma bytes_nil : bytes [] = 0 := rfl

@[simp] lemma bytes_append (packets more : List Packet) :
    bytes (packets ++ more) = bytes packets + bytes more := by
  simp [bytes]

@[simp] lemma bytes_singleton (packet : Packet) : bytes [packet] = packet.length := by
  simp [bytes]

/-- What an application has counted, and the packets that passed through it. -/
structure Ledger where
  /-- `m_rxSlots[i].total`. -/
  rxTotal : ℕ → ℕ
  /-- `m_txSlots[i].total`. -/
  txTotal : ℕ → ℕ
  /-- The packets taken from the RX sockets and reported on the Rx trace. -/
  taken : List Packet
  /-- The packets handed to the TX sockets. -/
  handed : List Packet
  /-- The packets reported on the Tx trace. -/
  traced : List Packet

/-- `GetTotalRx`. -/
def Ledger.getTotalRx (L : Ledger) : ℕ := getTotal RqEncoder.rxSlotCount L.rxTotal

/-- `GetTotalTx`. -/
def Ledger.getTotalTx (L : Ledger) : ℕ := getTotal RqDecoder.txSlotCount L.txTotal

/-- The totals are the bytes taken and handed on, and the Tx trace fired once for each packet. -/
structure Ledger.Kept (L : Ledger) : Prop where
  /-- The bytes received. -/
  rx : L.getTotalRx = bytes L.taken
  /-- The bytes sent. -/
  tx : L.getTotalTx = bytes L.handed
  /-- The Tx trace. -/
  trace : L.traced = L.handed

end ProxyBase

open ProxyBase

/-! ### The encoder -/

namespace RqEncoder

/-- The packet that an event takes from an RX socket. -/
def Event.taken? : Event n → Option Packet
  | .rxTrace _ pkt => some pkt
  | _ => none

/-- The packet that an event reports on the Tx trace. -/
def Event.traced? : Event n → Option TxPacket
  | .txTrace pkt => some pkt
  | _ => none

/-- The ledger of an encoder, which has one TX slot. -/
def ledger (r : RqEncoder n × List (Event n)) : Ledger where
  rxTotal := slotTotals r.1.rxTotal
  txTotal := slotTotals fun _ : Fin 1 => r.1.txTotal
  taken := r.2.filterMap Event.taken?
  handed := (r.2.filterMap Event.sent?).map TxPacket.bytes
  traced := (r.2.filterMap Event.traced?).map TxPacket.bytes

/-- The counters of an encoder and its Tx trace agree with what it did. -/
structure Tallies (e : RqEncoder n) (evs : List (Event n)) : Prop where
  /-- The bytes received. -/
  rx : Counts e.rxTotal (bytes (evs.filterMap Event.taken?))
  /-- The bytes sent. -/
  tx : Counts (fun _ : Fin 1 => e.txTotal) (bytes ((evs.filterMap Event.sent?).map TxPacket.bytes))
  /-- The Tx trace. -/
  trace : evs.filterMap Event.traced? = evs.filterMap Event.sent?

/-- Handing on a packet keeps the tallies. -/
lemma Tallies.sendCreated {e : RqEncoder n} {evs : List (Event n)} (h : Tallies e evs)
    (P : RqParams) (streamid : ℤ) (payload : Packet) :
    Tallies (sendCreated P e streamid payload).1
      (evs ++ (RqEncoder.sendCreated P e streamid payload).2) := by
  let pkt : TxPacket := { hdr := nextHeader P e streamid, payload := payload }
  have hevs : (RqEncoder.sendCreated P e streamid payload).2 = [.send pkt, .txTrace pkt] := by
    unfold RqEncoder.sendCreated
    dsimp only
    split <;> rfl
  have htotal : (RqEncoder.sendCreated P e streamid payload).1.txTotal =
      u64 (e.txTotal + pkt.size) := by
    unfold RqEncoder.sendCreated
    dsimp only
    split <;> rfl
  rw [hevs]
  constructor
  · have htaken : (evs ++ [Event.send pkt, .txTrace pkt]).filterMap Event.taken? =
        evs.filterMap Event.taken? := by
      rw [List.filterMap_append]
      exact List.append_nil _
    rw [sendCreated_rxTotal, htaken]
    exact h.rx
  · have hsent : (evs ++ [Event.send pkt, .txTrace pkt]).filterMap Event.sent? =
        evs.filterMap Event.sent? ++ [pkt] := by
      rw [List.filterMap_append]
      rfl
    have hcounts := h.tx.update 0 pkt.size
    rw [update_one] at hcounts
    rw [htotal, hsent, List.map_append, bytes_append, List.map_singleton, bytes_singleton,
      ← TxPacket.size, Nat.cast_add]
    exact hcounts
  · rw [List.filterMap_append, List.filterMap_append, h.trace]
    rfl

/-- Taking a symbol from a slot keeps the tallies. -/
lemma Tallies.takeSymbol {e : RqEncoder n} {evs : List (Event n)} (h : Tallies e evs)
    (next slot : Fin n) (pkt : Packet) :
    Tallies (e.takeSymbol next slot pkt) (evs ++ [.rxTrace slot pkt]) where
  rx := by
    have htaken : (evs ++ [Event.rxTrace slot pkt]).filterMap Event.taken? =
        evs.filterMap Event.taken? ++ [pkt] := by
      rw [List.filterMap_append]
      rfl
    rw [htaken, bytes_append, bytes_singleton, Nat.cast_add]
    exact h.rx.update slot pkt.length
  tx := by
    have hsent : (evs ++ [Event.rxTrace slot pkt]).filterMap Event.sent? =
        evs.filterMap Event.sent? := by
      rw [List.filterMap_append]
      exact List.append_nil _
    rw [hsent]
    exact h.tx
  trace := by
    rw [List.filterMap_append, List.filterMap_append, h.trace]
    rfl

/-- **Every run of an encoder keeps the tallies.** -/
theorem tallies_run (P : RqParams) [NeZero n] (calls : List (SendCall n)) :
    Tallies (run P calls).1 (run P calls).2 := by
  induction calls using List.reverseRecOn with
  | nil => exact ⟨counts_zero n, counts_zero 1, rfl⟩
  | append_singleton calls c ih =>
    rw [run, Mealy.run_concat]
    change Tallies (sendPacket P (run P calls).1 c).1 ((run P calls).2 ++
      (sendPacket P (run P calls).1 c).2)
    rcases (run P calls).1.sendPacket_cases P c with hc | ⟨slot, -, -, -, hc⟩ | ⟨-, -, hc⟩
    · rw [hc, List.append_nil]
      exact ih
    · rw [hc]
      dsimp only
      rw [List.append_cons]
      exact (ih.takeSymbol (advance slot) slot (c.recv slot)).sendCreated P slot.val (c.recv slot)
    · rw [hc]
      exact ih.sendCreated P (-1) _

/-- The encoder keeps its totals exactly as long as 64 bits are enough for them. -/
theorem tallied_iff (P : RqParams) [NeZero n] (hn : n ≤ rxSlotCount) (calls : List (SendCall n)) :
    (ledger (run P calls)).Kept ↔
      bytes (ledger (run P calls)).taken < 2 ^ 64 ∧
        bytes (ledger (run P calls)).handed < 2 ^ 64 := by
  have h := tallies_run P calls
  have hrx : (ledger (run P calls)).getTotalRx = u64 (bytes (ledger (run P calls)).taken) :=
    h.rx.getTotal hn
  have htx : (ledger (run P calls)).getTotalTx = u64 (bytes (ledger (run P calls)).handed) :=
    h.tx.getTotal (by decide)
  constructor
  · intro hkept
    exact ⟨(u64_natCast_eq_iff _).mp (hrx.symm.trans hkept.rx),
      (u64_natCast_eq_iff _).mp (htx.symm.trans hkept.tx)⟩
  · rintro ⟨hr, ht⟩
    exact ⟨hrx.trans ((u64_natCast_eq_iff _).mpr hr), htx.trans ((u64_natCast_eq_iff _).mpr ht),
      congrArg _ h.trace⟩

end RqEncoder

/-! ### The decoder -/

namespace RqDecoder

/-- The packet that an event takes from the RX socket. -/
def Event.taken? : Event n → Option Packet
  | .rxTrace pkt => some pkt
  | _ => none

/-- The packet, filled with zeros, that an event hands to a TX socket and reports on the Tx
trace. -/
def Event.traced? : Event n → Option Packet
  | .txTrace _ amount => some (List.replicate amount 0)
  | _ => none

/-- The ledger of a decoder.  No method of `RqDecoder` writes `m_rxSlots[i].total`. -/
def ledger (d : RqDecoder n) (evs : List (Event n)) : Ledger where
  rxTotal := slotTotals fun _ : Fin RqEncoder.rxSlotCount => 0
  txTotal := slotTotals d.txTotal
  taken := evs.filterMap Event.taken?
  handed := evs.filterMap Event.traced?
  traced := evs.filterMap Event.traced?

/-- A decoder reports no bytes received. -/
lemma getTotalRx_ledger (d : RqDecoder n) (evs : List (Event n)) :
    (ledger d evs).getTotalRx = 0 :=
  getTotal_slotTotals_zero _ _

/-- Only the report on a packet takes one. -/
lemma taken_rxTrace (pkt : Packet) {evs : List (Event n)} (h : ∀ e ∈ evs, e.taken? = none) :
    (Event.rxTrace pkt :: evs).filterMap Event.taken? = [pkt] := by
  change pkt :: evs.filterMap Event.taken? = [pkt]
  rw [List.filterMap_eq_nil_iff.mpr h]

/-- Reading a packet takes it, and it is not empty. -/
lemma taken_receive {P : RqParams} {d d' : RqDecoder n} {pkt : Packet} {evs : List (Event n)}
    (h : receive P d pkt = some (d', evs)) : evs.filterMap Event.taken? = [pkt] ∧ pkt ≠ [] := by
  obtain ⟨hdr, size, hpeek, hcases⟩ := receive_eq_some h
  have hne : pkt ≠ [] := by
    rintro rfl
    have hnone : RqHeader.peek [] = none := rfl
    rw [hnone] at hpeek
    cases hpeek
  refine ⟨?_, hne⟩
  rcases hcases with ⟨-, -, rfl⟩ | ⟨-, c, slot, evs', hcount, rfl⟩
  · rfl
  · have hleave : ∀ e ∈ (if d.sbid < sbidOf P hdr.seqno then d.leaveBlock P else []),
        e.taken? = none := by
      intro e he
      unfold leaveBlock at he
      split at he
      · split at he
        · rw [List.mem_singleton.mp he]
          rfl
        · cases he
      · cases he
    have hcounted : ∀ e ∈ evs', e.taken? = none := by
      intro e he
      rw [← (Prod.mk.inj hcount).2] at he
      rcases mem_count he with ⟨info, rfl⟩ | ⟨i, symbols, rfl⟩ <;> rfl
    apply taken_rxTrace
    intro e he
    rcases List.mem_append.mp he with he | he
    · exact hleave e he
    · exact hcounted e he

/-- A run takes the packets it reads, and none of them is empty. -/
lemma taken_run {P : RqParams} {steps : List (Step n)} {d : RqDecoder n} {evs : List (Event n)}
    (h : run P steps = (some d, evs)) :
    evs.filterMap Event.taken? = received steps ∧ ∀ pkt ∈ received steps, pkt ≠ [] := by
  induction steps using List.reverseRecOn generalizing d evs with
  | nil =>
    cases h
    exact ⟨rfl, fun pkt hpkt => by cases hpkt⟩
  | append_singleton steps s ih =>
    obtain ⟨d₀, evs₀, evs₁, hrun, hstep, rfl⟩ := run_concat_eq_some h
    obtain ⟨htaken, hne⟩ := ih hrun
    cases s with
    | recv pkt =>
      cases hrecv : receive P d₀ pkt with
      | none => simp only [step, hrecv, Prod.mk.injEq, reduceCtorEq, false_and] at hstep
      | some r =>
        obtain ⟨htaken', hpkt⟩ := taken_receive hrecv
        rw [step_of_receive hrecv] at hstep
        obtain ⟨-, rfl⟩ := Prod.mk.inj hstep
        rw [received_concat_recv, List.filterMap_append, htaken, htaken']
        refine ⟨rfl, fun x hx => ?_⟩
        rcases List.mem_append.mp hx with hx | hx
        · exact hne x hx
        · rw [List.mem_singleton.mp hx]
          exact hpkt
    | tryToSend slot txAvailable =>
      have hquiet : ∀ e ∈ evs₁, e.taken? = none := by
        intro e he
        rw [← (Prod.mk.inj hstep).2] at he
        obtain ⟨amount, rfl⟩ := mem_tryToSend he
        rfl
      rw [received_concat_tryToSend, List.filterMap_append, htaken,
        List.filterMap_eq_nil_iff.mpr hquiet, List.append_nil]
      exact ⟨rfl, hne⟩

/-- Without a packet nothing is ever buffered, and so nothing is sent. -/
lemma run_of_received_eq_nil (P : RqParams) {steps : List (Step n)} (h : received steps = []) :
    run P steps = (some (init n), []) := by
  induction steps using List.reverseRecOn with
  | nil => rfl
  | append_singleton steps s ih =>
    cases s with
    | recv pkt =>
      rw [received_concat_recv] at h
      exact absurd h (by simp)
    | tryToSend slot txAvailable =>
      rw [received_concat_tryToSend] at h
      have hrun := ih h
      rw [run_concat_of_step (d := init n) (by rw [hrun]) rfl, hrun]
      rcases txAvailable with _ | txavail <;> rfl

/-- The decoder keeps its totals exactly as long as it receives nothing. -/
theorem untouched_iff (P : RqParams) {steps : List (Step n)} {d : RqDecoder n}
    {evs : List (Event n)}
    (h : run P steps = (some d, evs)) : (ledger d evs).Kept ↔ received steps = [] := by
  constructor
  · intro hkept
    have hzero : bytes (evs.filterMap Event.taken?) = 0 := by
      have hrx := hkept.rx
      rw [getTotalRx_ledger] at hrx
      exact hrx.symm
    obtain ⟨htaken, hne⟩ := taken_run h
    rw [htaken] at hzero
    refine List.eq_nil_iff_forall_not_mem.mpr fun pkt hpkt => hne pkt hpkt ?_
    have hle := List.le_sum_of_mem (List.mem_map_of_mem (f := List.length) hpkt)
    rw [← bytes, hzero] at hle
    exact List.length_eq_zero_iff.mp (Nat.le_zero.mp hle)
  · intro hnil
    rw [run_of_received_eq_nil P hnil] at h
    cases h
    exact ⟨rfl, getTotal_slotTotals_zero n txSlotCount, rfl⟩

end RqDecoder

/-! ### The timed proxy -/

namespace TimedProxy

/-- The packet that an event takes from an RX socket. -/
def Event.taken? : Event → Option Packet
  | .rxTrace _ pkt => some pkt
  | .send _ _ => none

/-- The ledger of a timed proxy, which has one TX slot.  `SendNextPacket` does not fire the Tx
trace.
-/
def ledger (p : TimedProxy) (evs : List Event) : Ledger where
  rxTotal := slotTotals p.rxTotal
  txTotal := slotTotals fun _ : Fin 1 => p.txTotal
  taken := evs.filterMap Event.taken?
  handed := (sends evs).map Prod.snd
  traced := []

/-- The bytes of packets, as the counter of the proxy converts them to `int`. -/
def intBytes (packets : List Packet) : ℤ := (packets.map fun packet => i32 packet.length).sum

lemma intBytes_cons (packet : Packet) (packets : List Packet) :
    intBytes (packet :: packets) = i32 packet.length + intBytes packets := List.sum_cons

lemma intBytes_append (packets more : List Packet) :
    intBytes (packets ++ more) = intBytes packets + intBytes more := by
  simp [intBytes]

/-- Below `2 ^ 31` bytes the conversion keeps the size. -/
lemma intBytes_eq {packets : List Packet} (h : ∀ packet ∈ packets, packet.length < 2 ^ 31) :
    intBytes packets = bytes packets := by
  induction packets with
  | nil => rfl
  | cons packet packets ih =>
    have hpacket := (i32_natCast_eq_iff _).mpr (h packet List.mem_cons_self)
    rw [intBytes_cons, ih fun x hx => h x (List.mem_cons_of_mem _ hx), hpacket,
      ← List.singleton_append,
      bytes_append, bytes_singleton, Nat.cast_add]

/-- Reading packets counts them. -/
lemma counts_countRx {rxTotal : Fin RqEncoder.rxSlotCount → ℕ} {total : ℤ}
    (h : Counts rxTotal total) (slot : Fin RqEncoder.rxSlotCount) (packets : List Packet) :
    Counts (packets.foldl (countRx slot) rxTotal) (total + intBytes packets) := by
  induction packets generalizing rxTotal total with
  | nil => simpa [intBytes] using h
  | cons packet packets ih =>
    have hone : Counts (countRx slot rxTotal packet) (total + i32 packet.length) := by
      unfold countRx
      exact h.update slot _
    rw [intBytes_cons, ← add_assoc, List.foldl_cons]
    exact ih hone

/-- The reports on packets read take these packets. -/
lemma taken_map_rxTrace (slot : Fin RqEncoder.rxSlotCount) (packets : List Packet) :
    (packets.map (Event.rxTrace slot)).filterMap Event.taken? = packets := by
  rw [List.filterMap_map]
  exact List.filterMap_some

/-- What a proxy has counted and sent. -/
structure Tallies (steps : List Step) (p : TimedProxy) (evs : List Event) : Prop where
  /-- The packets taken are those received. -/
  taken : evs.filterMap Event.taken? = received steps
  /-- The bytes received. -/
  rx : Counts p.rxTotal (intBytes (received steps))
  /-- A packet is sent at every expiry of the timer. -/
  sends : sends evs = [] ↔ ∀ ev, Step.sendNextPacket ev ∉ steps
  /-- Before the first expiry nothing is counted as sent. -/
  tx : (∀ ev, Step.sendNextPacket ev ∉ steps) → p.txTotal = 0

/-- One more step reads its packets. -/
lemma received_concat (steps : List Step) (i : Step) :
    received (steps ++ [i]) = received steps ++ i.packets := by
  simp [received]

section Transitions

variable {P : TimedProxyParams} {steps : List Step} {p : TimedProxy} {evs : List Event}
  (h : Tallies steps p evs)

include h

/-- Starting and stopping change no counter. -/
lemma Tallies.idle {i : Step} (hpackets : i.packets = []) (hi : ∀ ev, i ≠ .sendNextPacket ev)
    {p' : TimedProxy} (hrx : p'.rxTotal = p.rxTotal) (htx : p'.txTotal = p.txTotal) :
    Tallies (steps ++ [i]) p' evs := by
  have hexpiry : (∀ ev, Step.sendNextPacket ev ∉ steps ++ [i]) ↔
      ∀ ev, Step.sendNextPacket ev ∉ steps := by
    simp [fun ev => (hi ev).symm]
  constructor
  · rw [received_concat, hpackets, List.append_nil]
    exact h.taken
  · rw [received_concat, hpackets, List.append_nil, hrx]
    exact h.rx
  · rw [hexpiry]
    exact h.sends
  · rw [hexpiry, htx]
    exact h.tx

/-- Reading packets counts them. -/
lemma Tallies.read (t : ℕ) (slot : Fin RqEncoder.rxSlotCount) (packets : List Packet)
    {p' : TimedProxy} (hrx : p'.rxTotal = packets.foldl (countRx slot) p.rxTotal)
    (htx : p'.txTotal = p.txTotal) :
    Tallies (steps ++ [.handleRead t slot packets]) p' (evs ++ packets.map (.rxTrace slot)) := by
  have hexpiry : (∀ ev, Step.sendNextPacket ev ∉ steps ++ [.handleRead t slot packets]) ↔
      ∀ ev, Step.sendNextPacket ev ∉ steps := by
    simp
  constructor
  · rw [received_concat, List.filterMap_append, h.taken, taken_map_rxTrace]
    rfl
  · rw [received_concat, intBytes_append, hrx]
    exact counts_countRx h.rx slot packets
  · rw [hexpiry, sends_append, sends_map_rxTrace, List.append_nil]
    exact h.sends
  · rw [hexpiry, htx]
    exact h.tx

/-- At an expiry a packet is sent. -/
lemma Tallies.send (ev : EventId) (packet : Packet) {p' : TimedProxy}
    (hrx : p'.rxTotal = p.rxTotal) :
    Tallies (steps ++ [.sendNextPacket ev]) p' (evs ++ [.send ev.time packet]) := by
  have hexpiry : ¬∀ ev', Step.sendNextPacket ev' ∉ steps ++ [.sendNextPacket ev] :=
    fun hno => hno ev (by simp)
  constructor
  · have htaken : (evs ++ [Event.send ev.time packet]).filterMap Event.taken? =
        evs.filterMap Event.taken? := by
      rw [List.filterMap_append]
      exact List.append_nil _
    rw [received_concat, htaken, h.taken]
    exact (List.append_nil _).symm
  · rw [received_concat, hrx]
    change Counts p.rxTotal (intBytes (received steps ++ []))
    rw [List.append_nil]
    exact h.rx
  · refine iff_of_false ?_ hexpiry
    rw [sends_append]
    exact List.append_ne_nil_of_right_ne_nil _ (List.cons_ne_nil _ _)
  · exact fun hno => absurd hno hexpiry

/-- **Transitions keep the tallies.** -/
theorem Tallies.transition {i : Step} {p' : TimedProxy} {evs' : List Event}
    (ht : Transition P p i p' evs') : Tallies (steps ++ [i]) p' (evs ++ evs') := by
  cases ht with
  | start t =>
    rw [List.append_nil]
    exact h.idle rfl (fun _ hi => by cases hi) rfl rfl
  | stop t =>
    rw [List.append_nil]
    exact h.idle rfl (fun _ hi => by cases hi) rfl rfl
  | enqueue t slot packets hbusy => exact h.read t slot packets rfl rfl
  | wake t slot packets txtime hidle hpackets htime => exact h.read t slot packets rfl rfl
  | sendLast ev packet hstore => exact h.send ev packet rfl
  | sendNext ev packet rest nextTime hstore hrest htime => exact h.send ev packet rfl

end Transitions

/-- **Every run of a proxy keeps the tallies.** -/
theorem tallies_run {P : TimedProxyParams} {steps : List Step} (hf : Feasible P steps)
    {p : TimedProxy} {evs : List Event} (h : run P steps = (.ok p, evs)) :
    Tallies steps p evs :=
  run_invariant (I := Tallies) hf
    ⟨rfl, counts_zero _, iff_of_true rfl (fun _ => List.not_mem_nil), fun _ => rfl⟩
    (fun _ _ _ _ _ _ _ _ _ hI ht => hI.transition ht) h

/-- The proxy keeps its totals exactly as long as it sends nothing, when no packet has `2 ^ 31`
bytes and 64 bits are enough for the total. -/
theorem silent_iff {P : TimedProxyParams} {steps : List Step} (hf : Feasible P steps)
    (hsize : ∀ packet ∈ received steps, packet.length < 2 ^ 31) {p : TimedProxy}
    {evs : List Event} (h : run P steps = (.ok p, evs)) :
    (ledger p evs).Kept ↔
      bytes (received steps) < 2 ^ 64 ∧ ∀ ev, Step.sendNextPacket ev ∉ steps := by
  have htallies := tallies_run hf h
  have hrx : (ledger p evs).getTotalRx = u64 (bytes (received steps)) := by
    rw [← intBytes_eq hsize]
    exact htallies.rx.getTotal le_rfl
  have htaken : (ledger p evs).taken = received steps := htallies.taken
  constructor
  · intro hkept
    have hsum := hkept.rx
    rw [hrx, htaken] at hsum
    refine ⟨(u64_natCast_eq_iff _).mp hsum, htallies.sends.mp ?_⟩
    exact List.map_eq_nil_iff.mp hkept.trace.symm
  · rintro ⟨hbytes, hno⟩
    have hsends := htallies.sends.mpr hno
    constructor
    · rw [hrx, htaken]
      exact (u64_natCast_eq_iff _).mpr hbytes
    · have htotal : (ledger p evs).txTotal = slotTotals fun _ : Fin 1 => 0 := by
        rw [← htallies.tx hno]
        rfl
      rw [Ledger.getTotalTx, htotal, getTotal_slotTotals_zero, ledger, hsends]
      rfl
    · rw [ledger, hsends]
      rfl

end TimedProxy

/-! ### The proxy applications -/

/-- **Which proxy application keeps its totals.** In every state that a run reaches: the encoder's
totals are the bytes of the packets taken and handed on, with one Tx trace for each, exactly as long
as 64 bits are enough for them (`RqEncoder.tallied_iff`); the decoder's exactly as long as it
receives nothing (`RqDecoder.untouched_iff`); and the timed proxy's, for packets below `2 ^ 31`
bytes, exactly as long as it sends nothing and 64 bits are enough (`TimedProxy.silent_iff`). -/
theorem kept_iff (n : ℕ) :
    (∀ [NeZero n] (P : RqParams) (calls : List (SendCall n)), n ≤ RqEncoder.rxSlotCount →
      ((RqEncoder.ledger (RqEncoder.run P calls)).Kept ↔
        bytes (RqEncoder.ledger (RqEncoder.run P calls)).taken < 2 ^ 64 ∧
          bytes (RqEncoder.ledger (RqEncoder.run P calls)).handed < 2 ^ 64)) ∧
    (∀ (P : RqParams) (steps : List (RqDecoder.Step n)) (d : RqDecoder n)
      (evs : List (RqDecoder.Event n)), RqDecoder.run P steps = (some d, evs) →
      ((RqDecoder.ledger d evs).Kept ↔ RqDecoder.received steps = [])) ∧
    ∀ (P : TimedProxyParams) (steps : List TimedProxy.Step) (p : TimedProxy)
      (evs : List TimedProxy.Event), TimedProxy.Feasible P steps →
      (∀ packet ∈ TimedProxy.received steps, packet.length < 2 ^ 31) →
      TimedProxy.run P steps = (.ok p, evs) →
      ((TimedProxy.ledger p evs).Kept ↔
        bytes (TimedProxy.received steps) < 2 ^ 64 ∧
          ∀ ev, TimedProxy.Step.sendNextPacket ev ∉ steps) := by
  refine ⟨?_, ?_, ?_⟩
  · intro _ P calls hn
    exact RqEncoder.tallied_iff P hn calls
  · intro P steps d evs h
    exact RqDecoder.untouched_iff P h
  · intro P steps p evs hf hsize h
    exact TimedProxy.silent_iff hf hsize h

/-- The encoder takes a symbol of one byte and hands it on with its header, and the proxy takes a
packet of one byte. -/
theorem kept_iff_source :
    (∃ (P : RqParams) (calls : List (SendCall 1)),
      (RqEncoder.sent P calls).length = 1 ∧ (RqEncoder.ledger (RqEncoder.run P calls)).Kept) ∧
    (∃ (P : RqParams) (steps : List (RqDecoder.Step 1)) (d : RqDecoder 1)
      (evs : List (RqDecoder.Event 1)), RqDecoder.run P steps = (some d, evs) ∧
      (RqDecoder.ledger d evs).Kept) ∧
    ∃ (steps : List TimedProxy.Step) (p : TimedProxy) (evs : List TimedProxy.Event),
      TimedProxy.received steps = [[1]] ∧ TimedProxy.run .defaults steps = (.ok p, evs) ∧
      (TimedProxy.ledger p evs).Kept := by
  let P : RqParams := { kval := 1, nval := 1, tval := 1 }
  let calls := List.replicate 1 (SendCall.ready P 1)
  let steps : List (RqDecoder.Step 1) := [.tryToSend 0 (some 1)]
  let moves : List TimedProxy.Step := [.startApplication 0, .handleRead 0 0 [[1]]]
  have hok : ∃ p evs, TimedProxy.run .defaults moves = (.ok p, evs) := ⟨_, _, rfl⟩
  obtain ⟨p, evs, hrun⟩ := hok
  obtain ⟨hencoder, hdecoder, hproxy⟩ := kept_iff 1
  refine ⟨⟨P, calls, by decide +kernel, ?_⟩, ⟨P, steps, RqDecoder.init 1, [], rfl, ?_⟩,
    ⟨moves, p, evs, rfl, hrun, ?_⟩⟩
  · exact (hencoder P calls (by decide)).mpr ⟨by decide +kernel, by decide +kernel⟩
  · exact (hdecoder P steps _ _ rfl).mpr rfl
  · refine (hproxy .defaults moves p evs (by decide +kernel) (by decide +kernel) hrun).mpr
      ⟨by decide +kernel, ?_⟩
    exact fun ev hmem => by simp [moves] at hmem

/-- **Two proxy applications do not keep their totals.** The decoder has received a packet and its
total is 0; the timed proxy has sent a packet and has not traced it. -/
theorem not_kept :
    (¬∀ (P : RqParams) (calls : List (SendCall 1)) (steps : List (RqDecoder.Step 1))
      (d : RqDecoder 1) (evs : List (RqDecoder.Event 1)), RqDecoder.ReadsSent P calls steps →
      RqDecoder.run P steps = (some d, evs) → (RqDecoder.ledger d evs).Kept) ∧
    ¬∀ (P : TimedProxyParams) (steps : List TimedProxy.Step) (p : TimedProxy)
      (evs : List TimedProxy.Event), TimedProxy.Feasible P steps →
      TimedProxy.run P steps = (.ok p, evs) → (TimedProxy.ledger p evs).Kept := by
  constructor
  · intro h
    let P : RqParams := { kval := 1, nval := 1, tval := 1 }
    let calls := List.replicate 1 (SendCall.ready P 1)
    let steps : List (RqDecoder.Step 1) := (RqEncoder.sent P calls).map fun x => .recv x.bytes
    have hreceived : RqDecoder.received steps = (RqEncoder.sent P calls).map TxPacket.bytes := by
      decide +kernel
    have hsteps : RqDecoder.ReadsSent P calls steps := by
      intro pkt hpkt
      rw [hreceived] at hpkt
      exact List.mem_map.mp hpkt
    have hsome : (RqDecoder.run P steps).1.isSome := by decide +kernel
    obtain ⟨d, hd⟩ := Option.isSome_iff_exists.mp hsome
    have hrun : RqDecoder.run P steps = (some d, (RqDecoder.run P steps).2) := Prod.ext hd rfl
    have hnil := (RqDecoder.untouched_iff P hrun).mp (h P calls steps d _ hsteps hrun)
    have hone : (RqDecoder.received steps).length = 1 := by decide +kernel
    rw [hnil] at hone
    cases hone
  · intro h
    let steps : List TimedProxy.Step :=
      [.startApplication 0, .handleRead 0 0 [[1]], .sendNextPacket ⟨0, 0⟩]
    have hok : ∃ p evs, TimedProxy.run .defaults steps = (.ok p, evs) := ⟨_, _, rfl⟩
    obtain ⟨p, evs, hrun⟩ := hok
    have hkept := h .defaults steps p evs (by decide +kernel) hrun
    have hsends : TimedProxy.sends (TimedProxy.run .defaults steps).2 = [(0, [1])] := by
      decide +kernel
    rw [hrun] at hsends
    have htrace : [] = (TimedProxy.sends evs).map Prod.snd := hkept.trace
    rw [hsends] at htrace
    cases htrace

end MeshSim
