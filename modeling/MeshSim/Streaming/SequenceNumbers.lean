import MeshSim.LossMonitor.Replay
import MeshSim.Streaming.OnOffApplication

/-!
# Sequence numbers of the streaming sender at the loss monitor

The sender counts its packets and constructs the header of each with its number, but the constructor
`RqHeader (uint64_t)` overwrites the number with zero.  So every packet reads back as valid with the
number zero, which is right for the first packet of a run only; and a monitor behind a transport
without loss, reordering and duplication takes all later packets for repeats of the first.
-/

namespace MeshSim

open AppRxCb MeshSimOnOffApplication

/-- The packet carries a header that reads back as valid with the sequence number `k`. -/
def ReadsBack (packet : Packet) (k : ℕ) : Prop :=
  ∃ hdr size, RqHeader.peek packet = some (hdr, size) ∧ hdr.valid = true ∧ hdr.seqno = k

/-! ### Reading back -/

/-- The null header has the fields of a header. -/
lemma wf_null : (RqHeader.ofSeqno 0).Wf where
  seqno_lt := by decide
  streamid_range := by decide
  iseq_range := fun _ hx => by cases hx
  iseq_length := by decide

/-- Reading back the header of a packet. -/
lemma peek_headedPacket (pktSize : ℕ) :
    RqHeader.peek (headedPacket pktSize) =
      some ({ RqHeader.ofSeqno 0 with valid := true }, RqHeader.minSerializedSize) :=
  RqHeader.deserialize_serialize wf_null _ _

/-- **Every packet has the number zero.** -/
lemma readsBack_headedPacket_iff (pktSize k : ℕ) : ReadsBack (headedPacket pktSize) k ↔ k = 0 := by
  constructor
  · rintro ⟨hdr, size, hpeek, -, hseqno⟩
    rw [peek_headedPacket] at hpeek
    obtain ⟨rfl, rfl⟩ := Prod.mk.inj (Option.some.inj hpeek)
    exact hseqno.symm
  · rintro rfl
    exact ⟨_, _, peek_headedPacket pktSize, rfl, rfl⟩

/-- A packet is no shorter than its header. -/
lemma minSerializedSize_le_headedPacket (pktSize : ℕ) :
    RqHeader.minSerializedSize ≤ (headedPacket pktSize).length := by
  rw [headedPacket, List.length_append, RqHeader.length_serialize wf_null]
  exact Nat.le_add_right _ _

/-- The monitor reads the packets of the sender. -/
lemma readable_headedPacket (pktSize : ℕ) : readable (headedPacket pktSize) := by
  rw [readable, peek_headedPacket, Option.isSome_some, Bool.or_true]

/-- What arrives at the monitor. -/
lemma arrivals_replicate (n pktSize : ℕ) :
    arrivals (List.replicate n (headedPacket pktSize)) = List.replicate n 0 := by
  have hseqno : seqno? (headedPacket pktSize) = some 0 := by
    rw [seqno?, if_neg (not_lt.mpr (minSerializedSize_le_headedPacket pktSize)), peek_headedPacket]
    rfl
  induction n with
  | zero => rfl
  | succ n ih =>
    rw [List.replicate_succ, arrivals, List.filterMap_cons_some hseqno, ← arrivals, ih]
    rfl

/-! ### The monitor -/

/-- The window pops zeros. -/
lemma popped_replicate {N : ℕ} (hN : 0 < N) (n : ℕ) :
    popped N (List.replicate n 0) = List.replicate (n - N) 0 := by
  refine List.eq_replicate_iff.mpr ⟨?_, fun x hx => ?_⟩
  · rw [popped, PriorityWindow.length_run hN, List.length_replicate]
  · exact List.eq_of_mem_replicate (PriorityWindow.mem_of_mem_run hN hx)

/-- Zeros behind a zero are repeats. -/
lemma log_replay_zeros (n : ℕ) :
    log (replay 0 (List.replicate n 0)) = List.replicate n (.dup 0) := by
  induction n with
  | zero => rfl
  | succ n ih =>
    rw [List.replicate_succ, replay_cons, log_cons, max_self, ih]
    rfl

/-- The first zero is logged as nothing. -/
lemma log_replay_replicate (n : ℕ) :
    log (replay (-1) (List.replicate n 0)) = List.replicate (n - 1) (.dup 0) := by
  cases n with
  | zero => rfl
  | succ n =>
    rw [List.replicate_succ, replay_cons, log_cons, max_eq_right (by decide), log_replay_zeros]
    rfl

/-- What the monitor logs behind the sender. -/
lemma run_headedPackets {N : ℕ} (hN : 1 ≤ N) (n pktSize : ℕ) :
    ∃ m pops, (AppRxCb.init true N).run (List.replicate n (headedPacket pktSize)) = some (m, pops) ∧
      log pops = List.replicate (n - N - 1) (.dup 0) := by
  have hread : ∀ packet ∈ List.replicate n (headedPacket pktSize), readable packet := by
    intro packet hpacket
    rw [List.eq_of_mem_replicate hpacket]
    exact readable_headedPacket pktSize
  have hlt : ∀ x ∈ arrivals (List.replicate n (headedPacket pktSize)), x < 2 ^ 63 := by
    intro x hx
    rw [arrivals_replicate] at hx
    rw [List.eq_of_mem_replicate hx]
    decide
  obtain ⟨m, hrun, -, -⟩ := run_eq_replay hN hread hlt
  refine ⟨m, _, hrun, ?_⟩
  rw [arrivals_replicate, popped_replicate hN, List.map_replicate]
  exact log_replay_replicate (n - N)

/-! ### Runs -/

/-- **When the sequence numbers of a run are right.** A packet that a datagram sender hands to its
socket reads back as valid with its number exactly when it is the first one; and a monitor with a
window of `N` numbers to which the run is delivered in order logs nothing exactly when the send
timer expires at most `N + 1` times. -/
theorem sequence_numbers_iff {pktSize maxBytes : ℕ} {events : List OnOffEvent}
    {a : MeshSimOnOffApplication} {sent : List Packet}
    (hrun : (MeshSimOnOffApplication.init true pktSize maxBytes).run events = some (a, sent)) :
    sent.length = events.count .sendPacket ∧
      (∀ k (h : k < sent.length), ReadsBack sent[k] k ↔ k = 0) ∧
      ∀ N, 1 ≤ N → ∃ m pops, (AppRxCb.init true N).run sent = some (m, pops) ∧
        (log pops = [] ↔ events.count .sendPacket ≤ N + 1) := by
  obtain ⟨hsent, -⟩ := run_sent rfl hrun
  refine ⟨by rw [hsent, List.length_replicate], fun k h => ?_, fun N hN => ?_⟩
  · subst hsent
    rw [List.getElem_replicate]
    exact readsBack_headedPacket_iff _ k
  · obtain ⟨m, pops, hmonitor, hlog⟩ := run_headedPackets hN (events.count .sendPacket) pktSize
    rw [← show sent = List.replicate _ (headedPacket pktSize) from hsent] at hmonitor
    refine ⟨m, pops, hmonitor, ?_⟩
    rw [hlog, List.replicate_eq_nil_iff]
    omega

/-- Three packets of four bytes. -/
theorem sequence_numbers_iff_three :
    ∃ a sent, (MeshSimOnOffApplication.init true 4 0).run
        [.startApplication, .startSending, .sendPacket, .sendPacket, .sendPacket] =
          some (a, sent) ∧ sent.length = 3 ∧
      (∀ k (h : k < sent.length), ReadsBack sent[k] k ↔ k = 0) ∧
      ∃ m pops, (AppRxCb.init true 1).run sent = some (m, pops) ∧ log pops ≠ [] := by
  cases hrun : (MeshSimOnOffApplication.init true 4 0).run
      [.startApplication, .startSending, .sendPacket, .sendPacket, .sendPacket] with
  | none => exact absurd hrun (by decide +kernel)
  | some r =>
    obtain ⟨a, sent⟩ := r
    obtain ⟨hlength, hreads, hmonitor⟩ := sequence_numbers_iff hrun
    obtain ⟨m, pops, hpops, hlog⟩ := hmonitor 1 le_rfl
    exact ⟨a, sent, rfl, hlength, hreads, m, pops, hpops, fun h => absurd (hlog.mp h) (by decide)⟩

/-- Sender and monitor do not agree: the second packet of a run has the number of the first. -/
theorem not_sequence_numbers :
    ¬∀ (pktSize maxBytes : ℕ) (events : List OnOffEvent) (a : MeshSimOnOffApplication)
        (sent : List Packet),
      (MeshSimOnOffApplication.init true pktSize maxBytes).run events = some (a, sent) →
      (∀ k (h : k < sent.length), ReadsBack sent[k] k) ∧
        ∀ N, 1 ≤ N → ∀ m pops, (AppRxCb.init true N).run sent = some (m, pops) → log pops = [] := by
  intro hclaim
  cases hrun : (MeshSimOnOffApplication.init true 512 0).run
      [.startApplication, .startSending, .sendPacket, .sendPacket] with
  | none => exact absurd hrun (by decide +kernel)
  | some r =>
    obtain ⟨a, sent⟩ := r
    obtain ⟨hsent, -⟩ := run_sent rfl hrun
    have hreads := (hclaim 512 0 _ a sent hrun).1 1
    subst hsent
    have := hreads (by decide)
    rw [List.getElem_replicate] at this
    exact absurd ((readsBack_headedPacket_iff _ 1).mp this) (by decide)

end MeshSim
