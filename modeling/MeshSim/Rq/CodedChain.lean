import MeshSim.Proxy.ChainDelivery
import MeshSim.Rq.InOrder

/-!
# A coded stream over a chain of proxies

An encoder, a chain of timed proxies and a decoder, as they are connected in
`scripts/chainsim/sim_configs/rqtest/conf.in/apps.txt.php`.

The chain keeps the order of the packets, so that the decoder credits what it credits over a channel
in order (`coded_chain`).  When no link loses a packet, the transfer can be brought to an end at
which the decoder has credited every symbol that the encoder took (`coded_chain_completes`).
-/

namespace MeshSim

open RqDecoder

variable {n : ℕ} {P : RqParams} {Ps : List TimedProxyParams} {chainSteps : List ChainStep}
  {s : ChainSim} {out : List Packet}

/-- Packets on the wire, some of which are lost, are those of some of the packets. -/
lemma exists_sublist_of_map_bytes {pkts : List TxPacket}
    (h : out.Sublist (pkts.map TxPacket.bytes)) :
    ∃ ds : List TxPacket, ds.Sublist pkts ∧ out = ds.map TxPacket.bytes :=
  List.sublist_map_iff.mp h

/-- The packets that a chain has delivered are packets that were sent into it. -/
lemma sublist_delivered (hPs : ∀ Q ∈ Ps, Q.Searchable)
    (h : (ChainSim.init Ps).run chainSteps = some (s, out)) {pkts : List TxPacket}
    (hsent : ChainSim.sent chainSteps = pkts.map TxPacket.bytes) :
    ∃ ds : List TxPacket, ds.Sublist pkts ∧ out = ds.map TxPacket.bytes := by
  have hsub := ChainSim.sublist_run hPs h
  rw [hsent] at hsub
  exact exists_sublist_of_map_bytes ((List.sublist_append_left _ _).trans hsub)

/-- When all packets are received, all symbols are credited. -/
lemma symbolsCredited_of_all [NeZero n] (hn : n ≤ txSlotCount) (hK : P.kval < 2 ^ 31)
    (hN : P.nval < 2 ^ 31) {calls : List (SendCall n)}
    (hlen : (RqEncoder.sent P calls).length < 2 ^ 31) {steps : List (Step n)}
    (hsteps : received steps = (RqEncoder.sent P calls).map TxPacket.bytes) (b : ℕ) (i : Fin n) :
    symbolsCredited (RqDecoder.run P steps).2 b i = taken P (RqEncoder.sent P calls) b i := by
  rw [symbolsCredited_of_sublist hn hK hN hlen (List.Sublist.refl _) hsteps]
  have hall : (sourcePackets P (RqEncoder.sent P calls) b i).takeWhile
      (fun x => x ∈ RqEncoder.sent P calls) = sourcePackets P (RqEncoder.sent P calls) b i := by
    rw [List.takeWhile_eq_self_iff]
    exact fun x hx => decide_eq_true (List.mem_of_mem_filter hx)
  rw [hall, taken, ite_self]

/-- One is in the range of the attributes. -/
lemma one_range : 1 ≤ 1 ∧ 1 < 2 ^ 32 := by decide

/-- Two is in the range of the attributes. -/
lemma two_range : 1 ≤ 2 ∧ 2 < 2 ^ 32 := by decide

/-- Blocks of one source symbol and one repair symbol. -/
def oneOfTwo : RqParams where
  kval := 1
  nval := 2
  tval := 1
  kval_range := one_range
  nval_range := two_range
  tval_range := one_range

/-- The calls for one block. -/
def oneBlock : List (SendCall 1) := List.replicate 2 (SendCall.ready oneOfTwo 1)

/-- There is a slot. -/
lemma neZero_one : NeZero 1 := inferInstance

/-- The two packets of the block on the wire. -/
def oneBlockBytes : List Packet :=
  (@RqEncoder.sent 1 oneOfTwo neZero_one oneBlock).map TxPacket.bytes

/-- The packets are sent into a chain of two proxies. -/
def sendBlock : List ChainStep :=
  [.proxy 0 (.startApplication 0), .proxy 1 (.startApplication 0), .send 1 oneBlockBytes]

/-- The source packet is lost in front of the first proxy. -/
def lossyBlock : List ChainStep :=
  sendBlock ++ [.lose 2 0 0, .proxy 0 (.handleRead 5 0 (oneBlockBytes.drop 1)),
    .proxy 0 (.sendNextPacket ⟨5, 0⟩), .proxy 1 (.handleRead 6 0 (oneBlockBytes.drop 1)),
    .proxy 1 (.sendNextPacket ⟨20000000, 0⟩), .receive 20000000 1]

/-- The packets can be sent. -/
lemma exists_sendBlock :
    ∃ s, (ChainSim.init ChainSim.twoProxies).run sendBlock = some (s, []) ∧ s.chain.Running := by
  have hrun : ((ChainSim.init ChainSim.twoProxies).run sendBlock).map
      (fun r => (r.2, decide r.1.chain.Running)) = some ([], true) := by
    decide +kernel
  obtain ⟨⟨s, out⟩, hs, heq⟩ := Option.map_eq_some_iff.mp hrun
  obtain ⟨rfl, hrunning⟩ : out = [] ∧ decide s.chain.Running = true := by
    simpa only [Prod.mk.injEq] using heq
  exact ⟨s, hs, of_decide_eq_true hrunning⟩

/-- The repair packet can be delivered. -/
lemma exists_lossyBlock :
    ∃ s, (ChainSim.init ChainSim.twoProxies).run lossyBlock =
      some (s, oneBlockBytes.drop 1) := by
  have hrun : ((ChainSim.init ChainSim.twoProxies).run lossyBlock).map Prod.snd =
      some (oneBlockBytes.drop 1) := by
    decide +kernel
  obtain ⟨⟨s, out⟩, hs, rfl⟩ := Option.map_eq_some_iff.mp hrun
  exact ⟨s, hs⟩

/-- The bytes sent are those of the block. -/
lemma sent_sendBlock : ChainSim.sent sendBlock = oneBlockBytes := by
  decide +kernel

/-- **A coded stream over a chain.**  Let an encoder send into a chain of proxies whose links may
lose packets, and let a decoder receive what comes out.  The packets it receives are some of the
packets of the encoder, and at every moment the symbols credited to a stream for a source block are
all that the encoder took from it in the block, when at least `Kval` packets of the block are
received, and otherwise the longest prefix of them that is received. -/
theorem coded_chain [NeZero n] (hn : n ≤ txSlotCount) (hK : P.kval < 2 ^ 31)
    (hN : P.nval < 2 ^ 31) {calls : List (SendCall n)}
    (hlen : (RqEncoder.sent P calls).length < 2 ^ 31) (hPs : ∀ Q ∈ Ps, Q.Searchable)
    (h : (ChainSim.init Ps).run chainSteps = some (s, out))
    (hsent : ChainSim.sent chainSteps = (RqEncoder.sent P calls).map TxPacket.bytes)
    {steps : List (Step n)} (hsteps : received steps = out) :
    ∃ ds : List TxPacket, ds.Sublist (RqEncoder.sent P calls) ∧ out = ds.map TxPacket.bytes ∧
      ∀ (b : ℕ) (i : Fin n), symbolsCredited (RqDecoder.run P steps).2 b i =
        if P.kval ≤ (blockPackets P ds b).length then
          (taken P (RqEncoder.sent P calls) b i : ℤ)
        else
          ((sourcePackets P (RqEncoder.sent P calls) b i).takeWhile fun x => x ∈ ds).length := by
  obtain ⟨ds, hds, hout⟩ := sublist_delivered hPs h hsent
  exact ⟨ds, hds, hout, symbolsCredited_of_sublist hn hK hN hlen hds (hsteps.trans hout)⟩

/-- The repair packet stands in for the source packet. -/
theorem coded_chain_repair :
    ∃ ds : List TxPacket, ds.Sublist (RqEncoder.sent oneOfTwo oneBlock) ∧
      oneBlockBytes.drop 1 = ds.map TxPacket.bytes ∧
      ∀ (b : ℕ) (i : Fin 1), symbolsCredited
          (RqDecoder.run oneOfTwo ((oneBlockBytes.drop 1).map Step.recv)).2 b i =
        if oneOfTwo.kval ≤ (blockPackets oneOfTwo ds b).length then
          (taken oneOfTwo (RqEncoder.sent oneOfTwo oneBlock) b i : ℤ)
        else ((sourcePackets oneOfTwo (RqEncoder.sent oneOfTwo oneBlock) b i).takeWhile
          fun x => x ∈ ds).length := by
  obtain ⟨s, hs⟩ := exists_lossyBlock
  exact coded_chain (by decide) (by decide) (by decide) (by decide +kernel)
    (ChainSim.searchable_chainProxies 2 2 _ _ _) hs (by decide +kernel) (by decide +kernel)

/-- **A coded transfer completes.**  When no link has lost a packet and the proxies are running, the
run can be continued so that the decoder receives all packets of the encoder, and then it has
credited to every stream all symbols that the encoder took from it. -/
theorem coded_chain_completes [NeZero n] (hn : n ≤ txSlotCount) (hK : P.kval < 2 ^ 31)
    (hN : P.nval < 2 ^ 31) {calls : List (SendCall n)}
    (hlen : (RqEncoder.sent P calls).length < 2 ^ 31) (hPs : ∀ Q ∈ Ps, Q.Searchable)
    (h : (ChainSim.init Ps).run chainSteps = some (s, out))
    (hsent : ChainSim.sent chainSteps = (RqEncoder.sent P calls).map TxPacket.bytes)
    (hkept : ∀ j ∈ chainSteps, j.loses = false) (hrunning : s.chain.Running) :
    ∃ more s' out', (∀ j ∈ more, j.moves = true) ∧
      (ChainSim.init Ps).run (chainSteps ++ more) = some (s', out') ∧
      ∀ steps : List (Step n), received steps = out' →
        ∀ (b : ℕ) (i : Fin n), symbolsCredited (RqDecoder.run P steps).2 b i =
          taken P (RqEncoder.sent P calls) b i := by
  obtain ⟨more, s', hmoves, -, hdrain, -⟩ :=
    ChainSim.exists_drain (ChainSim.sound_run hPs h) hrunning
  have hall := ChainSim.append_contents_run hPs h hkept
  refine ⟨more, s', _, hmoves, PartialMealy.run_append h hdrain, fun steps hsteps => ?_⟩
  rw [hall, hsent] at hsteps
  exact symbolsCredited_of_all hn hK hN hlen hsteps

/-- The block can be delivered. -/
theorem coded_chain_completes_block :
    ∃ more s' out', (∀ j ∈ more, j.moves = true) ∧
      (ChainSim.init ChainSim.twoProxies).run (sendBlock ++ more) = some (s', out') ∧
      ∀ steps : List (Step 1), received steps = out' →
        ∀ (b : ℕ) (i : Fin 1), symbolsCredited (RqDecoder.run oneOfTwo steps).2 b i =
          taken oneOfTwo (RqEncoder.sent oneOfTwo oneBlock) b i := by
  obtain ⟨s, hs, hrunning⟩ := exists_sendBlock
  exact coded_chain_completes (by decide) (by decide) (by decide) (by decide +kernel)
    (ChainSim.searchable_chainProxies 2 2 _ _ _) hs sent_sendBlock (by decide) hrunning

end MeshSim
