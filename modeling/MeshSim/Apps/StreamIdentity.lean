import MeshSim.Apps.Wiring
import MeshSim.Rq.HeaderStream
import MeshSim.Rq.HeaderWire
import MeshSim.Rq.SendSide

/-!
# Stream identity through an encoder and a decoder

The index of a stream is nowhere in a configuration.  It is the position of a sender in the connect
statement to the encoder, from there the number of an RX slot, the stream id in the headers, the
number of a TX slot of the decoder, and the position of a receiver in the connect statement from the
decoder.  `RqPair.carriesStreams` follows it along all of these.

The connections of one statement are numbered consecutively (`exists_number`), so that its ports
differ; and the slots behind the last connection stay unset, which is what the loops that count the
slots at start-up rely on.
-/

namespace MeshSim

open PythonText Overwrite

/-! ### The connections of one statement -/

/-- **The connections of a statement are numbered consecutively**, and each is the last one through
the slots that only it uses. -/
lemma exists_number {conn : List AppConnectionConfig} {st : AppConnectionConfig} (hst : st ∈ conn)
    (hnodup : st.connections.Nodup) :
    ∃ base, ∀ (k : ℕ) (hk : k < st.connections.length) (p : Connection → Prop),
      p (st.connections[k]) →
      (∀ st' ∈ conn, ∀ y ∈ st'.connections, p y → st' = st ∧ y = st.connections[k]) →
      LastUse p (conn.flatMap AppConnectionConfig.connections) (base + k) (st.connections[k]) := by
  induction conn with
  | nil => cases hst
  | cons st₀ conn ih =>
    by_cases hmem : st ∈ conn
    · obtain ⟨base, hbase⟩ := ih hmem
      refine ⟨st₀.connections.length + base, fun k hk p hp honly => ?_⟩
      obtain ⟨before, after, heq, hlen, hrest⟩ :=
        hbase k hk p hp fun st' hst' => honly st' (List.mem_cons_of_mem _ hst')
      refine ⟨st₀.connections ++ before, after, ?_, ?_, hrest⟩
      · rw [List.flatMap_cons, heq, List.append_assoc]
      · rw [List.length_append, hlen, Nat.add_assoc]
    · obtain rfl : st = st₀ := (List.mem_cons.mp hst).resolve_right hmem
      refine ⟨0, fun k hk p hp honly => ?_⟩
      refine ⟨st.connections.take k, st.connections.drop (k + 1) ++
        conn.flatMap AppConnectionConfig.connections, ?_, ?_, hp, fun y hy hpy => ?_⟩
      · rw [List.flatMap_cons, ← List.cons_append, ← List.append_assoc, List.getElem_cons_drop,
          List.take_append_drop]
      · rw [List.length_take, Nat.zero_add]
        exact Nat.min_eq_left hk.le
      · rcases List.mem_append.mp hy with hy | hy
        · obtain ⟨-, rfl⟩ := honly st List.mem_cons_self y (List.mem_of_mem_drop hy) hpy
          obtain ⟨j, hj, heq⟩ := List.mem_drop_iff_getElem.mp hy
          have hidx := (hnodup.getElem_inj_iff).mp heq
          omega
        · obtain ⟨st', hst', hy⟩ := List.mem_flatMap.mp hy
          obtain ⟨rfl, -⟩ := honly st' (List.mem_cons_of_mem _ hst') y hy hpy
          exact hmem hst'

/-- The same for the connections of a statement given by their index. -/
lemma exists_number_ofFn {n : ℕ} {conn : List AppConnectionConfig} {st : AppConnectionConfig}
    {f : Fin n → Connection} (hst : st ∈ conn) (hf : st.connections = List.ofFn f)
    (hinj : Function.Injective f) :
    ∃ base, ∀ (k : Fin n) (p : Connection → Prop), p (f k) →
      (∀ st' ∈ conn, ∀ y ∈ st'.connections, p y → st' = st ∧ y = f k) →
      LastUse p (conn.flatMap AppConnectionConfig.connections) (base + k) (f k) := by
  obtain ⟨base, hbase⟩ := exists_number hst (by rw [hf]; exact List.nodup_ofFn.mpr hinj)
  refine ⟨base, fun k p hp honly => ?_⟩
  have hk : (k : ℕ) < st.connections.length := by
    rw [hf, List.length_ofFn]
    exact k.isLt
  have hget : st.connections[(k : ℕ)] = f k := by simp [hf]
  have hlast := hbase k hk p
  rw [hget] at hlast
  exact hlast hp honly

/-- A connection of a statement is between a sender and a receiver of it. -/
lemma AppConnectionConfig.tags_mem {st : AppConnectionConfig} {y : Connection}
    (hy : y ∈ st.connections) : y.tagTx ∈ st.senders ∧ y.tagRx ∈ st.receivers := by
  obtain ⟨r, hr, hy⟩ := List.mem_flatMap.mp hy
  obtain ⟨s, hs, rfl⟩ := List.mem_map.mp hy
  exact ⟨List.fst_mem_of_mem_zipIdx hs, List.fst_mem_of_mem_zipIdx hr⟩

/-- The connections of a statement with one receiver. -/
lemma connections_to_one {n : ℕ} (S : Fin n → List Char) (t : List Char) :
    (AppConnectionConfig.mk (List.ofFn S) [t]).connections =
      List.ofFn fun k => ⟨S k, t, k, 0⟩ := by
  refine List.ext_getElem ?_ fun k hk _ => ?_
  · simp [AppConnectionConfig.connections, AppConnectionConfig.connectionsTo]
  · simp [AppConnectionConfig.connections, AppConnectionConfig.connectionsTo]

/-- The connections of a statement with one sender. -/
lemma connections_from_one {n : ℕ} (t : List Char) (R : Fin n → List Char) :
    (AppConnectionConfig.mk [t] (List.ofFn R)).connections =
      List.ofFn fun k => ⟨t, R k, 0, k⟩ := by
  have hmap : (AppConnectionConfig.mk [t] (List.ofFn R)).connections =
      (List.ofFn R).zipIdx.map fun r => ⟨t, r.1, 0, r.2⟩ := by
    rw [List.map_eq_flatMap]
    rfl
  rw [hmap]
  refine List.ext_getElem ?_ fun k hk _ => ?_ <;> simp

/-! ### The slots of a proxy -/

namespace AppsManager

/-- `m_rxSlots[i].addr` of the app with a tag, as far as it was set. -/
def rxSlot (M : AppsManager) (tag : List Char) (i : ℕ) : Option AttributeValue :=
  M.attributes (tag, AttributeName.rxAddr ++ formatLong i)

/-- `m_txSlots[i].addr` of the app with a tag, as far as it was set. -/
def txSlot (M : AppsManager) (tag : List Char) (i : ℕ) : Option AttributeValue :=
  M.attributes (tag, AttributeName.txAddr ++ formatLong i)

section Slots

variable {A : AttributeTable} {addr2netdev : ℕ → Bool} {outDir : List Char}
  {cfg : AppsCompleteConfig} {r : AppsManager × List TraceFile}
  (hok : createApps A addr2netdev outDir cfg = .ok r)

include hok

/-- An attribute that no app line assigns and no connection writes stays unset. -/
lemma attributes_eq_none {p : Connection → Prop} {key : List Char × List Char}
    (hkey : ¬IsProto key.2) (happ : ∀ a ∈ cfg.app, key.1 = a.tag → ∀ x ∈ a.attribs, x.1 ≠ key.2)
    (hp : ∀ y n, y.Linked cfg.record n → (∃ w ∈ y.writes cfg.record n, w.1 = key) → p y)
    (hconn : ∀ y ∈ cfg.connections, ¬p y) : r.1.attributes key = none := by
  obtain ⟨-, hlinked, hattr⟩ := createApps_eq_ok hok
  rw [hattr key hkey, assign_of_forall_ne]
  · exact cfg.created_attributes_eq_none happ
  · intro w hw heq
    obtain ⟨y, hy, hw⟩ := List.mem_flatMap.mp hw
    exact hconn y.1 (List.fst_mem_of_mem_zipIdx hy) (hp y.1 y.2 (hlinked y hy) ⟨w, hw, heq⟩)

/-- An attribute of a receiver stays unset when no connection shares its slot. -/
lemma attributes_rxKey_eq_none {c : Connection} {key : List Char × List Char}
    (hkey : c.RxKey cfg.record key)
    (happ : ∀ a ∈ cfg.app, key.1 = a.tag → ∀ x ∈ a.attribs, x.1 ≠ key.2)
    (hconn : ∀ y ∈ cfg.connections, ¬Connection.SharesRx cfg.record c y) :
    r.1.attributes key = none :=
  attributes_eq_none hok (hkey.not_isProto (made_record cfg)) happ
    (fun _ _ hy hw => hkey.sharesRx_of_writes (made_record cfg) hy hw) hconn

/-- An attribute of a sender stays unset when no connection shares its slot. -/
lemma attributes_txKey_eq_none {c : Connection} {key : List Char × List Char}
    (hkey : c.TxKey cfg.record key)
    (happ : ∀ a ∈ cfg.app, key.1 = a.tag → ∀ x ∈ a.attribs, x.1 ≠ key.2)
    (hconn : ∀ y ∈ cfg.connections, ¬Connection.SharesTx cfg.record c y) :
    r.1.attributes key = none :=
  attributes_eq_none hok (hkey.not_isProto (made_record cfg)) happ
    (fun _ _ hy hw => hkey.sharesTx_of_writes (made_record cfg) hy hw) hconn

end Slots

/-- Where a decoder sends is the address of the TX slot. -/
lemma txSlot_of_destination {M : AppsManager} {c : Connection} {ip port : ℕ}
    (hport : (c.txNames M.records).port = [])
    (haddr : (c.txNames M.records).address = AttributeName.txAddr ++ formatLong c.rxIndex)
    (h : M.destination c = some (ip, port)) :
    M.txSlot c.tagTx c.rxIndex = some (.inetSocket ip port) := by
  rw [destination, if_neg (not_not.mpr hport), haddr] at h
  rw [txSlot]
  split at h
  · rename_i heq
    obtain ⟨rfl, rfl⟩ := Prod.mk.inj (Option.some.inj h)
    exact heq
  · cases h

/-- Where an encoder listens is the address of the RX slot. -/
lemma rxSlot_of_listening {M : AppsManager} {c : Connection} {port : ℕ}
    (hport : (c.rxNames M.records).port = [])
    (haddr : (c.rxNames M.records).address = AttributeName.rxAddr ++ formatLong c.txIndex)
    (h : M.listening c = some port) :
    M.rxSlot c.tagRx c.txIndex = some (.inetSocket anyAddress port) := by
  rw [listening, if_neg (not_not.mpr hport), haddr] at h
  rw [rxSlot]
  split at h
  · rename_i ip p heq
    split at h
    · rename_i hip
      rw [heq, hip, Option.some.inj h]
    · cases h
  · cases h

end AppsManager

/-! ### Counting the slots -/

namespace RqEncoder

/-- The slot loop stops at the first slot without an address. -/
lemma countRxSlots_eq {addrIsInvalid : ℕ → Bool} {n fuel i : ℕ} (hi : i ≤ n) (hn : n ≤ i + fuel)
    (hvalid : ∀ k, i ≤ k → k < n → addrIsInvalid k = false)
    (hinvalid : n < i + fuel → addrIsInvalid n = true) :
    countRxSlots addrIsInvalid fuel i = n := by
  induction fuel generalizing i with
  | zero =>
    rw [countRxSlots]
    omega
  | succ fuel ih =>
    rw [countRxSlots]
    rcases Nat.lt_or_eq_of_le hi with hlt | rfl
    · rw [hvalid i le_rfl hlt]
      refine ih hlt (by omega) (fun k hk => hvalid k (by omega)) fun h => hinvalid (by omega)
    · rw [if_pos (hinvalid (by omega))]

/-- An encoder starts with the slots it has counted. -/
lemma startApplication_of_count {addrIsInvalid : ℕ → Bool} {n : ℕ} [NeZero n]
    (h : countRxSlots addrIsInvalid rxSlotCount 0 = n) :
    startApplication addrIsInvalid = some ⟨n, init n⟩ := by
  subst h
  exact dif_neg (NeZero.ne _)

/-- What the header of a packet says of the streams: as many counts as there are slots, and a stream
id that is that of a slot or of a repair packet. -/
def StreamHeader (n : ℕ) (h : RqHeader) : Prop :=
  ∃ seqno streamid, ∃ counts : Fin n → ℕ, seqno < 2 ^ 64 ∧
    (streamid = -1 ∨ ∃ slot : Fin n, streamid = ((slot : ℕ) : ℤ)) ∧
    h = RqHeader.ofStream seqno streamid (List.ofFn counts)

/-- **Every packet an encoder sends** has such a header, whatever the sockets answer. -/
theorem streamHeader_sent {n : ℕ} [NeZero n] (P : RqParams) (calls : List (SendCall n)) :
    ∀ pkt ∈ sent P calls, StreamHeader n pkt.hdr := by
  refine Mealy.run_invariant (sendPacket P)
    (I := fun _ _ evs => ∀ pkt ∈ evs.filterMap Event.sent?, StreamHeader n pkt.hdr) calls
    (fun _ h => (List.not_mem_nil h).elim) ?_
  intro is c _ ih pkt hpkt
  rw [List.filterMap_append, List.mem_append] at hpkt
  have hcreated : ∀ (e : RqEncoder n) (streamid : ℤ) (payload : Packet),
      (streamid = -1 ∨ ∃ slot : Fin n, streamid = ((slot : ℕ) : ℤ)) →
      pkt ∈ (sendCreated P e streamid payload).2.filterMap Event.sent? →
      StreamHeader n pkt.hdr := by
    intro e streamid payload hstreamid hmem
    rw [sent_sendCreated, List.mem_singleton] at hmem
    subst hmem
    exact ⟨_, streamid, e.symbcounts, Nat.mod_lt _ (by norm_num), hstreamid, rfl⟩
  rcases hpkt with hpkt | hpkt
  · exact ih pkt hpkt
  · rcases sendPacket_cases P (Mealy.run (sendPacket P) (init n) is).1 c with
      heq | ⟨slot, -, -, -, heq⟩ | ⟨-, -, heq⟩
    · rw [heq] at hpkt
      exact (List.not_mem_nil hpkt).elim
    · rw [heq] at hpkt
      exact hcreated _ _ _ (Or.inr ⟨slot, rfl⟩) hpkt
    · rw [heq] at hpkt
      exact hcreated _ _ _ (Or.inl rfl) hpkt

end RqEncoder

namespace RqDecoder

/-- **A decoder with as many slots accepts the packet**: it is not malformed, the assertion on the
number of slots holds, and the stream id is that of a slot. -/
theorem receive_isSome {n : ℕ} (hn : n ≤ txSlotCount) (P : RqParams) (d : RqDecoder n)
    {pkt : TxPacket} (h : RqEncoder.StreamHeader n pkt.hdr) : (receive P d pkt.bytes).isSome := by
  obtain ⟨seqno, streamid, counts, hseqno, hstreamid, hhdr⟩ := h
  have hslots : txSlotCount = 8 := rfl
  have hrange : -2 ^ 31 ≤ streamid ∧ streamid < 2 ^ 31 := by
    rcases hstreamid with rfl | ⟨slot, rfl⟩
    · norm_num
    · have := slot.isLt
      omega
  have hw : (RqHeader.ofStream seqno streamid (List.ofFn counts)).Wf :=
    RqHeader.wf_ofStream hseqno hrange (by rw [List.length_ofFn]; omega)
  have hpeek : RqHeader.peek pkt.bytes = some (pkt.hdr, RqHeader.minSerializedSize +
      4 * pkt.hdr.iseqData.length) := by
    rw [hhdr, RqHeader.peek, TxPacket.bytes, hhdr, RqHeader.deserialize_serialize hw]
    rfl
  have hlen : pkt.hdr.iseqData.length = n := by
    rw [hhdr, RqHeader.ofStream, List.length_map, List.length_ofFn]
  have hvalid : pkt.hdr.valid = true := by
    rw [hhdr]
    rfl
  obtain ⟨slot, hslot⟩ : ∃ slot, addressed n pkt.hdr.iseqStreamid = some slot := by
    rw [hhdr]
    rcases hstreamid with rfl | ⟨slot, rfl⟩
    · exact ⟨none, rfl⟩
    · refine ⟨some slot, ?_⟩
      have hlt := slot.isLt
      change addressed n ((slot : ℕ) : ℤ) = _
      rw [addressed, if_neg (by omega), if_pos ⟨by omega, by omega⟩, dif_pos (by simp)]
      rfl
  have haccept : ∀ d : RqDecoder n, (accept P d pkt.hdr).isSome := by
    intro d
    rw [accept, dif_pos hlen, hslot]
    rfl
  rw [receive, hpeek]
  dsimp only
  rw [if_neg (by rw [hvalid]; simp), Option.isSome_map, decode]
  split
  · rw [Option.isSome_map]
    exact haccept _
  · split
    · rfl
    · exact haccept d

end RqDecoder

/-! ### An encoder and a decoder in a configuration -/

/-- The statement that connects the senders to the encoder. -/
def sendersStatement {n : ℕ} (S : Fin n → List Char) (E : List Char) : AppConnectionConfig :=
  ⟨List.ofFn S, [E]⟩

/-- The statement that connects two apps of the chain. -/
def hopStatement {m : ℕ} (via : Fin (m + 2) → List Char) (i : Fin (m + 1)) : AppConnectionConfig :=
  ⟨[via i.castSucc], [via i.succ]⟩

/-- The statement that connects the decoder to the receivers. -/
def receiversStatement {n : ℕ} (D : List Char) (R : Fin n → List Char) : AppConnectionConfig :=
  ⟨[D], List.ofFn R⟩

/-- The senders `S` are connected to an encoder, the receivers `R` to a decoder, and the two by the
chain `via`, which starts with the encoder and ends with the decoder.  The apps are different ones,
and endpoints of these statements only. -/
structure RqPair (cfg : AppsCompleteConfig) {n m : ℕ} (S : Fin n → List Char)
    (via : Fin (m + 2) → List Char) (R : Fin n → List Char) : Prop where
  /-- There are at most eight streams. -/
  streams : n ≤ 8
  /-- The chain starts with an encoder. -/
  encoder : ∃ R, cfg.record (via 0) = some R ∧ R.type = .rqEncoder
  /-- The chain ends with a decoder. -/
  decoder : ∃ R, cfg.record (via (Fin.last _)) = some R ∧ R.type = .rqDecoder
  /-- The senders are different. -/
  senders_inj : Function.Injective S
  /-- The apps of the chain are different. -/
  via_inj : Function.Injective via
  /-- The receivers are different. -/
  receivers_inj : Function.Injective R
  /-- No sender is in the chain. -/
  senders_ne : ∀ k i, S k ≠ via i
  /-- No receiver is in the chain. -/
  receivers_ne : ∀ k i, R k ≠ via i
  /-- The senders are connected to the encoder. -/
  senders_mem : sendersStatement S (via 0) ∈ cfg.conn
  /-- The chain is connected. -/
  hop_mem : ∀ i, hopStatement via i ∈ cfg.conn
  /-- The decoder is connected to the receivers. -/
  receivers_mem : receiversStatement (via (Fin.last _)) R ∈ cfg.conn
  /-- The apps are endpoints of no other statements. -/
  only : ∀ st ∈ cfg.conn, ∀ tag, (tag ∈ Set.range S ∨ tag ∈ Set.range via ∨ tag ∈ Set.range R) →
    tag ∈ st.senders ∨ tag ∈ st.receivers →
    st = sendersStatement S (via 0) ∨ (∃ i, st = hopStatement via i) ∨
      st = receiversStatement (via (Fin.last _)) R
  /-- The lines of the encoder and of the decoder assign no addresses. -/
  unassigned : ∀ a ∈ cfg.app, a.tag = via 0 ∨ a.tag = via (Fin.last _) → ∀ x ∈ a.attribs, ∀ i,
    x.1 ≠ AttributeName.rxAddr ++ formatLong i ∧ x.1 ≠ AttributeName.txAddr ++ formatLong i

namespace RqPair

variable {cfg : AppsCompleteConfig} {n m : ℕ} {S R : Fin n → List Char}
  {via : Fin (m + 2) → List Char}

section Statements

variable (h : RqPair cfg S via R) {st : AppConnectionConfig} (hst : st ∈ cfg.conn)

include h hst

/-- A sender sends in its own statement only. -/
lemma statement_of_sender {k : Fin n} (hk : S k ∈ st.senders) :
    st = sendersStatement S (via 0) := by
  rcases h.only st hst (S k) (Or.inl ⟨k, rfl⟩) (Or.inl hk) with rfl | ⟨i, rfl⟩ | rfl
  · rfl
  · exact absurd (List.mem_singleton.mp hk) (h.senders_ne k _)
  · exact absurd (List.mem_singleton.mp hk) (h.senders_ne k _)

/-- An app of the chain sends to the next one only, and the last one to the receivers. -/
lemma statement_of_via_sender {i : Fin (m + 2)} (hi : via i ∈ st.senders) :
    (∃ j : Fin (m + 1), i = j.castSucc ∧ st = hopStatement via j) ∨
      (i = Fin.last _ ∧ st = receiversStatement (via (Fin.last _)) R) := by
  rcases h.only st hst (via i) (Or.inr (Or.inl ⟨i, rfl⟩)) (Or.inl hi) with rfl | ⟨j, rfl⟩ | rfl
  · obtain ⟨k, hk⟩ := List.mem_ofFn.mp hi
    exact absurd hk (h.senders_ne k i)
  · exact Or.inl ⟨j, h.via_inj (List.mem_singleton.mp hi), rfl⟩
  · exact Or.inr ⟨h.via_inj (List.mem_singleton.mp hi), rfl⟩

/-- An app of the chain receives from the one before only, and the first one from the senders. -/
lemma statement_of_via_receiver {i : Fin (m + 2)} (hi : via i ∈ st.receivers) :
    (∃ j : Fin (m + 1), i = j.succ ∧ st = hopStatement via j) ∨
      (i = 0 ∧ st = sendersStatement S (via 0)) := by
  rcases h.only st hst (via i) (Or.inr (Or.inl ⟨i, rfl⟩)) (Or.inr hi) with rfl | ⟨j, rfl⟩ | rfl
  · exact Or.inr ⟨h.via_inj (List.mem_singleton.mp hi), rfl⟩
  · exact Or.inl ⟨j, h.via_inj (List.mem_singleton.mp hi), rfl⟩
  · obtain ⟨k, hk⟩ := List.mem_ofFn.mp hi
    exact absurd hk (h.receivers_ne k i)

/-- A receiver receives in its own statement only. -/
lemma statement_of_receiver {k : Fin n} (hk : R k ∈ st.receivers) :
    st = receiversStatement (via (Fin.last _)) R := by
  rcases h.only st hst (R k) (Or.inr (Or.inr ⟨k, rfl⟩)) (Or.inr hk) with rfl | ⟨i, rfl⟩ | rfl
  · exact absurd (List.mem_singleton.mp hk) (h.receivers_ne k _)
  · exact absurd (List.mem_singleton.mp hk) (h.receivers_ne k _)
  · rfl

end Statements

/-- The encoder supports several senders, one RX slot for each. -/
lemma encoder_names (h : RqPair cfg S via R) :
    (Records.get cfg.record (via 0)).rxMultiple = true ∧
      ∀ i, ((Records.get cfg.record (via 0)).rxNamesAt i).port = [] ∧
        ((Records.get cfg.record (via 0)).rxNamesAt i).address =
          AttributeName.rxAddr ++ formatLong i := by
  obtain ⟨B, hB, htype⟩ := h.encoder
  have hmade := AppsManager.made_record cfg _ _ hB
  rw [Records.get_eq hB]
  rw [htype] at hmade
  obtain ⟨type, hostIp, txMultiple, txNames, rxMultiple, rxNames, _, _⟩ := B
  cases hmade
  exact ⟨rfl, fun i => ⟨rfl, rfl⟩⟩

/-- The decoder supports several receivers, one TX slot for each. -/
lemma decoder_names (h : RqPair cfg S via R) :
    (Records.get cfg.record (via (Fin.last _))).txMultiple = true ∧
      ∀ i, ((Records.get cfg.record (via (Fin.last _))).txNamesAt i).port = [] ∧
        ((Records.get cfg.record (via (Fin.last _))).txNamesAt i).address =
          AttributeName.txAddr ++ formatLong i := by
  obtain ⟨B, hB, htype⟩ := h.decoder
  have hmade := AppsManager.made_record cfg _ _ hB
  rw [Records.get_eq hB]
  rw [htype] at hmade
  obtain ⟨type, hostIp, txMultiple, txNames, rxMultiple, rxNames, _, _⟩ := B
  cases hmade
  exact ⟨rfl, fun i => ⟨rfl, rfl⟩⟩

section LastUses

variable (h : RqPair cfg S via R)

include h

/-- **The slots of the connections to the encoder are used by nothing else.** -/
lemma exists_number_senders : ∃ base, ∀ k : Fin n,
    LastUse (Connection.SharesTx cfg.record ⟨S k, via 0, k, 0⟩) cfg.connections (base + k)
        ⟨S k, via 0, k, 0⟩ ∧
      LastUse (Connection.SharesRx cfg.record ⟨S k, via 0, k, 0⟩) cfg.connections (base + k)
        ⟨S k, via 0, k, 0⟩ := by
  have hlist : (sendersStatement S (via 0)).connections =
      List.ofFn fun k : Fin n => (⟨S k, via 0, k, 0⟩ : Connection) :=
    connections_to_one S (via 0)
  have hmem : ∀ y, y ∈ (sendersStatement S (via 0)).connections →
      ∃ j : Fin n, y = ⟨S j, via 0, j, 0⟩ := by
    intro y hy
    rw [hlist] at hy
    obtain ⟨j, rfl⟩ := List.mem_ofFn.mp hy
    exact ⟨j, rfl⟩
  obtain ⟨base, hbase⟩ := exists_number_ofFn h.senders_mem hlist
    fun j k hjk => Fin.ext (congrArg Connection.txIndex hjk)
  refine ⟨base, fun k => ⟨hbase k _ ⟨rfl, fun _ => rfl⟩ ?_, hbase k _ ⟨rfl, fun _ => rfl⟩ ?_⟩⟩
  · rintro st hst y hy ⟨htag, -⟩
    obtain rfl := h.statement_of_sender hst (htag ▸ (AppConnectionConfig.tags_mem hy).1)
    obtain ⟨j, rfl⟩ := hmem y hy
    obtain rfl := h.senders_inj htag
    exact ⟨rfl, rfl⟩
  · rintro st hst y hy ⟨htag, hidx⟩
    rcases h.statement_of_via_receiver hst (htag ▸ (AppConnectionConfig.tags_mem hy).2) with
      ⟨j, hj, -⟩ | ⟨-, rfl⟩
    · exact absurd hj (Fin.succ_ne_zero j).symm
    · obtain ⟨j, rfl⟩ := hmem y hy
      obtain rfl : j = k := Fin.ext (hidx h.encoder_names.1)
      exact ⟨rfl, rfl⟩

/-- **The slots of the connections from the decoder are used by nothing else.** -/
lemma exists_number_receivers : ∃ base, ∀ k : Fin n,
    LastUse (Connection.SharesTx cfg.record ⟨via (Fin.last _), R k, 0, k⟩) cfg.connections (base + k)
        ⟨via (Fin.last _), R k, 0, k⟩ ∧
      LastUse (Connection.SharesRx cfg.record ⟨via (Fin.last _), R k, 0, k⟩) cfg.connections
        (base + k) ⟨via (Fin.last _), R k, 0, k⟩ := by
  have hlist : (receiversStatement (via (Fin.last _)) R).connections =
      List.ofFn fun k : Fin n => (⟨via (Fin.last _), R k, 0, k⟩ : Connection) :=
    connections_from_one (via (Fin.last _)) R
  have hmem : ∀ y, y ∈ (receiversStatement (via (Fin.last _)) R).connections →
      ∃ j : Fin n, y = ⟨via (Fin.last _), R j, 0, j⟩ := by
    intro y hy
    rw [hlist] at hy
    obtain ⟨j, rfl⟩ := List.mem_ofFn.mp hy
    exact ⟨j, rfl⟩
  obtain ⟨base, hbase⟩ := exists_number_ofFn h.receivers_mem hlist
    fun j k hjk => Fin.ext (congrArg Connection.rxIndex hjk)
  refine ⟨base, fun k => ⟨hbase k _ ⟨rfl, fun _ => rfl⟩ ?_, hbase k _ ⟨rfl, fun _ => rfl⟩ ?_⟩⟩
  · rintro st hst y hy ⟨htag, hidx⟩
    rcases h.statement_of_via_sender hst (htag ▸ (AppConnectionConfig.tags_mem hy).1) with
      ⟨j, hj, -⟩ | ⟨-, rfl⟩
    · exact absurd hj.symm (Fin.castSucc_lt_last j).ne
    · obtain ⟨j, rfl⟩ := hmem y hy
      obtain rfl : j = k := Fin.ext (hidx h.decoder_names.1)
      exact ⟨rfl, rfl⟩
  · rintro st hst y hy ⟨htag, -⟩
    obtain rfl := h.statement_of_receiver hst (htag ▸ (AppConnectionConfig.tags_mem hy).2)
    obtain ⟨j, rfl⟩ := hmem y hy
    obtain rfl := h.receivers_inj htag
    exact ⟨rfl, rfl⟩

/-- **The slots of a connection of the chain are used by nothing else.** -/
lemma exists_number_hop (i : Fin (m + 1)) : ∃ base,
    LastUse (Connection.SharesTx cfg.record ⟨via i.castSucc, via i.succ, 0, 0⟩) cfg.connections base
        ⟨via i.castSucc, via i.succ, 0, 0⟩ ∧
      LastUse (Connection.SharesRx cfg.record ⟨via i.castSucc, via i.succ, 0, 0⟩) cfg.connections
        base ⟨via i.castSucc, via i.succ, 0, 0⟩ := by
  obtain ⟨base, hbase⟩ := exists_number_ofFn (n := 1) (h.hop_mem i)
    (f := fun _ => ⟨via i.castSucc, via i.succ, 0, 0⟩) rfl fun j k _ => Subsingleton.elim j k
  refine ⟨base, hbase 0 _ ⟨rfl, fun _ => rfl⟩ ?_, hbase 0 _ ⟨rfl, fun _ => rfl⟩ ?_⟩
  · rintro st hst y hy ⟨htag, -⟩
    rcases h.statement_of_via_sender hst (htag ▸ (AppConnectionConfig.tags_mem hy).1) with
      ⟨j, hj, rfl⟩ | ⟨hj, -⟩
    · obtain rfl := Fin.castSucc_injective _ hj
      exact ⟨rfl, List.mem_singleton.mp hy⟩
    · exact absurd hj (Fin.castSucc_lt_last i).ne
  · rintro st hst y hy ⟨htag, -⟩
    rcases h.statement_of_via_receiver hst (htag ▸ (AppConnectionConfig.tags_mem hy).2) with
      ⟨j, hj, rfl⟩ | ⟨hj, -⟩
    · obtain rfl := Fin.succ_injective _ hj
      exact ⟨rfl, List.mem_singleton.mp hy⟩
    · exact absurd hj (Fin.succ_ne_zero i)

end LastUses

/-! ### The slots in use -/

section Final

variable (h : RqPair cfg S via R) {A : AttributeTable} {addr2netdev : ℕ → Bool}
  {outDir : List Char} {r : AppsManager × List TraceFile}
  (hok : AppsManager.createApps A addr2netdev outDir cfg = .ok r)

include h hok

/-- The RX slots of the encoder behind those of the senders have no address. -/
lemma rxSlot_eq_none {i : ℕ} (hi : n ≤ i) : r.1.rxSlot (via 0) i = none := by
  have hnames := h.encoder_names.2 i
  refine AppsManager.attributes_rxKey_eq_none hok (c := ⟨[], via 0, i, 0⟩)
    ⟨rfl, ?_, Or.inl hnames.2.symm⟩ ?_ ?_
  · simp [AttributeName.rxAddr]
  · exact fun a ha htag x hx => (h.unassigned a ha (Or.inl htag.symm) x hx i).1
  · rintro y hy ⟨htag, hidx⟩
    obtain ⟨st, hst, hy⟩ := List.mem_flatMap.mp hy
    rcases h.statement_of_via_receiver hst (htag ▸ (AppConnectionConfig.tags_mem hy).2) with
      ⟨j, hj, -⟩ | ⟨-, rfl⟩
    · exact absurd hj (Fin.succ_ne_zero j).symm
    · rw [sendersStatement, connections_to_one] at hy
      obtain ⟨j, rfl⟩ := List.mem_ofFn.mp hy
      have hji : (j : ℕ) = i := hidx h.encoder_names.1
      exact absurd j.isLt (by omega)

/-- The TX slots of the decoder behind those of the receivers have no address. -/
lemma txSlot_eq_none {i : ℕ} (hi : n ≤ i) : r.1.txSlot (via (Fin.last _)) i = none := by
  have hnames := h.decoder_names.2 i
  refine AppsManager.attributes_txKey_eq_none hok (c := ⟨via (Fin.last _), [], 0, i⟩)
    ⟨rfl, ?_, Or.inl hnames.2.symm⟩ ?_ ?_
  · simp [AttributeName.txAddr]
  · exact fun a ha htag x hx => (h.unassigned a ha (Or.inr htag.symm) x hx i).2
  · rintro y hy ⟨htag, hidx⟩
    obtain ⟨st, hst, hy⟩ := List.mem_flatMap.mp hy
    rcases h.statement_of_via_sender hst (htag ▸ (AppConnectionConfig.tags_mem hy).1) with
      ⟨j, hj, -⟩ | ⟨-, rfl⟩
    · exact absurd hj.symm (Fin.castSucc_lt_last j).ne
    · rw [receiversStatement, connections_from_one] at hy
      obtain ⟨j, rfl⟩ := List.mem_ofFn.mp hy
      have hji : (j : ℕ) = i := hidx h.decoder_names.1
      exact absurd j.isLt (by omega)

/-- The senders send to the RX slots of the encoder, in order. -/
lemma exists_rxSlot : ∃ port : Fin n → ℕ, Function.Injective port ∧ ∀ k,
    r.1.destination ⟨S k, via 0, k, 0⟩ =
        some (Connection.host r.1.records ⟨S k, via 0, k, 0⟩, port k) ∧
      r.1.rxSlot (via 0) k = some (.inetSocket AppsManager.anyAddress (port k)) := by
  obtain ⟨base, hbase⟩ := h.exists_number_senders
  have hrec := (AppsManager.createApps_eq_ok hok).1
  refine ⟨fun k => (base + k + 1001) % 2 ^ 16, fun j k hjk => ?_, fun k => ⟨?_, ?_⟩⟩
  · have hn := h.streams
    have hj := j.isLt
    have hk := k.isLt
    have hmod : (base + j + 1001) % 2 ^ 16 = (base + k + 1001) % 2 ^ 16 := hjk
    exact Fin.ext (by omega)
  · rw [AppsManager.destination_eq hok (hbase k).1, hrec]
  · have hnames := h.encoder_names.2 k
    refine AppsManager.rxSlot_of_listening (c := ⟨S k, via 0, k, 0⟩) ?_ ?_
      (AppsManager.listening_eq hok (hbase k).2)
    · rw [hrec]
      exact hnames.1
    · rw [hrec]
      exact hnames.2

/-- The TX slots of the decoder send to the receivers, in order. -/
lemma exists_txSlot : ∃ port : Fin n → ℕ, Function.Injective port ∧ ∀ k : Fin n,
    r.1.txSlot (via (Fin.last _)) k = some (.inetSocket
        (Connection.host r.1.records ⟨via (Fin.last _), R k, 0, k⟩) (port k)) ∧
      r.1.listening ⟨via (Fin.last _), R k, 0, k⟩ = some (port k) := by
  obtain ⟨base, hbase⟩ := h.exists_number_receivers
  have hrec := (AppsManager.createApps_eq_ok hok).1
  refine ⟨fun k => (base + k + 1001) % 2 ^ 16, fun j k hjk => ?_, fun k => ⟨?_, ?_⟩⟩
  · have hn := h.streams
    have hj := j.isLt
    have hk := k.isLt
    have hmod : (base + j + 1001) % 2 ^ 16 = (base + k + 1001) % 2 ^ 16 := hjk
    exact Fin.ext (by omega)
  · have hnames := h.decoder_names.2 k
    have hdest := AppsManager.destination_eq hok (hbase k).1
    rw [← hrec] at hdest
    refine AppsManager.txSlot_of_destination (c := ⟨via (Fin.last _), R k, 0, k⟩) ?_ ?_ hdest
    · rw [hrec]
      exact hnames.1
    · rw [hrec]
      exact hnames.2
  · exact AppsManager.listening_eq hok (hbase k).2

end Final

end RqPair

/-! ### What holds of the streams -/

/-- A stream keeps its identity from its sender to its receiver. -/
structure CarriesStreams (M : AppsManager) {n m : ℕ} [NeZero n] (S : Fin n → List Char)
    (via : Fin (m + 2) → List Char) (R : Fin n → List Char) : Prop where
  /-- The senders send to the RX slots of the encoder, each to its own. -/
  senders : ∃ port : Fin n → ℕ, Function.Injective port ∧ ∀ k,
    M.destination ⟨S k, via 0, k, 0⟩ =
        some (Connection.host M.records ⟨S k, via 0, k, 0⟩, port k) ∧
      M.rxSlot (via 0) k = some (.inetSocket AppsManager.anyAddress (port k))
  /-- The chain is wired. -/
  chain : ∀ i : Fin (m + 1), M.Wired ⟨via i.castSucc, via i.succ, 0, 0⟩
  /-- The TX slots of the decoder send to the receivers, each to its own. -/
  receivers : ∃ port : Fin n → ℕ, Function.Injective port ∧ ∀ k : Fin n,
    M.txSlot (via (Fin.last _)) k = some (.inetSocket
        (Connection.host M.records ⟨via (Fin.last _), R k, 0, k⟩) (port k)) ∧
      M.listening ⟨via (Fin.last _), R k, 0, k⟩ = some (port k)
  /-- The encoder starts with a slot for each stream. -/
  encoder : RqEncoder.startApplication (fun i => (M.rxSlot (via 0) i).isNone) =
    some ⟨n, RqEncoder.init n⟩
  /-- The decoder starts with a slot for each stream. -/
  decoder : RqDecoder.startApplication (fun i => (M.txSlot (via (Fin.last _)) i).isNone) =
    ⟨n, RqDecoder.init n⟩
  /-- The packets of the encoder have a count for each slot of the decoder, and the stream id of one
  of them or of a repair packet, and the decoder accepts them in every state. -/
  packets : ∀ (P : RqParams) (calls : List (SendCall n)), ∀ pkt ∈ RqEncoder.sent P calls,
    pkt.hdr.iseqData.length = n ∧
      (pkt.hdr.iseqStreamid = -1 ∨ 0 ≤ pkt.hdr.iseqStreamid ∧ pkt.hdr.iseqStreamid < n) ∧
      ∀ (P' : RqParams) (d : RqDecoder n), (RqDecoder.receive P' d pkt.bytes).isSome
  /-- What is sent to the address of a receiver is what was credited to its slot, but for what is
  still held there, up to the width of the buffer counter. -/
  sent : ∀ (P : RqParams) (steps : List (RqDecoder.Step n)) (d : RqDecoder n)
    (evs : List (RqDecoder.Event n)), RqDecoder.run P steps = (some d, evs) →
    ∀ k : Fin n, ∃ addr, M.txSlot (via (Fin.last _)) k = some addr ∧
      (d.slotStates k).nbuffered = MachineInt.u32 (RqDecoder.creditedTo evs k * P.tval -
        RqDecoder.bytesSentTo (fun j : Fin n => M.txSlot (via (Fin.last _)) j) evs addr)

/-- **Stream identity.** In every configuration that connects the senders to an encoder, the encoder
through a chain to a decoder, and the decoder to the receivers, the streams keep their identity. -/
theorem RqPair.carriesStreams {cfg : AppsCompleteConfig} {n m : ℕ} [NeZero n]
    {S R : Fin n → List Char} {via : Fin (m + 2) → List Char} (h : RqPair cfg S via R)
    {A : AttributeTable} {addr2netdev : ℕ → Bool} {outDir : List Char}
    {r : AppsManager × List TraceFile}
    (hok : AppsManager.createApps A addr2netdev outDir cfg = .ok r) :
    CarriesStreams r.1 S via R := by
  obtain ⟨rxPort, hrxInj, hrx⟩ := h.exists_rxSlot hok
  obtain ⟨txPort, htxInj, htx⟩ := h.exists_txSlot hok
  have hn := h.streams
  have hrec := (AppsManager.createApps_eq_ok hok).1
  have hcountRx : RqEncoder.countRxSlots (fun i => (r.1.rxSlot (via 0) i).isNone)
      RqEncoder.rxSlotCount 0 = n := by
    refine RqEncoder.countRxSlots_eq (Nat.zero_le _) (by simpa [RqEncoder.rxSlotCount] using hn)
      (fun k _ hk => ?_) fun _ => ?_
    · rw [(hrx ⟨k, hk⟩).2]
      rfl
    · rw [h.rxSlot_eq_none hok le_rfl]
      rfl
  have hcountTx : RqEncoder.countRxSlots (fun i => (r.1.txSlot (via (Fin.last _)) i).isNone)
      RqDecoder.txSlotCount 0 = n := by
    refine RqEncoder.countRxSlots_eq (Nat.zero_le _) (by simpa [RqDecoder.txSlotCount] using hn)
      (fun k _ hk => ?_) fun _ => ?_
    · rw [(htx ⟨k, hk⟩).1]
      rfl
    · rw [h.txSlot_eq_none hok le_rfl]
      rfl
  constructor
  · exact ⟨rxPort, hrxInj, hrx⟩
  · intro i
    obtain ⟨base, hTx, hRx⟩ := h.exists_number_hop i
    refine ⟨_, ?_, AppsManager.listening_eq hok hRx⟩
    rw [AppsManager.destination_eq hok hTx, hrec]
  · exact ⟨txPort, htxInj, htx⟩
  · exact RqEncoder.startApplication_of_count hcountRx
  · unfold RqDecoder.startApplication
    rw [hcountTx]
  · intro P calls pkt hpkt
    have hheader := RqEncoder.streamHeader_sent P calls pkt hpkt
    refine ⟨?_, ?_, fun P' d => RqDecoder.receive_isSome hn P' d hheader⟩
    · obtain ⟨seqno, streamid, counts, -, -, hhdr⟩ := hheader
      rw [hhdr, RqHeader.ofStream, List.length_map, List.length_ofFn]
    · obtain ⟨seqno, streamid, counts, -, hstreamid, hhdr⟩ := hheader
      rw [hhdr]
      rcases hstreamid with rfl | ⟨slot, rfl⟩
      · exact Or.inl rfl
      · exact Or.inr ⟨Int.natCast_nonneg _, Int.ofNat_lt.mpr slot.isLt⟩
  · intro P steps d evs hrun k
    refine ⟨_, (htx k).1, ?_⟩
    rw [RqDecoder.bytesSentTo_eq (i := k)]
    · exact RqDecoder.balanced_run P hrun k
    · intro j
      rw [(htx j).1, Option.some.injEq, AttributeValue.inetSocket.injEq]
      constructor
      · rintro ⟨-, hport⟩
        exact htxInj hport
      · rintro rfl
        exact ⟨rfl, rfl⟩

/-- Two streams from the senders `a` and `b` to the receivers `x` and `y`, with a timed proxy
between encoder and decoder. -/
theorem RqPair.carriesStreams_two :
    let S : Fin 2 → List Char := ![['a'], ['b']]
    let via : Fin 3 → List Char := ![['e'], ['p'], ['d']]
    let R : Fin 2 → List Char := ![['x'], ['y']]
    ∃ r, AppsManager.createApps AppsManager.lenient (fun _ => true) []
        { app := [⟨['a'], .streamingServer, 1, []⟩, ⟨['b'], .streamingServer, 2, []⟩,
            ⟨['e'], .rqEncoder, 3, []⟩, ⟨['p'], .timedProxy, 4, []⟩, ⟨['d'], .rqDecoder, 5, []⟩,
            ⟨['x'], .client, 6, []⟩, ⟨['y'], .client, 7, []⟩]
          conn := [sendersStatement S (via 0), hopStatement via 0, hopStatement via 1,
            receiversStatement (via 2) R] } = .ok r ∧
      CarriesStreams r.1 S via R := by
  intro S via R
  set cfg : AppsCompleteConfig :=
    { app := [⟨['a'], .streamingServer, 1, []⟩, ⟨['b'], .streamingServer, 2, []⟩,
        ⟨['e'], .rqEncoder, 3, []⟩, ⟨['p'], .timedProxy, 4, []⟩, ⟨['d'], .rqDecoder, 5, []⟩,
        ⟨['x'], .client, 6, []⟩, ⟨['y'], .client, 7, []⟩]
      conn := [sendersStatement S (via 0), hopStatement via 0, hopStatement via 1,
        receiversStatement (via 2) R] } with hcfg
  have hpair : RqPair cfg S via R := by
    refine ⟨by norm_num, ⟨_, rfl, rfl⟩, ⟨_, rfl, rfl⟩, by decide, by decide, by decide, by decide,
      by decide, by simp [hcfg], fun i => ?_, by simp [hcfg, Fin.last], ?_, ?_⟩
    · fin_cases i <;> simp [hcfg]
    · intro st hst tag _ _
      simp only [hcfg, List.mem_cons, List.not_mem_nil, or_false] at hst
      rcases hst with rfl | rfl | rfl | rfl
      · exact Or.inl rfl
      · exact Or.inr (Or.inl ⟨0, rfl⟩)
      · exact Or.inr (Or.inl ⟨1, rfl⟩)
      · exact Or.inr (Or.inr rfl)
    · intro a ha _ x hx
      simp only [hcfg, List.mem_cons, List.not_mem_nil, or_false] at ha
      rcases ha with rfl | rfl | rfl | rfl | rfl | rfl | rfl <;> exact (List.not_mem_nil hx).elim
  have hsome : (AppsManager.createApps AppsManager.lenient (fun _ => true) [] cfg).isOk = true := by
    decide +kernel
  cases hr : AppsManager.createApps AppsManager.lenient (fun _ => true) [] cfg with
  | error e =>
    rw [hr] at hsome
    cases hsome
  | ok r => exact ⟨r, rfl, hpair.carriesStreams hr⟩

end MeshSim
