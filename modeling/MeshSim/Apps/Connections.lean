import MeshSim.Apps.AppsManager

/-!
# What the connections write

The connections of a configuration, as one list in the order in which they are made.  A connection
writes a fixed list of addresses and ports (`Connection.writes`), which depends on the configuration
and on the number of the connection only; the protocol is the one value it copies from the state.
`createApps_eq_ok` sums up a successful run: every attribute that is not a protocol holds what the
list of all these assignments leaves in it.
-/

namespace MeshSim

open PythonText Overwrite

/-! ### Connections -/

/-- One sender/receiver connection of a connect statement. -/
structure Connection where
  /-- The tag of the sender. -/
  tagTx : List Char
  /-- The tag of the receiver. -/
  tagRx : List Char
  /-- The index of the sender in the statement. -/
  txIndex : ℕ
  /-- The index of the receiver in the statement. -/
  rxIndex : ℕ
deriving DecidableEq

/-- The connections of a statement to one receiver. -/
def AppConnectionConfig.connectionsTo (cfg : AppConnectionConfig) (r : List Char × ℕ) :
    List Connection :=
  cfg.senders.zipIdx.map fun s => ⟨s.1, r.1, s.2, r.2⟩

/-- The connections of a statement, in the order in which they are made. -/
def AppConnectionConfig.connections (cfg : AppConnectionConfig) : List Connection :=
  cfg.receivers.zipIdx.flatMap cfg.connectionsTo

/-- The connections of a configuration, in the order in which they are made. -/
def AppsCompleteConfig.connections (cfg : AppsCompleteConfig) : List Connection :=
  cfg.conn.flatMap AppConnectionConfig.connections

/-- The record of the app with a tag. -/
def AppsCompleteConfig.record (cfg : AppsCompleteConfig) (tag : List Char) : Option AppRecord :=
  (cfg.app.find? fun a => a.tag = tag).bind fun a => AppRecord.ofType a.type a.ip

/-- What the attributes of an app line leave in an application. -/
def AppConfig.attrs (a : AppConfig) : List Char → Option AttributeValue :=
  assign (fun _ => none) (a.attribs.map fun x => (x.1, .string x.2))

/-- The class of an app accepts the attributes of its line. -/
def AppConfig.Accepted (A : AttributeTable) (a : AppConfig) : Prop :=
  ∀ x ∈ a.attribs, A.accepts a.type x.1 (.string x.2) = true

instance (A : AttributeTable) (a : AppConfig) : Decidable (a.Accepted A) :=
  inferInstanceAs (Decidable (∀ x ∈ _, _))

/-- The applications of a configuration, without connections. -/
def AppsCompleteConfig.created (cfg : AppsCompleteConfig) : AppsManager where
  records := cfg.record
  attributes := fun key => (cfg.app.find? fun a => a.tag = key.1).bind fun a => a.attrs key.2

/-- The records that the applications manager looks up. -/
abbrev Records := List Char → Option AppRecord

/-- `rec[tag]`. -/
def Records.get (rec : Records) (tag : List Char) : AppRecord := (rec tag).getD {}

namespace Connection

variable (rec : Records) (c : Connection)

/-- The names of the attributes of the sender. -/
def txNames : AttribNames := (rec.get c.tagTx).txNamesAt c.rxIndex

/-- The names of the attributes of the receiver. -/
def rxNames : AttribNames := (rec.get c.tagRx).rxNamesAt c.txIndex

/-- The host of the receiver. -/
def host : ℕ := (rec.get c.tagRx).hostIp

/-- What a connection writes at the sender, when it is the one with the number `sindex`. -/
def txWrites (sindex : ℕ) : List ((List Char × List Char) × AttributeValue) :=
  if (c.txNames rec).port ≠ [] then
    [((c.tagTx, (c.txNames rec).port), .uinteger (sindex + 1001)),
      ((c.tagTx, (c.txNames rec).address), .ipv4 (c.host rec))]
  else [((c.tagTx, (c.txNames rec).address), inetSocketAddress (c.host rec) (sindex + 1001))]

/-- What a connection writes at the receiver. -/
def rxWrites (sindex : ℕ) : List ((List Char × List Char) × AttributeValue) :=
  if (c.rxNames rec).port ≠ [] then
    ((c.tagRx, (c.rxNames rec).port), .uinteger (sindex + 1001)) ::
      if (c.rxNames rec).address ≠ [] then
        [((c.tagRx, (c.rxNames rec).address), .ipv4 AppsManager.anyAddress)]
      else []
  else [((c.tagRx, (c.rxNames rec).address),
    inetSocketAddress AppsManager.anyAddress (sindex + 1001))]

/-- What a connection writes, protocols excepted. -/
def writes (sindex : ℕ) : List ((List Char × List Char) × AttributeValue) :=
  c.txWrites rec sindex ++ c.rxWrites rec sindex

end Connection

/-! ### The names of the attributes -/

/-- The name of a protocol attribute. -/
def IsProto (name : List Char) : Prop := name.take 2 = ['P', 'r']

instance (name : List Char) : Decidable (IsProto name) := inferInstanceAs (Decidable (_ = _))

/-- The records that `createApp` makes. -/
def Records.Made (rec : Records) : Prop :=
  ∀ tag R, rec tag = some R → AppRecord.ofType R.type R.hostIp = some R

/-- Numbers are printed differently. -/
lemma formatLong_inj {i j : ℕ} (h : formatLong i = formatLong j) : i = j := by
  have := toInt_formatLong (i : ℤ)
  rw [h, toInt_formatLong, Option.some.injEq] at this
  exact_mod_cast this.symm

section Names

variable {R : AppRecord} (hR : AppRecord.ofType R.type R.hostIp = some R)

include hR

/-- No address and no port is a protocol, and all protocols are. -/
lemma isProto_names (i : ℕ) :
    ((R.txNamesAt i).proto = [] ∨ IsProto (R.txNamesAt i).proto) ∧
      ((R.rxNamesAt i).proto = [] ∨ IsProto (R.rxNamesAt i).proto) ∧
      ¬IsProto (R.txNamesAt i).address ∧ ¬IsProto (R.txNamesAt i).port ∧
      ¬IsProto (R.rxNamesAt i).address ∧ ¬IsProto (R.rxNamesAt i).port := by
  obtain ⟨type, hostIp, txMultiple, txNames, rxMultiple, rxNames, _, _⟩ := R
  cases type <;> cases hR <;>
    simp [AppRecord.txNamesAt, AppRecord.rxNamesAt, getNamesFromNameTemplates, tsubst, IsProto,
      AttributeName.remoteAddress, AttributeName.remotePort, AttributeName.port,
      AttributeName.protocol, AttributeName.remote, AttributeName.sinkLocal,
      AttributeName.localAddress, AttributeName.localPort, AttributeName.remoteServerAddress,
      AttributeName.remoteServerPort, AttributeName.protocolRx, AttributeName.protocolTx,
      AttributeName.rxAddr, AttributeName.txAddr]

/-- The attributes of the sender side are not those of the receiver side. -/
lemma names_apart (i j : ℕ) :
    ((R.txNamesAt i).address = [] ∨ (R.txNamesAt i).address ≠ (R.rxNamesAt j).address ∧
        (R.txNamesAt i).address ≠ (R.rxNamesAt j).port) ∧
      ((R.txNamesAt i).port = [] ∨ (R.txNamesAt i).port ≠ (R.rxNamesAt j).address ∧
        (R.txNamesAt i).port ≠ (R.rxNamesAt j).port) := by
  obtain ⟨type, hostIp, txMultiple, txNames, rxMultiple, rxNames, _, _⟩ := R
  cases type <;> cases hR <;>
    simp [AppRecord.txNamesAt, AppRecord.rxNamesAt, getNamesFromNameTemplates, tsubst,
      AttributeName.remoteAddress, AttributeName.remotePort, AttributeName.remote,
      AttributeName.remoteServerAddress, AttributeName.remoteServerPort, AttributeName.rxAddr,
      AttributeName.txAddr]

/-- The protocol of the sender side is not that of the receiver side. -/
lemma protos_apart (i j : ℕ) :
    (R.txNamesAt i).proto = [] ∨ (R.txNamesAt i).proto ≠ (R.rxNamesAt j).proto := by
  obtain ⟨type, hostIp, txMultiple, txNames, rxMultiple, rxNames, _, _⟩ := R
  cases type <;> cases hR <;>
    simp [AppRecord.txNamesAt, AppRecord.rxNamesAt, getNamesFromNameTemplates, tsubst,
      AttributeName.protocol, AttributeName.protocolRx, AttributeName.protocolTx]

/-- A port that is an attribute of its own is not the address. -/
lemma port_ne_address (i : ℕ) :
    ((R.txNamesAt i).port = [] ∨ (R.txNamesAt i).port ≠ (R.txNamesAt i).address) ∧
      ((R.rxNamesAt i).port = [] ∨ (R.rxNamesAt i).port ≠ (R.rxNamesAt i).address) := by
  obtain ⟨type, hostIp, txMultiple, txNames, rxMultiple, rxNames, _, _⟩ := R
  cases type <;> cases hR <;>
    simp [AppRecord.txNamesAt, AppRecord.rxNamesAt, getNamesFromNameTemplates, tsubst,
      AttributeName.remoteAddress, AttributeName.remotePort, AttributeName.port,
      AttributeName.localAddress, AttributeName.localPort, AttributeName.remoteServerAddress,
      AttributeName.remoteServerPort]

/-- A sender has one destination for each receiver if it supports several, and one in all
otherwise. -/
lemma txNamesAt_address_eq_iff {i j : ℕ} (h : (R.txNamesAt i).address ≠ []) :
    (R.txNamesAt j).address = (R.txNamesAt i).address ↔ (R.txMultiple = true → j = i) := by
  obtain ⟨type, hostIp, txMultiple, txNames, rxMultiple, rxNames, _, _⟩ := R
  have hinj : formatLong j = formatLong i ↔ j = i := ⟨formatLong_inj, fun h => by rw [h]⟩
  cases type <;> cases hR <;>
    simp [AppRecord.txNamesAt, getNamesFromNameTemplates, tsubst, hinj, AttributeName.txAddr]

/-- A receiver has one listening address for each sender if it supports several, and one in all
otherwise. -/
lemma rxNamesAt_address_eq_iff {i j : ℕ} (h : (R.rxNamesAt i).address ≠ []) :
    (R.rxNamesAt j).address = (R.rxNamesAt i).address ↔ (R.rxMultiple = true → j = i) := by
  obtain ⟨type, hostIp, txMultiple, txNames, rxMultiple, rxNames, _, _⟩ := R
  have hinj : formatLong j = formatLong i ↔ j = i := ⟨formatLong_inj, fun h => by rw [h]⟩
  cases type <;> cases hR <;>
    simp [AppRecord.rxNamesAt, getNamesFromNameTemplates, tsubst, hinj, AttributeName.rxAddr]

/-- Ports that are attributes of their own do not depend on an index. -/
lemma port_eq (i : ℕ) :
    (R.txNamesAt i).port = R.txNames.port ∧ (R.rxNamesAt i).port = R.rxNames.port ∧
      (R.txNames.port ≠ [] → R.txMultiple = false) ∧
      (R.rxNames.port ≠ [] → R.rxMultiple = false) := by
  obtain ⟨type, hostIp, txMultiple, txNames, rxMultiple, rxNames, _, _⟩ := R
  cases type <;> cases hR <;>
    simp [AppRecord.txNamesAt, AppRecord.rxNamesAt, getNamesFromNameTemplates, tsubst]

end Names

namespace Records

/-- The record of an application. -/
lemma get_eq {rec : Records} {tag : List Char} {R : AppRecord} (h : rec tag = some R) :
    rec.get tag = R := by
  rw [Records.get, h]
  rfl

/-- The protocol of a receiver is one, unless it has none. -/
lemma Made.rxNames_proto {rec : Records} (hmade : rec.Made) (c : Connection) :
    (c.rxNames rec).proto = [] ∨ IsProto (c.rxNames rec).proto := by
  cases hR : rec c.tagRx with
  | none =>
    rw [Connection.rxNames, Records.get, hR]
    exact Or.inl rfl
  | some R =>
    rw [Connection.rxNames, get_eq hR]
    exact (isProto_names (hmade _ _ hR) _).2.1

/-- Whether the application with a tag accepts a value for one of its attributes. -/
def accepts (A : AttributeTable) (rec : Records)
    (w : (List Char × List Char) × AttributeValue) : Bool :=
  (rec w.1.1).any fun R => A.accepts R.type w.1.2 w.2

section Accepts

variable {A : AttributeTable} {rec : Records}

/-- Only an application can accept a value. -/
lemma accepts_iff {w : (List Char × List Char) × AttributeValue} : rec.accepts A w = true ↔
    ∃ R, rec w.1.1 = some R ∧ A.accepts R.type w.1.2 w.2 = true := by
  rw [accepts, Option.any_eq_true]

/-- No application accepts a value for an attribute with an empty name. -/
lemma ne_nil_of_accepts {w : (List Char × List Char) × AttributeValue}
    (h : rec.accepts A w = true) : w.1.2 ≠ [] := by
  obtain ⟨R, -, hacc⟩ := accepts_iff.mp h
  intro hnil
  rw [hnil, A.accepts_nil] at hacc
  cases hacc

/-- A port that an application takes, as a sender or as a receiver, fits into its attribute. -/
lemma Made.port_lt (hmade : rec.Made) {tag name : List Char} {i port : ℕ}
    (hname : name = ((rec.get tag).txNamesAt i).port ∨ name = ((rec.get tag).rxNamesAt i).port)
    (h : rec.accepts A ((tag, name), .uinteger port) = true) : port < 2 ^ 16 := by
  obtain ⟨R, hR, hacc⟩ := accepts_iff.mp h
  refine A.accepts_port R.type R.hostIp R port (hmade _ _ hR) ?_
  obtain ⟨htx, hrx, -⟩ := port_eq (hmade _ _ hR) i
  rw [get_eq hR, htx, hrx] at hname
  rcases hname with rfl | rfl
  · exact Or.inl hacc
  · exact Or.inr hacc

end Accepts

end Records

/-! ### One connection -/

/-- What is known of a connection that was made. -/
structure Connection.Linked (rec : Records) (c : Connection) (sindex : ℕ) : Prop where
  /-- The sender is an application. -/
  tx_known : (rec c.tagTx).isSome
  /-- The receiver is an application. -/
  rx_known : (rec c.tagRx).isSome
  /-- The sender can be told where to send. -/
  tx_address : (c.txNames rec).address ≠ []
  /-- The receiver can be told where to listen. -/
  rx_address : (c.rxNames rec).port = [] → (c.rxNames rec).address ≠ []
  /-- The port fits into an attribute of its own at the sender. -/
  tx_port : (c.txNames rec).port ≠ [] → sindex + 1001 < 2 ^ 16
  /-- The port fits into an attribute of its own at the receiver. -/
  rx_port : (c.rxNames rec).port ≠ [] → sindex + 1001 < 2 ^ 16

namespace Connection

variable {A : AttributeTable} {rec : Records} {c : Connection} {sindex : ℕ}

/-- A connection tells its sender where to send. -/
lemma tx_address_mem (rec : Records) (c : Connection) (sindex : ℕ) :
    ∃ v, ((c.tagTx, (c.txNames rec).address), v) ∈ c.writes rec sindex := by
  have hmem : ∃ v, ((c.tagTx, (c.txNames rec).address), v) ∈ c.txWrites rec sindex := by
    unfold txWrites
    split
    · exact ⟨_, List.mem_cons_of_mem _ List.mem_cons_self⟩
    · exact ⟨_, List.mem_cons_self⟩
  obtain ⟨v, hv⟩ := hmem
  exact ⟨v, List.mem_append_left _ hv⟩

/-- A connection tells its sender the port, if that is an attribute of its own. -/
lemma tx_port_mem (h : (c.txNames rec).port ≠ []) :
    ((c.tagTx, (c.txNames rec).port), .uinteger (sindex + 1001)) ∈ c.writes rec sindex := by
  refine List.mem_append_left _ ?_
  rw [txWrites, if_pos h]
  exact List.mem_cons_self

/-- A connection tells its receiver the port, if that is an attribute of its own. -/
lemma rx_port_mem (h : (c.rxNames rec).port ≠ []) :
    ((c.tagRx, (c.rxNames rec).port), .uinteger (sindex + 1001)) ∈ c.writes rec sindex := by
  refine List.mem_append_right _ ?_
  rw [rxWrites, if_pos h]
  exact List.mem_cons_self

/-- Otherwise it tells its receiver where to listen. -/
lemma rx_address_mem (h : (c.rxNames rec).port = []) :
    ((c.tagRx, (c.rxNames rec).address),
      inetSocketAddress AppsManager.anyAddress (sindex + 1001)) ∈ c.writes rec sindex := by
  refine List.mem_append_right _ ?_
  rw [rxWrites, if_neg (not_not.mpr h)]
  exact List.mem_cons_self

/-- What is known of a connection when everything it writes is accepted. -/
lemma linked_of_accepts (hmade : rec.Made)
    (h : ∀ w ∈ c.writes rec sindex, rec.accepts A w = true) : c.Linked rec sindex := by
  have hknown : ∀ w ∈ c.writes rec sindex, (rec w.1.1).isSome := fun w hw => by
    obtain ⟨R, hR, -⟩ := Records.accepts_iff.mp (h w hw)
    rw [hR]
    rfl
  obtain ⟨v, hv⟩ := tx_address_mem rec c sindex
  refine ⟨hknown _ hv, ?_, Records.ne_nil_of_accepts (h _ hv), fun hport => ?_,
    fun hport => ?_, fun hport => ?_⟩
  · by_cases hport : (c.rxNames rec).port = []
    · exact hknown _ (rx_address_mem hport)
    · exact hknown _ (rx_port_mem hport)
  · exact Records.ne_nil_of_accepts (h _ (rx_address_mem hport))
  · exact hmade.port_lt (Or.inl rfl) (h _ (tx_port_mem hport))
  · exact hmade.port_lt (Or.inr rfl) (h _ (rx_port_mem hport))

end Connection

/-- An attribute that no app line names is not set. -/
lemma AppsCompleteConfig.created_attributes_eq_none (cfg : AppsCompleteConfig)
    {key : List Char × List Char}
    (h : ∀ a ∈ cfg.app, key.1 = a.tag → ∀ x ∈ a.attribs, x.1 ≠ key.2) :
    cfg.created.attributes key = none := by
  change ((cfg.app.find? fun a => a.tag = key.1).bind fun a => a.attrs key.2) = none
  cases ha : cfg.app.find? fun a => a.tag = key.1 with
  | none => rfl
  | some a =>
    have htag : a.tag = key.1 := by simpa using List.find?_some ha
    refine assign_of_forall_ne fun w hw => ?_
    obtain ⟨x, hx, rfl⟩ := List.mem_map.mp hw
    exact h a (List.mem_of_find?_eq_some ha) htag.symm x hx

namespace AppsManager

variable {A : AttributeTable} {M M' : AppsManager}

/-- `SetAttribute`, with the store of all attributes. -/
lemma setAttribute_eq (tag name : List Char) (value : AttributeValue) :
    M.setAttribute A tag name value =
      if Records.accepts A M.records ((tag, name), value) = true then
        some { M with attributes := assign M.attributes [((tag, name), value)] }
      else none := by
  rw [setAttribute, Records.accepts]
  cases M.records tag with
  | none => rfl
  | some R => rfl

/-- Attributes of applications that are set one after the other. -/
def setAll (A : AttributeTable) (M : AppsManager) :
    List ((List Char × List Char) × AttributeValue) → Option AppsManager
  | [] => some M
  | w :: ws => (M.setAttribute A w.1.1 w.1.2 w.2).bind fun M => setAll A M ws

/-- **What setting attributes does.** All of them are set in order, if each is accepted. -/
theorem setAll_eq (ws : List ((List Char × List Char) × AttributeValue)) : setAll A M ws =
    if ∀ w ∈ ws, Records.accepts A M.records w = true then
      some { M with attributes := assign M.attributes ws }
    else none := by
  induction ws generalizing M with
  | nil => rw [if_pos (by simp)]; rfl
  | cons w ws ih =>
    rw [setAll, setAttribute_eq]
    simp only [List.forall_mem_cons]
    by_cases h : Records.accepts A M.records w = true
    · simp only [h, if_true, true_and, Option.bind_some]
      exact ih
    · simp only [h, Bool.false_eq_true, if_false, false_and, Option.bind_none]

/-- Attributes are set one list after the other. -/
lemma setAll_append (ws ws' : List ((List Char × List Char) × AttributeValue)) :
    setAll A M (ws ++ ws') = (setAll A M ws).bind fun M => setAll A M ws' := by
  induction ws generalizing M with
  | nil => rfl
  | cons w ws ih =>
    rw [List.cons_append, setAll, setAll, Option.bind_assoc]
    simp only [ih]

section Connect

variable (rec : Records) (c : Connection) (sindex : ℕ)

/-- The sender side of a connection sets what the connection writes there. -/
lemma setSender_eq :
    M.setSender A c.tagTx (c.txNames rec) (c.host rec) (sindex + 1001) =
      setAll A M (c.txWrites rec sindex) := by
  rw [setSender, Connection.txWrites]
  split
  · simp only [setAll, Option.bind_fun_some]
  · simp only [setAll, Option.bind_fun_some]

/-- The receiver side of a connection sets what the connection writes there. -/
lemma setReceiver_eq :
    M.setReceiver A c.tagRx (c.rxNames rec) (sindex + 1001) =
      setAll A M (c.rxWrites rec sindex) := by
  rw [setReceiver, Connection.rxWrites]
  split
  · split
    · simp only [setAll, Option.bind_fun_some]
    · simp only [setAll]
  · simp only [setAll, Option.bind_fun_some]

/-- What a connection writes to make the protocols match: nothing, if the sender has none. -/
def protoWrites (A : AttributeTable) (M : AppsManager) (c : Connection) :
    Option (List ((List Char × List Char) × AttributeValue)) :=
  if (c.txNames M.records).proto ≠ [] then
    (M.getAttribute A c.tagTx (c.txNames M.records).proto).map fun proto =>
      [((c.tagRx, (c.rxNames M.records).proto), proto)]
  else some []

/-- It writes the protocol of its receiver. -/
lemma isProto_of_mem_protoWrites {M : AppsManager} (hmade : Records.Made M.records)
    {c : Connection} {ws : List ((List Char × List Char) × AttributeValue)}
    (hws : M.protoWrites A c = some ws) {w : (List Char × List Char) × AttributeValue}
    (hw : w ∈ ws) : w.1.2 = [] ∨ IsProto w.1.2 := by
  rw [protoWrites] at hws
  split at hws
  · obtain ⟨proto, -, rfl⟩ := Option.map_eq_some_iff.mp hws
    rw [List.mem_singleton.mp hw]
    exact Records.Made.rxNames_proto hmade c
  · cases hws
    cases hw

/-- Making the protocols match sets one attribute, or none. -/
lemma matchProtocols_eq :
    M.matchProtocols A c.tagTx c.tagRx (c.txNames M.records) (c.rxNames M.records) =
      (M.protoWrites A c).bind (setAll A M) := by
  rw [matchProtocols, protoWrites]
  split
  · rw [Option.bind_map]
    simp only [setAll, Option.bind_fun_some, Function.comp_def]
  · rfl

/-- **What one connection does.** It sets the protocol of the receiver, if the sender has one, and
its addresses and ports. -/
theorem createConn1_eq : M.createConn1 A sindex c.rxIndex c.tagRx c.txIndex c.tagTx =
    (M.protoWrites A c).bind fun ws => setAll A M (ws ++ c.writes M.records sindex) := by
  have hunfold : M.createConn1 A sindex c.rxIndex c.tagRx c.txIndex c.tagTx =
      (M.matchProtocols A c.tagTx c.tagRx (c.txNames M.records) (c.rxNames M.records)).bind
        fun M' => if (c.txNames M.records).address = [] then none
          else (M'.setSender A c.tagTx (c.txNames M.records) (c.host M.records)
            (sindex + 1001)).bind fun M' =>
              M'.setReceiver A c.tagRx (c.rxNames M.records) (sindex + 1001) := rfl
  rw [hunfold, matchProtocols_eq, Option.bind_assoc]
  congr 1
  funext ws
  by_cases haddr : (c.txNames M.records).address = []
  · obtain ⟨v, hv⟩ := Connection.tx_address_mem M.records c sindex
    have hnot : ¬∀ w ∈ ws ++ c.writes M.records sindex,
        Records.accepts A M.records w = true := fun hall =>
      Records.ne_nil_of_accepts (hall _ (List.mem_append_right _ hv)) haddr
    simp only [haddr, if_true]
    rw [setAll_eq (ws ++ _), if_neg hnot]
    exact Option.bind_fun_none _
  · simp only [haddr, if_false, setSender_eq, setReceiver_eq, setAll_append, Connection.writes]

/-- When a connection is made, and what it leaves. -/
lemma createConn1_eq_some_iff :
    M.createConn1 A sindex c.rxIndex c.tagRx c.txIndex c.tagTx = some M' ↔
      ∃ ws, M.protoWrites A c = some ws ∧
        (∀ w ∈ ws ++ c.writes M.records sindex, Records.accepts A M.records w = true) ∧
        M' = { M with attributes := assign M.attributes (ws ++ c.writes M.records sindex) } := by
  rw [createConn1_eq, Option.bind_eq_some_iff]
  simp only [setAll_eq, Option.ite_none_right_eq_some, Option.some.injEq]
  simp only [eq_comm]

/-- A connection that is made writes its addresses and ports, and possibly a protocol. -/
lemma createConn1_eq_some {c : Connection} {sindex : ℕ} (hmade : Records.Made M.records)
    (h : M.createConn1 A sindex c.rxIndex c.tagRx c.txIndex c.tagTx = some M') :
    M'.records = M.records ∧ c.Linked M.records sindex ∧
      ∀ key, ¬IsProto key.2 →
        M'.attributes key = assign M.attributes (c.writes M.records sindex) key := by
  obtain ⟨ws, hws, hall, rfl⟩ := (createConn1_eq_some_iff c sindex).mp h
  refine ⟨rfl, Connection.linked_of_accepts hmade fun w hw =>
    hall w (List.mem_append_right _ hw), fun key hkey => ?_⟩
  dsimp only
  rw [assign_append]
  refine assign_congr (assign_of_forall_ne ?_) _
  rintro w hw rfl
  have hproto := isProto_of_mem_protoWrites hmade hws hw
  exact hkey (hproto.resolve_left
    (Records.ne_nil_of_accepts (hall w (List.mem_append_left _ hw))))

end Connect

/-! ### All connections -/

/-- The connections of a list, each with its number. -/
def connectList (A : AttributeTable) (M : AppsManager) : List (Connection × ℕ) → Option AppsManager
  | [] => some M
  | (c, sindex) :: cs =>
    (M.createConn1 A sindex c.rxIndex c.tagRx c.txIndex c.tagTx).bind fun M => connectList A M cs

/-- Connections are made one list after the other. -/
lemma connectList_append (cs cs' : List (Connection × ℕ)) :
    connectList A M (cs ++ cs') = (connectList A M cs).bind fun M => connectList A M cs' := by
  induction cs generalizing M with
  | nil => rfl
  | cons c cs ih =>
    rw [List.cons_append, connectList, connectList, Option.bind_assoc]
    simp only [ih]

/-- **What the connections of a list do.** -/
theorem connectList_eq_some {cs : List (Connection × ℕ)} (hmade : Records.Made M.records)
    (h : connectList A M cs = some M') :
    M'.records = M.records ∧ (∀ x ∈ cs, x.1.Linked M.records x.2) ∧
      ∀ key, ¬IsProto key.2 → M'.attributes key =
        assign M.attributes (cs.flatMap fun x => x.1.writes M.records x.2) key := by
  induction cs generalizing M with
  | nil =>
    cases h
    exact ⟨rfl, fun _ hx => (List.not_mem_nil hx).elim, fun _ _ => rfl⟩
  | cons c cs ih =>
    obtain ⟨M₁, h₁, h₂⟩ := Option.bind_eq_some_iff.mp h
    obtain ⟨hrec₁, hlinked, hattr₁⟩ := createConn1_eq_some hmade h₁
    obtain ⟨hrec₂, hlinked₂, hattr₂⟩ := ih (hrec₁ ▸ hmade) h₂
    rw [hrec₁] at hrec₂ hlinked₂ hattr₂
    refine ⟨hrec₂, List.forall_mem_cons.mpr ⟨hlinked, hlinked₂⟩, fun key hkey => ?_⟩
    rw [hattr₂ key hkey, List.flatMap_cons, assign_append]
    exact assign_congr (hattr₁ key hkey) _

/-- The loop over the senders makes the connections to one receiver. -/
lemma connectSenders_eq (rxIndex sindex : ℕ) (tagRx : List Char) (senders : List (List Char × ℕ)) :
    connectSenders A rxIndex tagRx M sindex senders =
      (connectList A M
        ((senders.map fun s => (⟨s.1, tagRx, s.2, rxIndex⟩ : Connection)).zipIdx sindex)).map
        fun M => (M, sindex + senders.length) := by
  induction senders generalizing M sindex with
  | nil => rfl
  | cons s senders ih =>
    rw [connectSenders, List.map_cons, List.zipIdx_cons, connectList, Option.map_bind]
    congr 1
    funext M
    rw [ih, List.length_cons, Nat.add_right_comm, Nat.add_assoc]
    rfl

/-- The loop over the receivers makes the connections of the statement. -/
lemma connectReceivers_eq (outDir : List Char) (connIndex sindex : ℕ) (cfg : AppConnectionConfig)
    (receivers : List (List Char × ℕ)) :
    (M.connectReceivers A outDir connIndex cfg.senders sindex receivers).map
        (fun r => (r.1, r.2.1)) =
      (connectList A M ((receivers.flatMap cfg.connectionsTo).zipIdx sindex)).map
        fun M => (M, sindex + (receivers.flatMap cfg.connectionsTo).length) := by
  induction receivers generalizing M sindex with
  | nil => rfl
  | cons t receivers ih =>
    have hlen : (cfg.connectionsTo t).length = cfg.senders.zipIdx.length := List.length_map _
    rw [connectReceivers, connectSenders_eq, List.flatMap_cons, List.zipIdx_append,
      connectList_append, Option.bind_map, Option.map_bind, Option.map_bind, List.length_append,
      hlen]
    congr 1
    funext M
    have hrest := @ih M (sindex + cfg.senders.zipIdx.length)
    rw [Nat.add_assoc] at hrest
    rw [Function.comp_apply, Function.comp_apply, Function.comp_apply, ← hrest, Option.map_map]
    rfl

/-- One statement makes its connections, unless it is refused. -/
lemma createConns_eq_ok {outDir : List Char} {connIndex sindex : ℕ} {cfg : AppConnectionConfig}
    {r : AppsManager × ℕ × List TraceFile}
    (h : M.createConns A outDir connIndex sindex cfg = .ok r) :
    M.validate cfg = none ∧ connectList A M (cfg.connections.zipIdx sindex) = some r.1 ∧
      r.2.1 = sindex + cfg.connections.length := by
  rw [createConns] at h
  split at h
  · cases h
  rename_i hvalid
  split at h
  · cases h
  rename_i r' hreceivers
  cases h
  have hmap := connectReceivers_eq (M := M) (A := A) outDir connIndex sindex cfg
    cfg.receivers.zipIdx
  rw [hreceivers] at hmap
  obtain ⟨M', hlist, heq⟩ := Option.map_eq_some_iff.mp hmap.symm
  obtain ⟨rfl, hlen⟩ := Prod.mk.inj heq
  exact ⟨hvalid, hlist, hlen.symm⟩

/-- The loop over the statements makes the connections of all of them. -/
lemma connectAll_eq_ok {outDir : List Char} {sindex : ℕ} {cfgs : List (AppConnectionConfig × ℕ)}
    {r : AppsManager × List TraceFile} (h : M.connectAll A outDir sindex cfgs = .ok r) :
    connectList A M ((cfgs.flatMap fun cfg => cfg.1.connections).zipIdx sindex) = some r.1 := by
  induction cfgs generalizing M sindex r with
  | nil =>
    cases h
    rfl
  | cons cfg cfgs ih =>
    rw [connectAll] at h
    split at h
    · cases h
    rename_i r₁ h₁
    split at h
    · cases h
    rename_i r₂ h₂
    cases h
    obtain ⟨-, hlist, hlen⟩ := createConns_eq_ok h₁
    rw [List.flatMap_cons, List.zipIdx_append, connectList_append]
    refine Option.bind_eq_some_iff.mpr ⟨r₁.1, hlist, ?_⟩
    rw [hlen] at h₂
    exact ih (r := r₂) h₂

/-! ### The applications -/

/-- Setting the attributes of an app line: all of them are set in order, if the class accepts
them. -/
lemma setAppAttribs_eq (type : AppType) (attrs : List Char → Option AttributeValue)
    (attribs : List (List Char × List Char)) : setAppAttribs A type attrs attribs =
      if ∀ a ∈ attribs, A.accepts type a.1 (.string a.2) = true then
        some (assign attrs (attribs.map fun a => (a.1, .string a.2)))
      else none := by
  induction attribs generalizing attrs with
  | nil => rw [if_pos (by simp)]; rfl
  | cons a attribs ih =>
    rw [setAppAttribs]
    simp only [List.forall_mem_cons]
    by_cases h : A.accepts type a.1 (.string a.2) = true
    · simp only [h, if_true, true_and]
      exact ih _
    · simp only [h, Bool.false_eq_true, if_false, false_and]

/-- The attributes of an app line. -/
lemma setAppAttribs_attribs (a : AppConfig) :
    setAppAttribs A a.type (fun _ => none) a.attribs =
      if a.Accepted A then some a.attrs else none :=
  setAppAttribs_eq _ _ _

/-- A new application. -/
def install (M : AppsManager) (a : AppConfig) (R : AppRecord) : AppsManager where
  records := Function.update M.records a.tag (some R)
  attributes := fun key => if key.1 = a.tag then a.attrs key.2 else M.attributes key

/-- Its record is added. -/
lemma install_records (a : AppConfig) (R : AppRecord) :
    (M.install a R).records = Function.update M.records a.tag (some R) := rfl

/-- Its attributes are those of its line. -/
lemma install_attributes (a : AppConfig) (R : AppRecord) (key : List Char × List Char) :
    (M.install a R).attributes key =
      if key.1 = a.tag then a.attrs key.2 else M.attributes key := rfl

/-- When an application is created, and what that does. -/
lemma createApp_eq_ok_iff {addr2netdev : ℕ → Bool} {a : AppConfig} :
    M.createApp A addr2netdev a = .ok M' ↔
      a.Accepted A ∧ M.records a.tag = none ∧ addr2netdev a.ip = true ∧
        ∃ R, AppRecord.ofType a.type a.ip = some R ∧ M' = M.install a R := by
  rw [createApp, setAppAttribs_attribs]
  cases AppRecord.ofType a.type a.ip with
  | none => simp
  | some R =>
    by_cases hacc : a.Accepted A
    · simp only [if_pos hacc]
      cases hnew : M.records a.tag with
      | none =>
        by_cases hhost : addr2netdev a.ip = true
        · simp only [hhost, hacc, Option.isSome_none, Bool.false_eq_true, if_false, if_true,
            true_and, Except.ok.injEq, Option.some.injEq, exists_eq_left']
          exact eq_comm
        · simp [hhost]
      | some S => simp
    · simp [hacc]

/-- **What creating the applications does.** Every app line is accepted and makes one record, with
the attributes of the line. -/
theorem createAll_eq_ok {addr2netdev : ℕ → Bool} {cfgs : List AppConfig}
    (h : M.createAll A addr2netdev cfgs = .ok M') :
    (∀ a ∈ cfgs, a.Accepted A ∧ a.type ≠ .invalid ∧ M.records a.tag = none) ∧
      (∀ tag, M'.records tag = (M.records tag).or
        ((cfgs.find? fun a => a.tag = tag).bind fun a => AppRecord.ofType a.type a.ip)) ∧
      ∀ key, M'.attributes key =
        (cfgs.find? fun a => a.tag = key.1).elim (M.attributes key) fun a => a.attrs key.2 := by
  induction cfgs generalizing M with
  | nil =>
    cases h
    exact ⟨fun _ ha => (List.not_mem_nil ha).elim, fun tag => by simp, fun _ => rfl⟩
  | cons a cfgs ih =>
    rw [createAll] at h
    split at h
    · cases h
    rename_i M₁ h₁
    obtain ⟨hacc, hnew, -, R, hR, rfl⟩ := createApp_eq_ok_iff.mp h₁
    obtain ⟨hall, hrec, hattr⟩ := ih h
    have hapart : ∀ b ∈ cfgs, b.tag ≠ a.tag ∧ M.records b.tag = none := by
      intro b hb
      have hnone := (hall b hb).2.2
      rw [install_records] at hnone
      by_cases htag : b.tag = a.tag
      · rw [htag, Function.update_self] at hnone
        cases hnone
      · rw [Function.update_of_ne htag] at hnone
        exact ⟨htag, hnone⟩
    have hfind : cfgs.find? (fun b => decide (b.tag = a.tag)) = none :=
      List.find?_eq_none.mpr fun b hb => by simpa using (hapart b hb).1
    refine ⟨List.forall_mem_cons.mpr ⟨⟨hacc, ?_, hnew⟩, fun b hb =>
      ⟨(hall b hb).1, (hall b hb).2.1, (hapart b hb).2⟩⟩, fun tag => ?_, fun key => ?_⟩
    · intro hinvalid
      rw [hinvalid] at hR
      cases hR
    · rw [hrec tag, install_records]
      by_cases htag : tag = a.tag
      · subst htag
        rw [Function.update_self, hnew, List.find?_cons_of_pos (by simp)]
        simp [hR]
      · rw [Function.update_of_ne htag, List.find?_cons_of_neg (by simpa using Ne.symm htag)]
    · rw [hattr key, install_attributes]
      by_cases htag : key.1 = a.tag
      · rw [htag, hfind, List.find?_cons_of_pos (by simp), if_pos rfl]
        rfl
      · rw [List.find?_cons_of_neg (by simpa using Ne.symm htag), if_neg htag]

/-- The applications are those of the configuration. -/
lemma eq_created {addr2netdev : ℕ → Bool} {cfg : AppsCompleteConfig}
    (h : init.createAll A addr2netdev cfg.app = .ok M) : M = cfg.created := by
  obtain ⟨-, hrec, hattr⟩ := createAll_eq_ok h
  have hrec' : M.records = cfg.created.records := by
    funext tag
    rw [hrec tag]
    rfl
  have hattr' : M.attributes = cfg.created.attributes := by
    funext key
    rw [hattr key]
    change _ = (cfg.app.find? fun a => a.tag = key.1).bind fun a => a.attrs key.2
    cases cfg.app.find? fun a => a.tag = key.1 with
    | none => rfl
    | some a => rfl
  obtain ⟨records, attributes⟩ := M
  cases hrec'
  cases hattr'
  rfl

/-- The records are those of the configuration. -/
lemma made_record (cfg : AppsCompleteConfig) : Records.Made cfg.record := by
  intro tag R h
  obtain ⟨a, -, ha⟩ := Option.bind_eq_some_iff.mp h
  have hsame : R.type = a.type ∧ R.hostIp = a.ip := by
    obtain ⟨tag, type, ip, attribs⟩ := a
    cases type <;> cases ha <;> exact ⟨rfl, rfl⟩
  rw [hsame.1, hsame.2]
  exact ha

/-- **What a successful run leaves.** All connections were made, and every attribute that is not a
protocol holds what the assignments of the connections, in their order, leave in it. -/
theorem createApps_eq_ok {addr2netdev : ℕ → Bool} {outDir : List Char} {cfg : AppsCompleteConfig}
    {r : AppsManager × List TraceFile} (h : createApps A addr2netdev outDir cfg = .ok r) :
    r.1.records = cfg.record ∧
      (∀ x ∈ cfg.connections.zipIdx, x.1.Linked cfg.record x.2) ∧
      ∀ key, ¬IsProto key.2 → r.1.attributes key = assign cfg.created.attributes
        (cfg.connections.zipIdx.flatMap fun x => x.1.writes cfg.record x.2) key := by
  rw [createApps] at h
  split at h
  · cases h
  rename_i M hM
  obtain rfl := eq_created hM
  have hlist := connectAll_eq_ok h
  have hflat : cfg.conn.zipIdx.flatMap (fun c => c.1.connections) = cfg.connections := by
    rw [AppsCompleteConfig.connections, ← List.zipIdx_map_fst 0 cfg.conn, List.flatMap_map,
      List.zipIdx_map_fst]
  rw [hflat] at hlist
  exact connectList_eq_some (made_record cfg) hlist

end AppsManager

end MeshSim
