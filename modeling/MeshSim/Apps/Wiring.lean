import MeshSim.Apps.Connections

/-!
# Which connections stay wired

A connection is wired when its sender sends to the host of its receiver, to the port that the
receiver listens on.  Every connection is wired when it is made, but the attributes it writes are
those of a slot of its sender and of a slot of its receiver, and a later connection through one of
the slots overwrites them.  The validation of a connect statement looks at the statement alone, so
several statements may share a slot that one statement may not.

`wired_iff` is exact: a connection stays wired if and only if the last connection through its
sender's slot leads to the same host, and the last connections through both slots have the same
port.
-/

namespace MeshSim

open PythonText Overwrite

/-! ### The two ends of a connection -/

namespace Connection

variable (rec : Records) (c y : Connection)

/-- Two connections use the same slot of the same sender. -/
def SharesTx : Prop :=
  y.tagTx = c.tagTx ∧ ((rec.get c.tagTx).txMultiple = true → y.rxIndex = c.rxIndex)

/-- Two connections use the same slot of the same receiver. -/
def SharesRx : Prop :=
  y.tagRx = c.tagRx ∧ ((rec.get c.tagRx).rxMultiple = true → y.txIndex = c.txIndex)

instance : Decidable (SharesTx rec c y) := inferInstanceAs (Decidable (_ ∧ _))

instance : Decidable (SharesRx rec c y) := inferInstanceAs (Decidable (_ ∧ _))

/-- An attribute that a connection writes at its sender. -/
def TxKey (key : List Char × List Char) : Prop :=
  key.1 = c.tagTx ∧ key.2 ≠ [] ∧ (key.2 = (c.txNames rec).address ∨ key.2 = (c.txNames rec).port)

/-- An attribute that a connection writes at its receiver. -/
def RxKey (key : List Char × List Char) : Prop :=
  key.1 = c.tagRx ∧ key.2 ≠ [] ∧ (key.2 = (c.rxNames rec).address ∨ key.2 = (c.rxNames rec).port)

variable {rec c y}

/-- What a connection writes at its sender. -/
lemma Linked.txKey {sindex : ℕ} (h : c.Linked rec sindex)
    {w : (List Char × List Char) × AttributeValue} (hw : w ∈ c.txWrites rec sindex) :
    c.TxKey rec w.1 := by
  rw [txWrites] at hw
  split at hw
  · rename_i hport
    rcases List.mem_cons.mp hw with rfl | hw
    · exact ⟨rfl, hport, Or.inr rfl⟩
    · rw [List.mem_singleton.mp hw]
      exact ⟨rfl, h.tx_address, Or.inl rfl⟩
  · rw [List.mem_singleton.mp hw]
    exact ⟨rfl, h.tx_address, Or.inl rfl⟩

/-- What a connection writes at its receiver. -/
lemma Linked.rxKey {sindex : ℕ} (h : c.Linked rec sindex)
    {w : (List Char × List Char) × AttributeValue} (hw : w ∈ c.rxWrites rec sindex) :
    c.RxKey rec w.1 := by
  rw [rxWrites] at hw
  split at hw
  · rename_i hport
    rcases List.mem_cons.mp hw with rfl | hw
    · exact ⟨rfl, hport, Or.inr rfl⟩
    · split at hw
      · rename_i haddr
        rw [List.mem_singleton.mp hw]
        exact ⟨rfl, haddr, Or.inl rfl⟩
      · cases hw
  · rename_i hport
    rw [List.mem_singleton.mp hw]
    exact ⟨rfl, h.rx_address (not_not.mp hport), Or.inl rfl⟩

section Keys

variable (hmade : rec.Made) {key : List Char × List Char}

include hmade

/-- An attribute of a sender side is a protocol of none. -/
lemma TxKey.not_isProto (h : c.TxKey rec key) : ¬IsProto key.2 := by
  obtain ⟨-, hne, hname⟩ := h
  cases hR : rec c.tagTx with
  | none =>
    rw [txNames, Records.get, hR] at hname
    exact absurd (hname.elim id id) hne
  | some R =>
    rw [txNames, Records.get_eq hR] at hname
    obtain ⟨-, -, haddr, hport, -⟩ := isProto_names (hmade _ _ hR) c.rxIndex
    rcases hname with h | h
    · rw [h]
      exact haddr
    · rw [h]
      exact hport

/-- An attribute of a receiver side is a protocol of none. -/
lemma RxKey.not_isProto (h : c.RxKey rec key) : ¬IsProto key.2 := by
  obtain ⟨-, hne, hname⟩ := h
  cases hR : rec c.tagRx with
  | none =>
    rw [rxNames, Records.get, hR] at hname
    exact absurd (hname.elim id id) hne
  | some R =>
    rw [rxNames, Records.get_eq hR] at hname
    obtain ⟨-, -, -, -, haddr, hport⟩ := isProto_names (hmade _ _ hR) c.txIndex
    rcases hname with h | h
    · rw [h]
      exact haddr
    · rw [h]
      exact hport

/-- No attribute belongs to both sides. -/
lemma TxKey.not_rxKey (h : c.TxKey rec key) : ¬y.RxKey rec key := by
  rintro ⟨htag', -, hname'⟩
  obtain ⟨htag, hne, hname⟩ := h
  cases hR : rec c.tagTx with
  | none =>
    rw [txNames, Records.get, hR] at hname
    exact hne (hname.elim id id)
  | some R =>
    rw [txNames, Records.get_eq hR] at hname
    rw [rxNames, ← htag', htag, Records.get_eq hR] at hname'
    obtain ⟨haddr, hport⟩ := names_apart (hmade _ _ hR) c.rxIndex y.txIndex
    rcases hname with h | h <;> rw [h] at hne hname'
    · exact (haddr.resolve_left hne).1 (hname'.resolve_right (haddr.resolve_left hne).2)
    · exact (hport.resolve_left hne).1 (hname'.resolve_right (hport.resolve_left hne).2)

/-- Connections that write the same attribute of a sender share its slot. -/
lemma TxKey.sharesTx (h : c.TxKey rec key) (h' : y.TxKey rec key) : SharesTx rec c y := by
  obtain ⟨htag, hne, hname⟩ := h
  obtain ⟨htag', -, hname'⟩ := h'
  have htags : y.tagTx = c.tagTx := htag'.symm.trans htag
  refine ⟨htags, fun hmult => ?_⟩
  cases hR : rec c.tagTx with
  | none =>
    rw [txNames, Records.get, hR] at hname
    exact absurd (hname.elim id id) hne
  | some R =>
    rw [Records.get_eq hR] at hmult
    rw [txNames, Records.get_eq hR] at hname
    rw [txNames, htags, Records.get_eq hR] at hname'
    have hnil : R.txNames.port = [] := by
      by_contra hport
      rw [(port_eq (hmade _ _ hR) 0).2.2.1 hport] at hmult
      cases hmult
    rw [(port_eq (hmade _ _ hR) _).1, hnil] at hname hname'
    have haddr := hname.resolve_right hne
    have haddr' := hname'.resolve_right hne
    exact (txNamesAt_address_eq_iff (hmade _ _ hR) (haddr ▸ hne)).mp (haddr'.symm.trans haddr)
      hmult

/-- Connections that write the same attribute of a receiver share its slot. -/
lemma RxKey.sharesRx (h : c.RxKey rec key) (h' : y.RxKey rec key) : SharesRx rec c y := by
  obtain ⟨htag, hne, hname⟩ := h
  obtain ⟨htag', -, hname'⟩ := h'
  have htags : y.tagRx = c.tagRx := htag'.symm.trans htag
  refine ⟨htags, fun hmult => ?_⟩
  cases hR : rec c.tagRx with
  | none =>
    rw [rxNames, Records.get, hR] at hname
    exact absurd (hname.elim id id) hne
  | some R =>
    rw [Records.get_eq hR] at hmult
    rw [rxNames, Records.get_eq hR] at hname
    rw [rxNames, htags, Records.get_eq hR] at hname'
    have hnil : R.rxNames.port = [] := by
      by_contra hport
      rw [(port_eq (hmade _ _ hR) 0).2.2.2 hport] at hmult
      cases hmult
    rw [(port_eq (hmade _ _ hR) _).2.1, hnil] at hname hname'
    have haddr := hname.resolve_right hne
    have haddr' := hname'.resolve_right hne
    exact (rxNamesAt_address_eq_iff (hmade _ _ hR) (haddr ▸ hne)).mp (haddr'.symm.trans haddr)
      hmult

/-- A connection that writes an attribute of a sender shares its slot. -/
lemma TxKey.sharesTx_of_writes (h : c.TxKey rec key) {n : ℕ} (hy : y.Linked rec n)
    (hw : ∃ w ∈ y.writes rec n, w.1 = key) : SharesTx rec c y := by
  obtain ⟨w, hw, rfl⟩ := hw
  rcases List.mem_append.mp hw with hw | hw
  · exact h.sharesTx hmade (hy.txKey hw)
  · exact absurd (hy.rxKey hw) (h.not_rxKey hmade)

/-- A connection that writes an attribute of a receiver shares its slot. -/
lemma RxKey.sharesRx_of_writes (h : c.RxKey rec key) {n : ℕ} (hy : y.Linked rec n)
    (hw : ∃ w ∈ y.writes rec n, w.1 = key) : SharesRx rec c y := by
  obtain ⟨w, hw, rfl⟩ := hw
  rcases List.mem_append.mp hw with hw | hw
  · exact absurd h ((hy.txKey hw).not_rxKey hmade)
  · exact h.sharesRx hmade (hy.rxKey hw)

end Keys

/-- Connections that share the slot of a sender name its attributes alike. -/
lemma SharesTx.txNames_eq (h : SharesTx rec c y) : y.txNames rec = c.txNames rec := by
  rw [txNames, txNames, h.1, AppRecord.txNamesAt, AppRecord.txNamesAt]
  split
  · rename_i hmult
    rw [h.2 hmult]
  · rfl

/-- Connections that share the slot of a receiver name its attributes alike. -/
lemma SharesRx.rxNames_eq (h : SharesRx rec c y) : y.rxNames rec = c.rxNames rec := by
  rw [rxNames, rxNames, h.1, AppRecord.rxNamesAt, AppRecord.rxNamesAt]
  split
  · rename_i hmult
    rw [h.2 hmult]
  · rfl

end Connection

/-! ### The last connection through a slot -/

/-- `c` is the last connection of a list with a property, and `m` is its number. -/
def LastUse (p : Connection → Prop) (cs : List Connection) (m : ℕ) (c : Connection) : Prop :=
  ∃ before after, cs = before ++ c :: after ∧ before.length = m ∧ p c ∧ ∀ y ∈ after, ¬p y

/-- There is a last one when there is one at all. -/
lemma exists_lastUse {p : Connection → Prop} {cs : List Connection} (h : ∃ c ∈ cs, p c) :
    ∃ m c, LastUse p cs m c := by
  induction cs using List.reverseRecOn with
  | nil =>
    obtain ⟨c, hc, -⟩ := h
    cases hc
  | append_singleton cs x ih =>
    by_cases hx : p x
    · exact ⟨_, x, cs, [], rfl, rfl, hx, fun _ hy => (List.not_mem_nil hy).elim⟩
    · obtain ⟨c, hc, hpc⟩ := h
      rcases List.mem_append.mp hc with hc | hc
      · obtain ⟨m, c', before, after, rfl, hm, hpc', hafter⟩ := ih ⟨c, hc, hpc⟩
        refine ⟨m, c', before, after ++ [x], by simp, hm, hpc', fun y hy => ?_⟩
        rcases List.mem_append.mp hy with hy | hy
        · exact hafter y hy
        · rw [List.mem_singleton.mp hy]
          exact hx
      · rw [List.mem_singleton.mp hc] at hpc
        exact absurd hpc hx

/-- There is only one last one. -/
lemma LastUse.unique {p : Connection → Prop} {cs : List Connection} {m m' : ℕ} {c c' : Connection}
    (h : LastUse p cs m c) (h' : LastUse p cs m' c') : m = m' ∧ c = c' := by
  obtain ⟨before, after, rfl, rfl, hc, hafter⟩ := h
  obtain ⟨before', after', heq, rfl, hc', hafter'⟩ := h'
  rcases List.append_eq_append_iff.mp heq with ⟨l, rfl, hl⟩ | ⟨l, rfl, hl⟩
  · cases l with
    | nil =>
      obtain ⟨rfl, -⟩ := List.cons.inj hl
      exact ⟨by simp, rfl⟩
    | cons x l =>
      obtain ⟨-, rfl⟩ := List.cons.inj hl
      exact absurd hc' (hafter c' (by simp))
  · cases l with
    | nil =>
      obtain ⟨rfl, -⟩ := List.cons.inj hl
      exact ⟨by simp, rfl⟩
    | cons x l =>
      obtain ⟨-, rfl⟩ := List.cons.inj hl
      exact absurd hc (hafter' c (by simp))

/-! ### What the attributes say -/

namespace AppsManager

/-- Where the sender of a connection sends: the address and the port. -/
def destination (M : AppsManager) (c : Connection) : Option (ℕ × ℕ) :=
  if (c.txNames M.records).port ≠ [] then
    match M.attributes (c.tagTx, (c.txNames M.records).address),
      M.attributes (c.tagTx, (c.txNames M.records).port) with
    | some (.ipv4 ip), some (.uinteger port) => some (ip, port)
    | _, _ => none
  else
    match M.attributes (c.tagTx, (c.txNames M.records).address) with
    | some (.inetSocket ip port) => some (ip, port)
    | _ => none

/-- The port on which the receiver of a connection listens for it, on all addresses of its host. -/
def listening (M : AppsManager) (c : Connection) : Option ℕ :=
  if (c.rxNames M.records).port ≠ [] then
    match M.attributes (c.tagRx, (c.rxNames M.records).port) with
    | some (.uinteger port) => some port
    | _ => none
  else
    match M.attributes (c.tagRx, (c.rxNames M.records).address) with
    | some (.inetSocket ip port) => if ip = anyAddress then some port else none
    | _ => none

/-- A connection is wired: its sender sends to the host of its receiver, to the port on which the
receiver listens. -/
def Wired (M : AppsManager) (c : Connection) : Prop :=
  ∃ port, M.destination c = some (c.host M.records, port) ∧ M.listening c = some port

section Final

variable {A : AttributeTable} {addr2netdev : ℕ → Bool} {outDir : List Char}
  {cfg : AppsCompleteConfig} {r : AppsManager × List TraceFile}
  (hok : createApps A addr2netdev outDir cfg = .ok r)

include hok

/-- The last connection through a slot was made. -/
lemma linked_of_lastUse {p : Connection → Prop} {m : ℕ} {c : Connection}
    (hlast : LastUse p cfg.connections m c) : c.Linked cfg.record m := by
  obtain ⟨before, after, hsplit, rfl, -⟩ := hlast
  refine (createApps_eq_ok hok).2.1 (c, before.length) ?_
  rw [hsplit, List.zipIdx_append, Nat.zero_add, List.zipIdx_cons]
  exact List.mem_append_right _ List.mem_cons_self

/-- What an attribute holds that the last connection through a slot has written. -/
lemma attributes_eq_of_lastUse {p : Connection → Prop} {m : ℕ} {c : Connection}
    (hlast : LastUse p cfg.connections m c) {key : List Char × List Char} (hkey : ¬IsProto key.2)
    (hp : ∀ y n, y.Linked cfg.record n → (∃ w ∈ y.writes cfg.record n, w.1 = key) → p y) :
    ∃ s, r.1.attributes key = assign s (c.writes cfg.record m) key := by
  obtain ⟨before, after, hsplit, rfl, -, hafter⟩ := hlast
  obtain ⟨-, hlinked, hattr⟩ := createApps_eq_ok hok
  have hzip : cfg.connections.zipIdx =
      before.zipIdx ++ (c, before.length) :: after.zipIdx (before.length + 1) := by
    rw [hsplit, List.zipIdx_append, Nat.zero_add, List.zipIdx_cons]
  rw [hzip] at hlinked hattr
  refine ⟨_, (hattr key hkey).trans (assign_flatMap_of_last _ _ ?_)⟩
  intro y hy w hw heq
  have hylinked := hlinked y (List.mem_append_right _ (List.mem_cons_of_mem _ hy))
  exact hafter y.1 (List.fst_mem_of_mem_zipIdx hy) (hp y.1 y.2 hylinked ⟨w, hw, heq⟩)

/-- What an attribute of a sender holds in the end. -/
lemma attributes_txKey {c c' : Connection} {m : ℕ}
    (hlast : LastUse (Connection.SharesTx cfg.record c) cfg.connections m c')
    (key : List Char × List Char) (hkey : c.TxKey cfg.record key) :
    ∃ s, r.1.attributes key = assign s (c'.txWrites cfg.record m) key := by
  have hmade := made_record cfg
  obtain ⟨s, hs⟩ := attributes_eq_of_lastUse hok hlast (hkey.not_isProto hmade)
    fun _ _ hy hw => hkey.sharesTx_of_writes hmade hy hw
  refine ⟨s, hs.trans ?_⟩
  rw [Connection.writes, assign_append]
  refine assign_of_forall_ne ?_
  rintro w hw rfl
  exact hkey.not_rxKey hmade ((linked_of_lastUse hok hlast).rxKey hw)

/-- What an attribute of a receiver holds in the end. -/
lemma attributes_rxKey {c c' : Connection} {m : ℕ}
    (hlast : LastUse (Connection.SharesRx cfg.record c) cfg.connections m c')
    (key : List Char × List Char) (hkey : c.RxKey cfg.record key) :
    ∃ s, r.1.attributes key = assign s (c'.rxWrites cfg.record m) key := by
  have hmade := made_record cfg
  obtain ⟨s, hs⟩ := attributes_eq_of_lastUse hok hlast (hkey.not_isProto hmade)
    fun _ _ hy hw => hkey.sharesRx_of_writes hmade hy hw
  refine ⟨assign s (c'.txWrites cfg.record m), hs.trans ?_⟩
  rw [Connection.writes, assign_append]

/-- **Where a sender sends in the end.** The last connection through its slot decides. -/
theorem destination_eq {c c' : Connection} {m : ℕ}
    (hlast : LastUse (Connection.SharesTx cfg.record c) cfg.connections m c') :
    r.1.destination c = some (c'.host cfg.record, (m + 1001) % 2 ^ 16) := by
  have hlinked := linked_of_lastUse hok hlast
  obtain ⟨-, -, -, -, hshare, -⟩ := id hlast
  have hnames := hshare.txNames_eq
  have haddr : (c.txNames cfg.record).address ≠ [] := hnames ▸ hlinked.tx_address
  obtain ⟨s, hs⟩ := attributes_txKey hok hlast (c.tagTx, (c.txNames cfg.record).address)
    ⟨rfl, haddr, Or.inl rfl⟩
  rw [destination, (createApps_eq_ok hok).1, hs, Connection.txWrites, hnames, hshare.1]
  by_cases hport : (c.txNames cfg.record).port = []
  · rw [if_neg (not_not.mpr hport), if_neg (not_not.mpr hport), assign_cons, assign_nil,
      Function.update_self]
    rfl
  · obtain ⟨s', hs'⟩ := attributes_txKey hok hlast (c.tagTx, (c.txNames cfg.record).port)
      ⟨rfl, hport, Or.inr rfl⟩
    have hne : (c.tagTx, (c.txNames cfg.record).port) ≠
        (c.tagTx, (c.txNames cfg.record).address) := by
      intro heq
      obtain ⟨R, hR⟩ := Option.isSome_iff_exists.mp hlinked.tx_known
      rw [hshare.1] at hR
      have hpa := (port_ne_address (made_record cfg _ _ hR) c.rxIndex).1
      rw [Connection.txNames, Records.get_eq hR] at hport heq
      exact hpa.resolve_left hport (Prod.mk.inj heq).2
    have hlt := hlinked.tx_port (by rw [hnames]; exact hport)
    rw [hs', Connection.txWrites, hnames, hshare.1]
    simp only [if_pos hport, assign_cons, assign_nil, Function.update_self,
      Function.update_of_ne hne, Nat.mod_eq_of_lt hlt]

/-- **Where a receiver listens in the end.** The last connection through its slot decides. -/
theorem listening_eq {c c' : Connection} {m : ℕ}
    (hlast : LastUse (Connection.SharesRx cfg.record c) cfg.connections m c') :
    r.1.listening c = some ((m + 1001) % 2 ^ 16) := by
  have hlinked := linked_of_lastUse hok hlast
  obtain ⟨-, -, -, -, hshare, -⟩ := id hlast
  have hnames := hshare.rxNames_eq
  rw [listening, (createApps_eq_ok hok).1]
  by_cases hport : (c.rxNames cfg.record).port = []
  · have haddr : (c.rxNames cfg.record).address ≠ [] :=
      hnames ▸ hlinked.rx_address (hnames ▸ hport)
    obtain ⟨s, hs⟩ := attributes_rxKey hok hlast
      (c.tagRx, (c.rxNames cfg.record).address) ⟨rfl, haddr, Or.inl rfl⟩
    rw [if_neg (not_not.mpr hport), hs, Connection.rxWrites, hnames, hshare.1,
      if_neg (not_not.mpr hport), assign_cons, assign_nil, Function.update_self]
    exact if_pos rfl
  · obtain ⟨s, hs⟩ := attributes_rxKey hok hlast (c.tagRx, (c.rxNames cfg.record).port)
      ⟨rfl, hport, Or.inr rfl⟩
    have hne : (c.tagRx, (c.rxNames cfg.record).port) ≠
        (c.tagRx, (c.rxNames cfg.record).address) := by
      intro heq
      obtain ⟨R, hR⟩ := Option.isSome_iff_exists.mp hlinked.rx_known
      rw [hshare.1] at hR
      have hpa := (port_ne_address (made_record cfg _ _ hR) c.txIndex).2
      rw [Connection.rxNames, Records.get_eq hR] at hport heq
      exact hpa.resolve_left hport (Prod.mk.inj heq).2
    have hlt := hlinked.rx_port (by rw [hnames]; exact hport)
    rw [if_pos hport, hs, Connection.rxWrites, hnames, hshare.1, if_pos hport, assign_cons]
    have htail : assign (Function.update s (c.tagRx, (c.rxNames cfg.record).port)
        (some (.uinteger (m + 1001))))
        (if (c.rxNames cfg.record).address ≠ [] then
          [((c.tagRx, (c.rxNames cfg.record).address), .ipv4 anyAddress)] else [])
        (c.tagRx, (c.rxNames cfg.record).port) = some (.uinteger (m + 1001)) := by
      rw [assign_of_forall_ne, Function.update_self]
      intro w hw
      split at hw
      · rw [List.mem_singleton.mp hw]
        exact hne.symm
      · cases hw
    rw [htail, Nat.mod_eq_of_lt hlt]

/-- **Which connections stay wired.** A connection is wired in the end exactly when the last
connection through its sender's slot leads to the host of its receiver, and the last connections
through the slots of its sender and of its receiver have the same port: they are the same
connection, or their numbers differ by a multiple of `2 ^ 16`. -/
theorem wired_iff {c : Connection} (hc : c ∈ cfg.connections) :
    r.1.Wired c ↔ ∃ m cTx n cRx,
      LastUse (Connection.SharesTx cfg.record c) cfg.connections m cTx ∧
      LastUse (Connection.SharesRx cfg.record c) cfg.connections n cRx ∧
      cTx.host cfg.record = c.host cfg.record ∧ m % 2 ^ 16 = n % 2 ^ 16 := by
  obtain ⟨m, cTx, hTx⟩ :=
    exists_lastUse (p := Connection.SharesTx cfg.record c) ⟨c, hc, rfl, fun _ => rfl⟩
  obtain ⟨n, cRx, hRx⟩ :=
    exists_lastUse (p := Connection.SharesRx cfg.record c) ⟨c, hc, rfl, fun _ => rfl⟩
  rw [Wired, destination_eq hok hTx, listening_eq hok hRx, (createApps_eq_ok hok).1]
  constructor
  · rintro ⟨port, hdest, hlisten⟩
    obtain ⟨hhost, rfl⟩ := Prod.mk.inj (Option.some.inj hdest)
    have hport := Option.some.inj hlisten
    exact ⟨m, cTx, n, cRx, hTx, hRx, hhost, by omega⟩
  · rintro ⟨m', cTx', n', cRx', hTx', hRx', hhost, hmod⟩
    obtain ⟨rfl, rfl⟩ := hTx.unique hTx'
    obtain ⟨rfl, rfl⟩ := hRx.unique hRx'
    refine ⟨(m + 1001) % 2 ^ 16, by rw [hhost], ?_⟩
    exact congrArg some (by omega)

end Final

/-- A table in which every attribute with a name exists and accepts every value, ports excepted. -/
def lenient : AttributeTable where
  initial := fun _ _ => some (.typeId [])
  accepts := fun _ name value => decide (name ≠ []) &&
    match value with
    | .uinteger port => decide (port < 2 ^ 16)
    | _ => true
  accepts_nil := fun _ _ => rfl
  accepts_port := by
    rintro type ip R port - (h | h)
    · exact of_decide_eq_true (Bool.and_eq_true_iff.mp h).2
    · exact of_decide_eq_true (Bool.and_eq_true_iff.mp h).2

/-- Two echo clients on the hosts 1 and 2 and an echo server on host 3, and another one. -/
def echoApps : List AppConfig :=
  [{ tag := ['a'], type := .udpEchoClient, ip := 1, attribs := [] },
    { tag := ['b'], type := .udpEchoClient, ip := 2, attribs := [] },
    { tag := ['s'], type := .udpEchoServer, ip := 3, attribs := [] },
    { tag := ['t'], type := .udpEchoServer, ip := 3, attribs := [] }]

/-- Each client is connected to a server of its own. -/
theorem wired_iff_echo :
    ∃ r, createApps lenient (fun _ => true) []
        { app := echoApps, conn := [⟨[['a']], [['s']]⟩, ⟨[['b']], [['t']]⟩] } = .ok r ∧
      r.1.Wired ⟨['a'], ['s'], 0, 0⟩ := by
  have hsome : (createApps lenient (fun _ => true) []
      { app := echoApps, conn := [⟨[['a']], [['s']]⟩, ⟨[['b']], [['t']]⟩] }).isOk = true := by
    decide +kernel
  cases hr : createApps lenient (fun _ => true) []
      { app := echoApps, conn := [⟨[['a']], [['s']]⟩, ⟨[['b']], [['t']]⟩] } with
  | error e =>
    rw [hr] at hsome
    cases hsome
  | ok r =>
    have hlast : ∀ p : Connection → Prop, p ⟨['a'], ['s'], 0, 0⟩ → ¬p ⟨['b'], ['t'], 0, 0⟩ →
        LastUse p (AppsCompleteConfig.connections
          { app := echoApps, conn := [⟨[['a']], [['s']]⟩, ⟨[['b']], [['t']]⟩] }) 0
          ⟨['a'], ['s'], 0, 0⟩ := by
      intro p hp hnot
      refine ⟨[], [⟨['b'], ['t'], 0, 0⟩], rfl, rfl, hp, fun y hy => ?_⟩
      rw [List.mem_singleton.mp hy]
      exact hnot
    refine ⟨r, rfl, (wired_iff hr (by decide)).mpr ⟨0, _, 0, _, hlast _ ?_ ?_, hlast _ ?_ ?_,
      rfl, rfl⟩⟩ <;> decide +kernel

/-- **A connection can be overwritten.** Two clients that are connected to one server by two
statements: the first one still sends to the port that the server no longer listens on. -/
theorem not_wired :
    ¬∀ (A : AttributeTable) (addr2netdev : ℕ → Bool) (outDir : List Char)
      (cfg : AppsCompleteConfig) (r : AppsManager × List TraceFile),
      createApps A addr2netdev outDir cfg = .ok r → ∀ c ∈ cfg.connections, r.1.Wired c := by
  intro h
  have hends : (createApps lenient (fun _ => true) []
      { app := echoApps, conn := [⟨[['a']], [['s']]⟩, ⟨[['b']], [['s']]⟩] }).toOption.map
        (fun r => (r.1.destination ⟨['a'], ['s'], 0, 0⟩, r.1.listening ⟨['a'], ['s'], 0, 0⟩)) =
      some (some (3, 1001), some 1002) := by
    decide +kernel
  cases hr : createApps lenient (fun _ => true) []
      { app := echoApps, conn := [⟨[['a']], [['s']]⟩, ⟨[['b']], [['s']]⟩] } with
  | error e =>
    rw [hr] at hends
    cases hends
  | ok r =>
    obtain ⟨port, hdest, hlisten⟩ := h _ _ _ _ r hr ⟨['a'], ['s'], 0, 0⟩ (by decide)
    rw [hr] at hends
    obtain ⟨hdest', hlisten'⟩ := Prod.mk.inj (Option.some.inj hends)
    rw [hdest', Option.some.injEq, Prod.mk.injEq] at hdest
    rw [hlisten', Option.some.injEq] at hlisten
    omega

end AppsManager

end MeshSim
