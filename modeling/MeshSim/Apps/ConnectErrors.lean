import MeshSim.Apps.Wiring

/-!
# Connect statements that cannot be wired

A connect statement cannot be wired when it names a tag without an app, or an app that cannot be
told where to send or where to listen.  The validation of `createConns` looks at the number of tags
and at the support for several connections only, so such a statement usually gets to `createConn1`,
which dereferences a null pointer, violates its assertion, or sets an attribute with an empty name:
the run is `AppsError.aborted`.  A run that is `AppsError.refused` has made all its calls before the
refusal on applications and for attributes that exist.

`reported_iff` says exactly when `createApps` returns `false` instead: when something else is wrong
with the configuration, and this is noticed before.
-/

namespace MeshSim

open PythonText Overwrite

/-! ### Reaching a member of a list -/

section Reaches

variable {α β : Type*}

/-- A member of a list with a property is reached: what is before it is passed. -/
def Reaches (p : α → Prop) (passed : List α → Prop) (l : List α) : Prop :=
  ∃ before a after, l = before ++ a :: after ∧ p a ∧ passed before

/-- Nothing is reached in an empty list. -/
lemma not_reaches_nil (p : α → Prop) (passed : List α → Prop) : ¬Reaches p passed [] := by
  rintro ⟨before, a, after, heq, -⟩
  exact List.append_ne_nil_of_right_ne_nil _ (List.cons_ne_nil _ _) heq.symm

/-- The first member is reached, or one behind it. -/
lemma reaches_cons_iff {p : α → Prop} {passed : List α → Prop} {a : α} {l : List α} :
    Reaches p passed (a :: l) ↔
      p a ∧ passed [] ∨ Reaches p (fun before => passed (a :: before)) l := by
  constructor
  · rintro ⟨before, b, after, heq, hb, hpassed⟩
    cases before with
    | nil =>
      obtain ⟨rfl, -⟩ := List.cons.inj heq
      exact Or.inl ⟨hb, hpassed⟩
    | cons x before =>
      obtain ⟨rfl, rfl⟩ := List.cons.inj heq
      exact Or.inr ⟨before, b, after, rfl, hb, hpassed⟩
  · rintro (⟨ha, hpassed⟩ | ⟨before, b, after, rfl, hb, hpassed⟩)
    · exact ⟨[], a, l, rfl, ha, hpassed⟩
    · exact ⟨a :: before, b, after, rfl, hb, hpassed⟩

/-- Reaching in the image of a list. -/
lemma reaches_map_iff {f : β → α} {p : α → Prop} {passed : List α → Prop} {l : List β} :
    Reaches p passed (l.map f) ↔
      Reaches (fun b => p (f b)) (fun before => passed (before.map f)) l := by
  induction l generalizing passed with
  | nil => exact iff_of_false (not_reaches_nil _ _) (not_reaches_nil _ _)
  | cons b l ih =>
    rw [List.map_cons, reaches_cons_iff, reaches_cons_iff, ih]
    rfl

end Reaches

/-! ### What cannot be wired -/

/-- A statement that cannot be wired: a tag is that of no app line, or the type of a sender has no
attribute for the address to send to, or the type of a receiver has none for the port or the address
to listen on. -/
def AppsCompleteConfig.Unwireable (cfg : AppsCompleteConfig) (st : AppConnectionConfig) : Prop :=
  (∃ tag, (tag ∈ st.senders ∨ tag ∈ st.receivers) ∧ ∀ a ∈ cfg.app, a.tag ≠ tag) ∨
    (∃ a ∈ cfg.app, a.tag ∈ st.senders ∧
      ∀ R, AppRecord.ofType a.type a.ip = some R → R.txNames.address = []) ∨
    ∃ a ∈ cfg.app, a.tag ∈ st.receivers ∧
      ∀ R, AppRecord.ofType a.type a.ip = some R → R.rxNames.port = [] ∧ R.rxNames.address = []

/-- A tag of no app line has no record. -/
lemma AppsCompleteConfig.record_eq_none (cfg : AppsCompleteConfig) {tag : List Char}
    (h : ∀ a ∈ cfg.app, a.tag ≠ tag) : cfg.record tag = none := by
  have hfind : (cfg.app.find? fun a => a.tag = tag) = none :=
    List.find?_eq_none.mpr fun a ha => by simpa using h a ha
  rw [AppsCompleteConfig.record, hfind]
  rfl

/-- The tag of an app line has the record of its type, if no other line has the tag. -/
lemma AppsCompleteConfig.record_eq (cfg : AppsCompleteConfig)
    (htags : (cfg.app.map AppConfig.tag).Nodup) {a : AppConfig} (ha : a ∈ cfg.app) :
    cfg.record a.tag = AppRecord.ofType a.type a.ip := by
  have hfind : (cfg.app.find? fun b => b.tag = a.tag) = some a := by
    cases hb : cfg.app.find? fun b => b.tag = a.tag with
    | none => simpa using List.find?_eq_none.mp hb a ha
    | some b =>
      have htag : b.tag = a.tag := by simpa using List.find?_some hb
      exact congrArg some
        (List.inj_on_of_nodup_map htags (List.mem_of_find?_eq_some hb) ha htag)
  rw [AppsCompleteConfig.record, hfind]
  rfl

/-- A missing attribute is missing for every index. -/
lemma AppRecord.namesAt_nil (R : AppRecord) (i : ℕ) :
    (R.txNames.address = [] → (R.txNamesAt i).address = []) ∧
      (R.rxNames.port = [] → (R.rxNamesAt i).port = []) ∧
      (R.rxNames.address = [] → (R.rxNamesAt i).address = []) := by
  rw [AppRecord.txNamesAt, AppRecord.rxNamesAt]
  refine ⟨fun h => ?_, fun h => ?_, fun h => ?_⟩ <;> split <;>
    simp [getNamesFromNameTemplates, tsubst, h]

/-- A statement connects each of its senders to each of its receivers. -/
lemma AppConnectionConfig.exists_connection {st : AppConnectionConfig} {s t : List Char}
    (hs : s ∈ st.senders) (ht : t ∈ st.receivers) :
    ∃ c ∈ st.connections, c.tagTx = s ∧ c.tagRx = t := by
  obtain ⟨i, hi⟩ := List.mem_iff_getElem?.mp hs
  obtain ⟨j, hj⟩ := List.mem_iff_getElem?.mp ht
  have hsender := List.mk_mem_zipIdx_iff_getElem?.mpr hi
  have hreceiver := List.mk_mem_zipIdx_iff_getElem?.mpr hj
  exact ⟨⟨s, t, i, j⟩, List.mem_flatMap.mpr ⟨(t, j), hreceiver,
    List.mem_map.mpr ⟨(s, i), hsender, rfl⟩⟩, rfl, rfl⟩

/-- A statement that is refused: it has several senders and several receivers, or several senders to
a receiver that supports only one, or several receivers from a sender that supports only one. -/
def AppConnectionConfig.Refused (rec : Records) (st : AppConnectionConfig) : Prop :=
  (st.senders.length ≠ 1 ∧ st.receivers.length ≠ 1) ∨
    (1 < st.senders.length ∧ (rec.get (st.receivers.headD [])).rxMultiple = false) ∨
    (1 < st.receivers.length ∧ (rec.get (st.senders.headD [])).txMultiple = false)

namespace AppsManager

variable {A : AttributeTable} {M M' : AppsManager}

/-- A connection can be made: the receiver accepts the protocol of the sender, if the sender has
one, and both applications accept their addresses and ports. -/
def Connectable (A : AttributeTable) (M : AppsManager) (c : Connection) (sindex : ℕ) : Prop :=
  ((c.txNames M.records).proto ≠ [] →
      ∃ proto, M.getAttribute A c.tagTx (c.txNames M.records).proto = some proto ∧
        Records.accepts A M.records ((c.tagRx, (c.rxNames M.records).proto), proto) = true) ∧
    ∀ w ∈ c.writes M.records sindex, Records.accepts A M.records w = true

end AppsManager

/-- The configuration is refused, for an app line of an invalid type or for a refused statement,
before an app line or a connection ends the program. -/
def AppsCompleteConfig.Refused (A : AttributeTable) (cfg : AppsCompleteConfig) : Prop :=
  Reaches (fun a => a.type = .invalid) (fun before => ∀ a ∈ before, a.Accepted A) cfg.app ∨
    (∀ a ∈ cfg.app, a.type ≠ .invalid ∧ a.Accepted A) ∧
      Reaches (fun st => st.Refused cfg.record)
        (fun before => ∀ x ∈ (before.flatMap AppConnectionConfig.connections).zipIdx,
          cfg.created.Connectable A x.1 x.2) cfg.conn

namespace AppsManager

variable {A : AttributeTable} {M M' : AppsManager}

/-! ### The connections -/

/-- Whether a connection is made. -/
lemma createConn1_isSome_iff (c : Connection) (sindex : ℕ) :
    (M.createConn1 A sindex c.rxIndex c.tagRx c.txIndex c.tagTx).isSome ↔
      M.Connectable A c sindex := by
  have hproto : (∃ ws, M.protoWrites A c = some ws ∧
      ∀ w ∈ ws, Records.accepts A M.records w = true) ↔
        ((c.txNames M.records).proto ≠ [] →
          ∃ proto, M.getAttribute A c.tagTx (c.txNames M.records).proto = some proto ∧
            Records.accepts A M.records ((c.tagRx, (c.rxNames M.records).proto), proto)) := by
    rw [protoWrites]
    by_cases hne : (c.txNames M.records).proto = []
    · simp [hne]
    · rw [if_pos hne]
      constructor
      · rintro ⟨ws, hws, hall⟩ -
        obtain ⟨proto, hproto, rfl⟩ := Option.map_eq_some_iff.mp hws
        exact ⟨proto, hproto, hall _ (List.mem_singleton_self _)⟩
      · intro h
        obtain ⟨proto, hproto, hacc⟩ := h hne
        exact ⟨_, Option.map_eq_some_iff.mpr ⟨proto, hproto, rfl⟩,
          List.forall_mem_singleton.mpr hacc⟩
  rw [Connectable, ← hproto, Option.isSome_iff_exists]
  constructor
  · rintro ⟨M', h⟩
    obtain ⟨ws, hws, hall, -⟩ := (createConn1_eq_some_iff c sindex).mp h
    rw [List.forall_mem_append] at hall
    exact ⟨⟨ws, hws, hall.1⟩, hall.2⟩
  · rintro ⟨⟨ws, hws, hall⟩, hwrites⟩
    exact ⟨_, (createConn1_eq_some_iff c sindex).mpr
      ⟨ws, hws, List.forall_mem_append.mpr ⟨hall, hwrites⟩, rfl⟩⟩

/-- A connection does not change the protocol of any sender. -/
lemma createConn1_proto (hmade : Records.Made M.records) {c : Connection} {sindex : ℕ}
    (h : M.createConn1 A sindex c.rxIndex c.tagRx c.txIndex c.tagTx = some M') (y : Connection)
    (hne : (y.txNames M.records).proto ≠ []) :
    M'.attributes (y.tagTx, (y.txNames M.records).proto) =
      M.attributes (y.tagTx, (y.txNames M.records).proto) := by
  obtain ⟨ws, hws, hall, rfl⟩ := (createConn1_eq_some_iff c sindex).mp h
  rw [List.forall_mem_append] at hall
  cases hR : M.records y.tagTx with
  | none =>
    rw [Connection.txNames, Records.get, hR] at hne
    exact absurd rfl hne
  | some R =>
    have hnames : y.txNames M.records = R.txNamesAt y.rxIndex := by
      rw [Connection.txNames, Records.get_eq hR]
    have hproto : IsProto (y.txNames M.records).proto := by
      rw [hnames] at hne ⊢
      exact (isProto_names (hmade _ _ hR) _).1.resolve_left hne
    refine assign_of_forall_ne fun w hw heq => ?_
    rcases List.mem_append.mp hw with hw | hw
    · rw [protoWrites] at hws
      split at hws
      · obtain ⟨proto, -, rfl⟩ := Option.map_eq_some_iff.mp hws
        rw [List.mem_singleton.mp hw] at heq
        obtain ⟨htag, hname⟩ := Prod.mk.inj heq
        rw [Connection.rxNames, htag, Records.get_eq hR, hnames] at hname
        rw [hnames] at hne
        exact (protos_apart (hmade _ _ hR) _ _).resolve_left hne hname.symm
      · cases hws
        cases hw
    · have hlinked := Connection.linked_of_accepts hmade hall.2
      have hnot : ¬IsProto w.1.2 := by
        rcases List.mem_append.mp hw with hw | hw
        · exact (hlinked.txKey hw).not_isProto hmade
        · exact (hlinked.rxKey hw).not_isProto hmade
      rw [heq] at hnot
      exact hnot hproto

/-- A connection that is made does not change which connections can be made. -/
lemma createConn1_connectable (hmade : Records.Made M.records) {c : Connection} {sindex : ℕ}
    (h : M.createConn1 A sindex c.rxIndex c.tagRx c.txIndex c.tagTx = some M') (y : Connection)
    (n : ℕ) : M'.Connectable A y n ↔ M.Connectable A y n := by
  have hrec := (createConn1_eq_some hmade h).1
  rw [Connectable, Connectable, hrec]
  refine and_congr_left' (forall_congr' fun hne => ?_)
  rw [getAttribute, getAttribute, hrec, createConn1_proto hmade h y hne]

/-- A list of connections is made when each of them can be made, and this stays so. -/
lemma connectList_isSome_iff (hmade : Records.Made M.records) (cs : List (Connection × ℕ)) :
    (connectList A M cs).isSome ↔ ∀ x ∈ cs, M.Connectable A x.1 x.2 := by
  induction cs generalizing M with
  | nil => simp [connectList]
  | cons x cs ih =>
    rw [connectList, List.forall_mem_cons, ← createConn1_isSome_iff]
    cases h : M.createConn1 A x.2 x.1.rxIndex x.1.tagRx x.1.txIndex x.1.tagTx with
    | none => simp
    | some M₁ =>
      have hrec := (createConn1_eq_some hmade h).1
      rw [Option.bind_some, ih (hrec ▸ hmade)]
      simp only [createConn1_connectable hmade h, Option.isSome_some, true_and]

/-- Connections that are made do not change which connections can be made. -/
lemma connectList_connectable (hmade : Records.Made M.records) {cs : List (Connection × ℕ)}
    (h : connectList A M cs = some M') (y : Connection) (n : ℕ) :
    M'.Connectable A y n ↔ M.Connectable A y n := by
  induction cs generalizing M with
  | nil =>
    cases h
    rfl
  | cons x cs ih =>
    obtain ⟨M₁, h₁, h₂⟩ := Option.bind_eq_some_iff.mp h
    have hrec := (createConn1_eq_some hmade h₁).1
    rw [ih (hrec ▸ hmade) h₂, createConn1_connectable hmade h₁]

/-! ### The statements -/

/-- The validation refuses what is refused. -/
lemma validate_eq_none_iff {st : AppConnectionConfig} :
    M.validate st = none ↔ ¬st.Refused M.records := by
  rw [AppConnectionConfig.Refused, not_or, not_or]
  change (if st.senders.length ≠ 1 ∧ st.receivers.length ≠ 1 then _ else
    if 1 < st.senders.length ∧ (Records.get M.records (st.receivers.headD [])).rxMultiple = false
    then _ else
    if 1 < st.receivers.length ∧ (Records.get M.records (st.senders.headD [])).txMultiple = false
    then _ else _) = none ↔ _
  split
  · rename_i h
    exact iff_of_false (by simp) fun hnot => hnot.1 h
  · rename_i h
    split
    · rename_i h₁
      exact iff_of_false (by simp) fun hnot => hnot.2.1 h₁
    · rename_i h₁
      split
      · rename_i h₂
        exact iff_of_false (by simp) fun hnot => hnot.2.2 h₂
      · rename_i h₂
        exact iff_of_true rfl ⟨h, h₁, h₂⟩

/-- A statement that is not refused makes its connections, or ends the program. -/
lemma createConns_eq_error {outDir : List Char} {connIndex sindex : ℕ} {st : AppConnectionConfig}
    (hvalid : M.validate st = none) {e : AppsError}
    (h : M.createConns A outDir connIndex sindex st = .error e) :
    e = .aborted ∧ connectList A M (st.connections.zipIdx sindex) = none := by
  rw [createConns, hvalid] at h
  cases hreceivers : M.connectReceivers A outDir connIndex st.senders sindex
      st.receivers.zipIdx with
  | none =>
    have hmap := connectReceivers_eq (M := M) (A := A) outDir connIndex sindex st
      st.receivers.zipIdx
    rw [hreceivers] at h hmap
    cases h
    exact ⟨rfl, Option.map_eq_none_iff.mp hmap.symm⟩
  | some r =>
    rw [hreceivers] at h
    cases h

/-- **How the connect statements end.** They are refused exactly when a refused statement is
reached: every connection of the statements before it can be made. -/
theorem connectAll_refused_iff (hmade : Records.Made M.records) (outDir : List Char) (sindex : ℕ)
    (sts : List (AppConnectionConfig × ℕ)) :
    (∃ message, M.connectAll A outDir sindex sts = .error (.refused message)) ↔
      Reaches (fun st => st.1.Refused M.records)
        (fun before => ∀ x ∈ (before.flatMap fun st => st.1.connections).zipIdx sindex,
          M.Connectable A x.1 x.2) sts := by
  induction sts generalizing M sindex with
  | nil =>
    refine iff_of_false ?_ (not_reaches_nil _ _)
    rintro ⟨message, h⟩
    cases h
  | cons st sts ih =>
    rw [reaches_cons_iff]
    by_cases hrefused : st.1.Refused M.records
    · refine iff_of_true ?_ (Or.inl ⟨hrefused, fun x hx => (List.not_mem_nil hx).elim⟩)
      cases hvalid : M.validate st.1 with
      | none => exact absurd hrefused (validate_eq_none_iff.mp hvalid)
      | some message =>
        refine ⟨message, ?_⟩
        rw [connectAll, createConns, hvalid]
    · have hvalid := validate_eq_none_iff.mpr hrefused
      simp only [hrefused, false_and, false_or, List.flatMap_cons, List.zipIdx_append,
        List.forall_mem_append]
      rw [connectAll]
      cases hst : M.createConns A outDir st.2 sindex st.1 with
      | error e =>
        obtain ⟨rfl, hnone⟩ := createConns_eq_error hvalid hst
        refine iff_of_false (by rintro ⟨message, h⟩; cases h) ?_
        rintro ⟨before, st', after, -, -, hall, -⟩
        rw [← connectList_isSome_iff hmade, hnone] at hall
        cases hall
      | ok r =>
        obtain ⟨-, hlist, hlen⟩ := createConns_eq_ok hst
        have hrec := (connectList_eq_some hmade hlist).1
        have hall : ∀ x ∈ st.1.connections.zipIdx sindex, M.Connectable A x.1 x.2 := by
          rw [← connectList_isSome_iff hmade, hlist]
          rfl
        have hrest := @ih r.1 (hrec ▸ hmade) r.2.1
        rw [hrec, hlen] at hrest
        simp only [connectList_connectable hmade hlist] at hrest
        simp only [and_iff_right hall]
        rw [← hrest, hlen]
        cases connectAll A outDir r.1 (sindex + st.1.connections.length) sts with
        | error e => rfl
        | ok s => exact iff_of_false (by rintro ⟨_, h⟩; cases h) (by rintro ⟨_, h⟩; cases h)

/-! ### The app lines -/

/-- All types but one have a record. -/
lemma exists_ofType {type : AppType} (h : type ≠ .invalid) (ip : ℕ) :
    ∃ R, AppRecord.ofType type ip = some R := by
  cases type
  case invalid => exact absurd rfl h
  all_goals exact ⟨_, rfl⟩

section Apps

variable {addr2netdev : ℕ → Bool} {outDir : List Char}

/-- An app line that is not accepted ends the program. -/
lemma createApp_eq_aborted {a : AppConfig} (htype : a.type ≠ .invalid) (hacc : ¬a.Accepted A) :
    M.createApp A addr2netdev a = .error .aborted := by
  obtain ⟨R, hR⟩ := exists_ofType htype a.ip
  rw [createApp, hR, setAppAttribs_attribs, if_neg hacc]

/-- The tags of other lines stay new. -/
lemma install_new {a : AppConfig} {cfgs : List AppConfig} (R : AppRecord)
    (htags : a.tag ∉ cfgs.map AppConfig.tag) (hnew : ∀ b ∈ cfgs, M.records b.tag = none) :
    ∀ b ∈ cfgs, (M.install a R).records b.tag = none := by
  intro b hb
  have htag : b.tag ≠ a.tag := fun h => htags (h ▸ List.mem_map_of_mem hb)
  rw [install_records, Function.update_of_ne htag]
  exact hnew b hb

/-- **How the app lines end.** With different tags on known hosts, they are refused exactly when a
line of an invalid type is reached: the lines before it are accepted. -/
theorem createAll_refused_iff {cfgs : List AppConfig} (htags : (cfgs.map AppConfig.tag).Nodup)
    (hhosts : ∀ a ∈ cfgs, addr2netdev a.ip = true) (hnew : ∀ a ∈ cfgs, M.records a.tag = none) :
    (∃ message, M.createAll A addr2netdev cfgs = .error (.refused message)) ↔
      Reaches (fun a => a.type = .invalid) (fun before => ∀ a ∈ before, a.Accepted A) cfgs := by
  induction cfgs generalizing M with
  | nil =>
    refine iff_of_false ?_ (not_reaches_nil _ _)
    rintro ⟨message, h⟩
    cases h
  | cons a cfgs ih =>
    rw [List.map_cons, List.nodup_cons] at htags
    rw [List.forall_mem_cons] at hhosts hnew
    rw [reaches_cons_iff, createAll]
    by_cases htype : a.type = .invalid
    · refine iff_of_true ?_ (Or.inl ⟨htype, fun x hx => (List.not_mem_nil hx).elim⟩)
      rw [createApp, htype]
      exact ⟨_, rfl⟩
    by_cases hacc : a.Accepted A
    · obtain ⟨R, hR⟩ := exists_ofType htype a.ip
      have hok := createApp_eq_ok_iff.mpr ⟨hacc, hnew.1, hhosts.1, R, hR, rfl⟩
      simp only [hok, htype, false_and, false_or, List.forall_mem_cons, hacc, true_and]
      exact ih htags.2 hhosts.2 (install_new R htags.1 hnew.2)
    · simp only [createApp_eq_aborted htype hacc, htype, false_and, false_or,
        List.forall_mem_cons, hacc]
      refine iff_of_false (by rintro ⟨message, h⟩; cases h) ?_
      rintro ⟨before, b, after, -, -, hfalse⟩
      exact hfalse

/-- App lines that are accepted, with different tags on known hosts, make their applications. -/
lemma exists_createAll {cfgs : List AppConfig} (htags : (cfgs.map AppConfig.tag).Nodup)
    (hhosts : ∀ a ∈ cfgs, addr2netdev a.ip = true) (hnew : ∀ a ∈ cfgs, M.records a.tag = none)
    (hall : ∀ a ∈ cfgs, a.type ≠ .invalid ∧ a.Accepted A) :
    ∃ M', M.createAll A addr2netdev cfgs = .ok M' := by
  induction cfgs generalizing M with
  | nil => exact ⟨M, rfl⟩
  | cons a cfgs ih =>
    rw [List.map_cons, List.nodup_cons] at htags
    rw [List.forall_mem_cons] at hhosts hnew hall
    obtain ⟨R, hR⟩ := exists_ofType hall.1.1 a.ip
    have hok := createApp_eq_ok_iff.mpr ⟨hall.1.2, hnew.1, hhosts.1, R, hR, rfl⟩
    rw [createAll, hok]
    exact ih htags.2 hhosts.2 (install_new R htags.1 hnew.2) hall.2

/-! ### The configuration -/

/-- **How a configuration ends.** With different tags on known hosts, `createApps` returns `false`
exactly when the configuration is refused before anything ends the program. -/
theorem createApps_refused_iff {cfg : AppsCompleteConfig}
    (htags : (cfg.app.map AppConfig.tag).Nodup) (hhosts : ∀ a ∈ cfg.app, addr2netdev a.ip = true) :
    (∃ message, createApps A addr2netdev outDir cfg = .error (.refused message)) ↔
      cfg.Refused A := by
  have happs := createAll_refused_iff (A := A) (M := init) htags hhosts fun _ _ => rfl
  have hconn : Reaches (fun st : AppConnectionConfig × ℕ => st.1.Refused cfg.record)
      (fun before => ∀ x ∈ (before.flatMap fun st => st.1.connections).zipIdx,
        cfg.created.Connectable A x.1 x.2) cfg.conn.zipIdx ↔
      Reaches (fun st => st.Refused cfg.record)
        (fun before => ∀ x ∈ (before.flatMap AppConnectionConfig.connections).zipIdx,
          cfg.created.Connectable A x.1 x.2) cfg.conn := by
    nth_rewrite 2 [← List.zipIdx_map_fst 0 cfg.conn]
    rw [reaches_map_iff]
    simp only [List.flatMap_map]
  rw [createApps, AppsCompleteConfig.Refused, ← happs, ← hconn]
  cases hcreate : init.createAll A addr2netdev cfg.app with
  | error e =>
    have hnot : ¬∀ a ∈ cfg.app, a.type ≠ .invalid ∧ a.Accepted A := by
      intro hall
      obtain ⟨M, hM⟩ := exists_createAll (M := init) htags hhosts (fun _ _ => rfl) hall
      rw [hM] at hcreate
      cases hcreate
    simp only [hnot, false_and, or_false, Except.error.injEq]
  | ok M =>
    obtain rfl := eq_created hcreate
    have hall : ∀ a ∈ cfg.app, a.type ≠ .invalid ∧ a.Accepted A := fun a ha =>
      ⟨((createAll_eq_ok hcreate).1 a ha).2.1, ((createAll_eq_ok hcreate).1 a ha).1⟩
    have hstatements := connectAll_refused_iff (A := A) (M := cfg.created) (made_record cfg)
      outDir 0 cfg.conn.zipIdx
    simp only [reduceCtorEq, exists_false, false_or, and_iff_right hall]
    exact hstatements

/-- A statement that cannot be wired never is: when it makes connections, the run does not
succeed. -/
theorem not_ok_of_unwireable {cfg : AppsCompleteConfig}
    (htags : (cfg.app.map AppConfig.tag).Nodup) {st : AppConnectionConfig} (hst : st ∈ cfg.conn)
    (hun : cfg.Unwireable st) (hsenders : st.senders ≠ []) (hreceivers : st.receivers ≠ [])
    (r : AppsManager × List TraceFile) : createApps A addr2netdev outDir cfg ≠ .ok r := by
  intro hok
  have hlinked : ∀ s ∈ st.senders, ∀ t ∈ st.receivers, ∃ (c : Connection) (n : ℕ),
      c.Linked cfg.record n ∧ c.tagTx = s ∧ c.tagRx = t := by
    intro s hs t ht
    obtain ⟨c, hc, htx, hrx⟩ := AppConnectionConfig.exists_connection hs ht
    have hmem : c ∈ cfg.connections := List.mem_flatMap.mpr ⟨st, hst, hc⟩
    obtain ⟨n, hn⟩ := List.mem_iff_getElem?.mp hmem
    exact ⟨c, n, (createApps_eq_ok hok).2.1 (c, n) (List.mk_mem_zipIdx_iff_getElem?.mpr hn),
      htx, hrx⟩
  obtain ⟨s, hs⟩ := List.exists_mem_of_ne_nil _ hsenders
  obtain ⟨t, ht⟩ := List.exists_mem_of_ne_nil _ hreceivers
  rcases hun with ⟨tag, htag, hunknown⟩ | ⟨a, ha, hsend, hnames⟩ | ⟨a, ha, hrecv, hnames⟩
  · have hnone := cfg.record_eq_none hunknown
    rcases htag with htag | htag
    · obtain ⟨c, n, h, rfl, -⟩ := hlinked tag htag t ht
      exact Option.isSome_iff_ne_none.mp h.tx_known hnone
    · obtain ⟨c, n, h, -, rfl⟩ := hlinked s hs tag htag
      exact Option.isSome_iff_ne_none.mp h.rx_known hnone
  · obtain ⟨c, n, h, hc, -⟩ := hlinked a.tag hsend t ht
    obtain ⟨R, hR⟩ := Option.isSome_iff_exists.mp h.tx_known
    have haddr := hnames R (by rw [← cfg.record_eq htags ha, ← hc, hR])
    refine h.tx_address ?_
    rw [Connection.txNames, Records.get_eq hR]
    exact (R.namesAt_nil _).1 haddr
  · obtain ⟨c, n, h, -, hc⟩ := hlinked s hs a.tag hrecv
    obtain ⟨R, hR⟩ := Option.isSome_iff_exists.mp h.rx_known
    obtain ⟨hport, haddr⟩ := hnames R (by rw [← cfg.record_eq htags ha, ← hc, hR])
    refine h.rx_address ?_ ?_
    · rw [Connection.rxNames, Records.get_eq hR]
      exact (R.namesAt_nil _).2.1 hport
    · rw [Connection.rxNames, Records.get_eq hR]
      exact (R.namesAt_nil _).2.2 haddr

/-- A configuration is reported: `createApps` returns `false`, with no call on a missing application
and no attribute with an empty name. -/
def Reported (A : AttributeTable) (addr2netdev : ℕ → Bool) (outDir : List Char)
    (cfg : AppsCompleteConfig) : Prop :=
  ∃ message, createApps A addr2netdev outDir cfg = .error (.refused message)

/-- **When a connect statement that cannot be wired is reported.** With different tags on known
hosts, this is when the configuration is refused for something else, before anything ends the
program.  In every other configuration, such a statement ends the program if it makes connections
at all. -/
theorem reported_iff (A : AttributeTable) {addr2netdev : ℕ → Bool} (outDir : List Char)
    {cfg : AppsCompleteConfig} (htags : (cfg.app.map AppConfig.tag).Nodup)
    (hhosts : ∀ a ∈ cfg.app, addr2netdev a.ip = true) {st : AppConnectionConfig}
    (hst : st ∈ cfg.conn) (hun : cfg.Unwireable st) :
    (Reported A addr2netdev outDir cfg ↔ cfg.Refused A) ∧
      (¬cfg.Refused A → st.senders ≠ [] → st.receivers ≠ [] →
        createApps A addr2netdev outDir cfg = .error .aborted) := by
  have hrefused : Reported A addr2netdev outDir cfg ↔ cfg.Refused A :=
    createApps_refused_iff htags hhosts
  refine ⟨hrefused, fun hnot hsenders hreceivers => ?_⟩
  have hok : ∀ r, createApps A addr2netdev outDir cfg ≠ .ok r :=
    not_ok_of_unwireable htags hst hun hsenders hreceivers
  cases hrun : createApps A addr2netdev outDir cfg with
  | ok r => exact absurd hrun (hok r)
  | error e =>
    cases e with
    | refused message => exact absurd (hrefused.mp ⟨message, hrun⟩) hnot
    | aborted => rfl

/-- An echo client is connected to an echo server, and another one, which does not exist, as well:
the server supports one sender only. -/
theorem reported_iff_echo :
    Reported lenient (fun _ => true) []
      { app := echoApps, conn := [⟨[['a']], [['s']]⟩, ⟨[['b'], ['x']], [['t']]⟩] } := by
  refine (reported_iff lenient [] (by decide) (fun _ _ => rfl)
    (List.mem_cons_of_mem _ (List.mem_singleton_self _))
    (Or.inl ⟨['x'], Or.inl (by decide), by decide⟩)).1.mpr (Or.inr ⟨by decide, ?_⟩)
  refine ⟨[⟨[['a']], [['s']]⟩], ⟨[['b'], ['x']], [['t']]⟩, [], rfl, Or.inr (Or.inl ?_), ?_⟩
  · decide
  · intro x hx
    rw [List.mem_singleton.mp hx]
    exact ⟨fun h => absurd rfl h, by decide +kernel⟩

/-- **A connect statement that cannot be wired need not be reported.** An echo client is connected
to a server that does not exist: the program ends. -/
theorem not_reported :
    ¬∀ (A : AttributeTable) (addr2netdev : ℕ → Bool) (outDir : List Char)
      (cfg : AppsCompleteConfig), (cfg.app.map AppConfig.tag).Nodup →
      (∀ a ∈ cfg.app, addr2netdev a.ip = true) → (∃ st ∈ cfg.conn, cfg.Unwireable st) →
      Reported A addr2netdev outDir cfg := by
  intro h
  obtain ⟨message, hrefused⟩ := h lenient (fun _ => true) []
    { app := echoApps, conn := [⟨[['a']], [['x']]⟩] } (by decide) (fun _ _ => rfl)
    ⟨_, List.mem_singleton_self _, Or.inl ⟨['x'], Or.inr (List.mem_singleton_self _), by decide⟩⟩
  have haborted : createApps lenient (fun _ => true) []
      { app := echoApps, conn := [⟨[['a']], [['x']]⟩] } = .error .aborted := rfl
  rw [haborted] at hrefused
  cases hrefused

end Apps

end AppsManager

end MeshSim
