import MeshSim.Routing.RoutingConfig

/-!
# The grammar of the routing configuration

Which files `loadRoutingConfig` of `sim/routing_config.cc` accepts, and what it does with the
others.

A line is accepted (`LooseLine`), it is rejected with an error (`RejectedLine`), or the program
accesses a token that is not there or throws an exception; `loadLine_cases` says that there is
nothing else.  What is accepted is more than the format (`StrictLine`): only the tokens in front
count, and entries need not follow an address.  `loadsStrictly_iff` says for which files the loader
does what the format says.
-/

namespace MeshSim

/-! ### Lines -/

/-- The protocol that a token names, in upper or lower case. -/
def protocolOf (token : List Char) : Option RoutingProtocol :=
  if token.map Char.toLower = olsrWord then some .olsr
  else if token.map Char.toLower = aodvWord then some .aodv
  else if token.map Char.toLower = noneWord then some .none
  else none

/-- The format of a line, with what the line stands for. -/
inductive StrictLine : List (List Char) → LineItem → Prop where
  /-- The line of the protocol. -/
  | proto {w : List Char} {p : RoutingProtocol} (hp : protocolOf w = some p) :
      StrictLine [protoWord, w] (.proto p)
  /-- A line that starts a table. -/
  | routesOn {w : List Char} {addr : Ipv4Addr} (haddr : readIpAddr w = .ok addr) :
      StrictLine [routesOnWord, w] (.routesOn addr)
  /-- An entry of a table. -/
  | entry {t v : List Char} {opts : List (List Char)} {ent : RtblEntry} (hopts : opts.length ≤ 2)
      (hproto : t ≠ protoWord) (hroutesOn : t ≠ routesOnWord)
      (htarget : readIpNetworkAddr t = .ok (ent.target, ent.targetMask))
      (hvia : readIpAddr v = .ok ent.viaIfIp)
      (hgateway : readGateway (t :: v :: opts) = .ok ent.gateway)
      (hmetric : readMetric (t :: v :: opts) = .ok ent.metric) :
      StrictLine (t :: v :: opts) (.entry ent)

/-- The lines that are accepted: only the tokens in front count. -/
inductive LooseLine : List (List Char) → LineItem → Prop where
  /-- The line of the protocol. -/
  | proto {w : List Char} {rest : List (List Char)} {p : RoutingProtocol}
      (hp : protocolOf w = some p) : LooseLine (protoWord :: w :: rest) (.proto p)
  /-- A line that starts a table. -/
  | routesOn {w : List Char} {rest : List (List Char)} {addr : Ipv4Addr}
      (haddr : readIpAddr w = .ok addr) : LooseLine (routesOnWord :: w :: rest) (.routesOn addr)
  /-- An entry of a table. -/
  | entry {t v : List Char} {opts : List (List Char)} {ent : RtblEntry}
      (hproto : t ≠ protoWord) (hroutesOn : t ≠ routesOnWord)
      (htarget : readIpNetworkAddr t = .ok (ent.target, ent.targetMask))
      (hvia : readIpAddr v = .ok ent.viaIfIp)
      (hgateway : readGateway (t :: v :: opts) = .ok ent.gateway)
      (hmetric : readMetric (t :: v :: opts) = .ok ent.metric) :
      LooseLine (t :: v :: opts) (.entry ent)

/-- The lines that are rejected with an error. -/
inductive RejectedLine : List (List Char) → Prop where
  /-- The protocol is unknown. -/
  | proto {w : List Char} {rest : List (List Char)} (hp : protocolOf w = none) :
      RejectedLine (protoWord :: w :: rest)
  /-- What follows `routes_on` is not the address of a host. -/
  | routesOn {w : List Char} {rest : List (List Char)} {e : String}
      (haddr : readIpAddr w = .error e) : RejectedLine (routesOnWord :: w :: rest)
  /-- The target is not an address. -/
  | target {t : List Char} {rest : List (List Char)} {e : String} (hproto : t ≠ protoWord)
      (hroutesOn : t ≠ routesOnWord) (htarget : readIpNetworkAddr t = .error e) :
      RejectedLine (t :: rest)
  /-- The interface is not the address of a host. -/
  | via {t v : List Char} {rest : List (List Char)} {target : Ipv4Addr × Ipv4Addr} {e : String}
      (hproto : t ≠ protoWord) (hroutesOn : t ≠ routesOnWord)
      (htarget : readIpNetworkAddr t = .ok target) (hvia : readIpAddr v = .error e) :
      RejectedLine (t :: v :: rest)
  /-- The gateway is not the address of a host. -/
  | gateway {t v g : List Char} {rest : List (List Char)} {target : Ipv4Addr × Ipv4Addr}
      {via : Ipv4Addr} {e : String} (hproto : t ≠ protoWord) (hroutesOn : t ≠ routesOnWord)
      (htarget : readIpNetworkAddr t = .ok target) (hvia : readIpAddr v = .ok via)
      (hgateway : readIpAddr g = .error e) : RejectedLine (t :: v :: g :: rest)

/-- The format is accepted. -/
lemma StrictLine.loose {tokens : List (List Char)} {item : LineItem} (h : StrictLine tokens item) :
    LooseLine tokens item := by
  cases h with
  | proto hp => exact .proto hp
  | routesOn haddr => exact .routesOn haddr
  | entry _ hproto hroutesOn htarget hvia hgateway hmetric =>
    exact .entry hproto hroutesOn htarget hvia hgateway hmetric

/-- Going on after an error. -/
lemma error_bind {α β : Type} (e : LoadFailure) (f : α → Except LoadFailure β) :
    (Except.error e >>= f) = .error e := rfl

section Lines

variable (state : RoutingConfig × Ipv4Addr)

/-- The line of the protocol. -/
lemma loadLine_proto (w : List Char) (rest : List (List Char)) :
    loadLine state (protoWord :: w :: rest) = match protocolOf w with
      | some p => .ok ((LineItem.proto p).apply state)
      | none => .error (.error ("Error:  Unknown routing protocol \"" ++
          String.ofList (w.map Char.toLower) ++ "\"\n")) := by
  simp only [loadLine, tokenAt_zero, tokenAt_one, ok_bind, if_true, protocolOf]
  split_ifs <;> rfl

/-- A line that is accepted does what it stands for. -/
lemma LooseLine.loadLine_eq {tokens : List (List Char)} {item : LineItem}
    (h : LooseLine tokens item) : loadLine state tokens = .ok (item.apply state) := by
  cases h with
  | proto hp => rw [loadLine_proto, hp]
  | routesOn haddr => rw [loadLine_routesOn, haddr]
  | entry hproto hroutesOn htarget hvia hgateway hmetric =>
    exact loadLine_entry_eq_ok state hproto hroutesOn htarget hvia hgateway hmetric

/-- A line that is rejected is rejected with an error. -/
lemma RejectedLine.loadLine_eq {tokens : List (List Char)} (h : RejectedLine tokens) :
    ∃ text, loadLine state tokens = .error (.error text) := by
  cases h with
  | proto hp => exact ⟨_, by rw [loadLine_proto, hp]⟩
  | routesOn haddr => exact ⟨_, by rw [loadLine_routesOn, haddr]⟩
  | @target t rest e hproto hroutesOn htarget =>
    refine ⟨e, ?_⟩
    rw [loadLine_entry state hproto hroutesOn, htarget]
    rfl
  | @via t v rest target e hproto hroutesOn htarget hvia =>
    refine ⟨e, ?_⟩
    rw [loadLine_entry state hproto hroutesOn, htarget, tokenAt_one]
    simp only [orFail, Except.mapError, ok_bind, hvia]
    rfl
  | @gateway t v g rest target via e hproto hroutesOn htarget hvia hgateway =>
    refine ⟨e, ?_⟩
    have hread : readGateway (t :: v :: g :: rest) = .error (.error e) := by
      change orFail (readIpAddr g) = _
      rw [hgateway]
      rfl
    rw [loadLine_entry state hproto hroutesOn, htarget, tokenAt_one, hread]
    simp only [orFail, Except.mapError, ok_bind, hvia]
    rfl

/-- **What a line can do.** It is accepted, it is rejected, or a token is missing or no number. -/
theorem loadLine_cases (tokens : List (List Char)) :
    (∃ item, LooseLine tokens item) ∨ RejectedLine tokens ∨
      loadLine state tokens = .error .undefined := by
  rcases tokens with _ | ⟨t, rest⟩
  · exact Or.inr (Or.inr rfl)
  by_cases hproto : t = protoWord
  · subst hproto
    cases rest with
    | nil => exact Or.inr (Or.inr rfl)
    | cons w rest =>
      cases hp : protocolOf w with
      | some p => exact Or.inl ⟨_, .proto hp⟩
      | none => exact Or.inr (Or.inl (.proto hp))
  by_cases hroutesOn : t = routesOnWord
  · subst hroutesOn
    cases rest with
    | nil => exact Or.inr (Or.inr rfl)
    | cons w rest =>
      cases haddr : readIpAddr w with
      | ok addr => exact Or.inl ⟨_, .routesOn haddr⟩
      | error e => exact Or.inr (Or.inl (.routesOn haddr))
  cases htarget : readIpNetworkAddr t with
  | error e => exact Or.inr (Or.inl (.target hproto hroutesOn htarget))
  | ok target =>
    rcases rest with _ | ⟨v, opts⟩
    · refine Or.inr (Or.inr ?_)
      rw [loadLine_entry state hproto hroutesOn, htarget]
      rfl
    cases hvia : readIpAddr v with
    | error e => exact Or.inr (Or.inl (.via hproto hroutesOn htarget hvia))
    | ok via =>
      rcases opts with _ | ⟨g, more⟩
      · exact Or.inl ⟨.entry ⟨target.1, target.2, via, 0, 0⟩,
          .entry hproto hroutesOn htarget hvia rfl rfl⟩
      cases hg : readIpAddr g with
      | error e => exact Or.inr (Or.inl (.gateway hproto hroutesOn htarget hvia hg))
      | ok gateway =>
        have hgateway : readGateway (t :: v :: g :: more) = .ok gateway := by
          change orFail (readIpAddr g) = _
          rw [hg]
          rfl
        rcases more with _ | ⟨m, more⟩
        · exact Or.inl ⟨.entry ⟨target.1, target.2, via, gateway, 0⟩,
            .entry hproto hroutesOn htarget hvia hgateway rfl⟩
        cases hm : stoi m with
        | some metric =>
          have hmetric : readMetric (t :: v :: g :: m :: more) = .ok metric := by
            simp only [readMetric, List.getElem?_cons_succ, List.getElem?_cons_zero, hm]
          exact Or.inl ⟨.entry ⟨target.1, target.2, via, gateway, metric⟩,
            .entry hproto hroutesOn htarget hvia hgateway hmetric⟩
        | none =>
          have hmetric : readMetric (t :: v :: g :: m :: more) = .error .undefined := by
            simp only [readMetric, List.getElem?_cons_succ, List.getElem?_cons_zero, hm]
          refine Or.inr (Or.inr ?_)
          rw [loadLine_entry state hproto hroutesOn, htarget, tokenAt_one, hgateway, hmetric]
          simp only [orFail, Except.mapError, ok_bind, hvia]
          rfl

end Lines

/-! ### Files -/

/-- `loadRoutingConfig`, on the token lines of the file. -/
def loadTokenLines (cfg : RoutingConfig) (lines : List (List (List Char))) :
    Except LoadFailure RoutingConfig :=
  (lines.foldlM loadLine (cfg, 0)).map Prod.fst

/-- A file is loaded by its token lines. -/
lemma loadRoutingConfig_eq (cfg : RoutingConfig) (stream : List Char) :
    loadRoutingConfig cfg stream = loadTokenLines cfg (getconfiglinesTokenized stream) := rfl

/-- The address on the last line that starts a table. -/
def lastHost (items : List LineItem) : Option Ipv4Addr :=
  (items.filterMap fun item => match item with
    | .routesOn addr => some addr
    | _ => none).getLast?

/-- The entries that follow an address, in the order of the file. -/
def entriesOn (items : List LineItem) (addr : Ipv4Addr) : List RtblEntry :=
  (List.range items.length).filterMap fun j => match items[j]? with
    | some (LineItem.entry ent) => if lastHost (items.take j) = some addr then some ent else none
    | _ => none

/-- The format of a file, with what its lines stand for: every line has its format, and every entry
follows an address. -/
structure StrictFile (lines : List (List (List Char))) (items : List LineItem) : Prop where
  /-- The lines. -/
  lines : List.Forall₂ StrictLine lines items
  /-- The entries. -/
  follows : ∀ (j : ℕ) (ent : RtblEntry), items[j]? = some (.entry ent) →
    (lastHost (items.take j)).isSome

/-- The loader is total and strict on a file: it returns, it returns true exactly when the file has
the format, and then the table of each host has got the entries that follow its address. -/
structure LoadsStrictly (cfg : RoutingConfig) (lines : List (List (List Char))) : Prop where
  /-- No token is missing, and no exception is thrown. -/
  total : loadTokenLines cfg lines ≠ .error .undefined
  /-- The files that are accepted. -/
  strict : (∃ cfg', loadTokenLines cfg lines = .ok cfg') ↔ ∃ items, StrictFile lines items
  /-- The tables. -/
  tables : ∀ cfg' items, loadTokenLines cfg lines = .ok cfg' → StrictFile lines items →
    ∀ addr, cfg'.table addr = cfg.table addr ++ entriesOn items addr

/-- A file that is rejected with an error: the first line that is not accepted is rejected. -/
def FirstRejected (lines : List (List (List Char))) : Prop :=
  ∃ pre line post items, lines = pre ++ line :: post ∧ List.Forall₂ LooseLine pre items ∧
    RejectedLine line

/-- Lines that are accepted do what they stand for. -/
lemma foldlM_of_loose {lines : List (List (List Char))} {items : List LineItem}
    (h : List.Forall₂ LooseLine lines items) (state : RoutingConfig × Ipv4Addr) :
    lines.foldlM loadLine state = .ok (items.foldl LineItem.apply state) := by
  induction h generalizing state with
  | nil => rfl
  | cons hline _ ih =>
    rw [List.foldlM_cons, hline.loadLine_eq, ok_bind, ih, List.foldl_cons]

/-- **What a file can do.** -/
theorem foldlM_cases (lines : List (List (List Char))) (state : RoutingConfig × Ipv4Addr) :
    (∃ items, List.Forall₂ LooseLine lines items) ∨ FirstRejected lines ∨
      lines.foldlM loadLine state = .error .undefined := by
  induction lines generalizing state with
  | nil => exact Or.inl ⟨[], .nil⟩
  | cons line lines ih =>
    rcases loadLine_cases state line with ⟨item, hitem⟩ | hrejected | hundefined
    · rcases ih (item.apply state) with ⟨items, hitems⟩ | hrejected | hundefined
      · exact Or.inl ⟨item :: items, .cons hitem hitems⟩
      · obtain ⟨pre, bad, post, items, rfl, hitems, hbad⟩ := hrejected
        exact Or.inr (Or.inl ⟨line :: pre, bad, post, item :: items, rfl, .cons hitem hitems, hbad⟩)
      · refine Or.inr (Or.inr ?_)
        rw [List.foldlM_cons, hitem.loadLine_eq, ok_bind, hundefined]
    · exact Or.inr (Or.inl ⟨[], line, lines, [], rfl, .nil, hrejected⟩)
    · refine Or.inr (Or.inr ?_)
      rw [List.foldlM_cons, hundefined, error_bind]

/-- A file that is rejected is rejected with an error. -/
lemma FirstRejected.loadTokenLines_eq {lines : List (List (List Char))} (h : FirstRejected lines)
    (cfg : RoutingConfig) : ∃ text, loadTokenLines cfg lines = .error (.error text) := by
  obtain ⟨pre, line, post, items, rfl, hitems, hline⟩ := h
  obtain ⟨text, htext⟩ := hline.loadLine_eq (items.foldl LineItem.apply (cfg, 0))
  refine ⟨text, ?_⟩
  rw [loadTokenLines, List.foldlM_append, foldlM_of_loose hitems, ok_bind, List.foldlM_cons, htext]
  rfl

/-- A file with the format is accepted. -/
lemma StrictFile.loadTokenLines_eq {lines : List (List (List Char))} {items : List LineItem}
    (h : StrictFile lines items) (cfg : RoutingConfig) :
    loadTokenLines cfg lines = .ok (items.foldl LineItem.apply (cfg, 0)).1 := by
  rw [loadTokenLines, foldlM_of_loose (h.lines.imp fun _ _ hline => hline.loose)]
  rfl

/-! ### Tables -/

/-- Without lines no table is started. -/
@[simp] lemma lastHost_nil : lastHost [] = none := rfl

/-- One more line. -/
lemma lastHost_concat (items : List LineItem) (item : LineItem) :
    lastHost (items ++ [item]) = match item with
      | .routesOn addr => some addr
      | _ => lastHost items := by
  rw [lastHost, List.filterMap_append]
  cases item <;> simp [lastHost]

/-- One more line, and the entries. -/
lemma entriesOn_concat (items : List LineItem) (item : LineItem) (addr : Ipv4Addr) :
    entriesOn (items ++ [item]) addr = entriesOn items addr ++ match item with
      | .entry ent => if lastHost items = some addr then [ent] else []
      | _ => [] := by
  have hfront : ∀ j ∈ List.range items.length,
      (match (items ++ [item])[j]? with
        | some (LineItem.entry ent) =>
          if lastHost ((items ++ [item]).take j) = some addr then some ent else none
        | _ => none) =
      match items[j]? with
        | some (LineItem.entry ent) =>
          if lastHost (items.take j) = some addr then some ent else none
        | _ => none := by
    intro j hj
    have hj := List.mem_range.mp hj
    rw [List.getElem?_append_left hj, List.take_append_of_le_length hj.le]
  rw [entriesOn, List.length_append, List.length_singleton, List.range_succ, List.filterMap_append,
    List.filterMap_congr hfront, ← entriesOn]
  congr 1
  rw [List.filterMap_cons, List.filterMap_nil, List.getElem?_append_right le_rfl, Nat.sub_self,
    List.take_append_of_le_length le_rfl, List.take_length]
  cases item with
  | entry ent =>
    by_cases haddr : lastHost items = some addr <;> simp [haddr]
  | _ => rfl

/-- What the lines of a file do to a configuration. -/
structure Tables (cfg : RoutingConfig) (items : List LineItem) (state : RoutingConfig × Ipv4Addr) :
    Prop where
  /-- The variable `routes_on`. -/
  routesOn : state.2 = (lastHost items).getD 0
  /-- The tables. -/
  table : ∀ addr, state.1.table addr = cfg.table addr ++ entriesOn items addr

/-- **The tables of a file** whose entries follow an address. -/
theorem tables_foldl (cfg : RoutingConfig) {items : List LineItem}
    (h : ∀ (j : ℕ) (ent : RtblEntry), items[j]? = some (.entry ent) →
      (lastHost (items.take j)).isSome) :
    Tables cfg items (items.foldl LineItem.apply (cfg, 0)) := by
  induction items using List.reverseRecOn with
  | nil => exact ⟨rfl, fun addr => (List.append_nil _).symm⟩
  | append_singleton items item ih =>
    have hbefore : Tables cfg items (items.foldl LineItem.apply (cfg, 0)) := by
      refine ih fun j ent hj => ?_
      have hlt : j < items.length := (List.getElem?_eq_some_iff.mp hj).1
      have hj' := h j ent (by rw [List.getElem?_append_left hlt, hj])
      rwa [List.take_append_of_le_length hlt.le] at hj'
    rw [List.foldl_append, List.foldl_cons, List.foldl_nil]
    obtain ⟨hroutesOn, htable⟩ := hbefore
    refine ⟨?_, fun addr => ?_⟩
    · rw [lastHost_concat]
      cases item <;> first | rfl | exact hroutesOn
    · rw [entriesOn_concat, ← List.append_assoc, ← htable addr]
      cases item with
      | entry ent =>
        have hsome := h items.length ent (by simp)
        rw [List.take_append_of_le_length le_rfl, List.take_length] at hsome
        obtain ⟨host, hhost⟩ := Option.isSome_iff_exists.mp hsome
        rw [hhost, Option.getD_some] at hroutesOn
        simp only [LineItem.apply, table_pushBack, hroutesOn, hhost, Option.some.injEq]
      | _ => exact (List.append_nil _).symm

/-- **When the loader is total and strict.** -/
theorem loadsStrictly_iff (cfg : RoutingConfig) (lines : List (List (List Char))) :
    LoadsStrictly cfg lines ↔ (∃ items, StrictFile lines items) ∨ FirstRejected lines := by
  constructor
  · intro h
    rcases foldlM_cases lines (cfg, 0) with ⟨items, hitems⟩ | hrejected | hundefined
    · refine Or.inl (h.strict.mp ⟨(items.foldl LineItem.apply (cfg, 0)).1, ?_⟩)
      rw [loadTokenLines, foldlM_of_loose hitems]
      rfl
    · exact Or.inr hrejected
    · refine absurd ?_ h.total
      rw [loadTokenLines, hundefined]
      rfl
  · rintro (⟨items, hitems⟩ | hrejected)
    · have hload := hitems.loadTokenLines_eq cfg
      refine ⟨?_, ⟨fun _ => ⟨items, hitems⟩, fun _ => ⟨_, hload⟩⟩, ?_⟩
      · rw [hload]
        simp
      · intro cfg' items' hcfg' hitems' addr
        rw [hitems'.loadTokenLines_eq cfg] at hcfg'
        obtain rfl := Except.ok.inj hcfg'
        exact (tables_foldl cfg hitems'.follows).table addr
    · obtain ⟨text, htext⟩ := hrejected.loadTokenLines_eq cfg
      refine ⟨?_, ⟨?_, ?_⟩, ?_⟩
      · rw [htext]
        simp
      · rintro ⟨cfg', hcfg'⟩
        rw [htext] at hcfg'
        cases hcfg'
      · rintro ⟨items, hitems⟩
        rw [hitems.loadTokenLines_eq cfg] at htext
        cases htext
      · intro cfg' items hcfg'
        rw [htext] at hcfg'
        cases hcfg'

/-- **A protocol line without a protocol**: the token behind `proto` is read although there is
none. -/
theorem not_loadsStrictly : ¬∀ (cfg : RoutingConfig) (lines : List (List (List Char))),
    (∀ tokens ∈ lines, tokens ≠ []) → LoadsStrictly cfg lines :=
  fun h => (h {} [[protoWord]] (by simp)).total rfl

end MeshSim
