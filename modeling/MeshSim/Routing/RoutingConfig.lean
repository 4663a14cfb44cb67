import MeshSim.Routing.IoUtils

/-!
# The routing configuration

`sim/routing_config.cc`: reading `routing.txt` into the routing tables of the nodes.

A file that is written block by block, the lines `routes_on` each followed by the entries of a
table, is read into tables with these entries (`loadRoutingConfig_blocks`).
-/

namespace MeshSim

open PythonText

/-! ### The configuration -/

/-- `routingConfig::RoutingProtocol`. -/
inductive RoutingProtocol where
  /-- `ROUTING_NONE`: nothing but baseline static routing. -/
  | none
  /-- `ROUTING_OLSR`: Optimized Link State Routing. -/
  | olsr
  /-- `ROUTING_AODV`: Ad-Hoc On-Demand Distance Vector. -/
  | aodv
deriving DecidableEq, Repr

/-- `routingConfig::rtbl_entry`. -/
structure RtblEntry where
  /-- The address that the entry is for. -/
  target : Ipv4Addr
  /-- Its netmask. -/
  targetMask : Ipv4Addr
  /-- The address of the interface that takes the packets. -/
  viaIfIp : Ipv4Addr
  /-- The address of the next host, or zero. -/
  gateway : Ipv4Addr
  /-- The metric of the route. -/
  metric : ℤ
deriving DecidableEq, Repr

/-- `routingConfig`. -/
structure RoutingConfig where
  /-- The dynamic routing protocol. -/
  proto : RoutingProtocol := .olsr
  /-- The entire set of routing tables. -/
  tables : AList (fun _ : Ipv4Addr => List RtblEntry) := ∅

/-- `tables[routes_on]`. -/
def RoutingConfig.table (cfg : RoutingConfig) (routesOn : Ipv4Addr) : List RtblEntry :=
  (cfg.tables.lookup routesOn).getD []

/-- `tables[routes_on].push_back(ent)`. -/
def RoutingConfig.pushBack (cfg : RoutingConfig) (routesOn : Ipv4Addr) (ent : RtblEntry) :
    RoutingConfig :=
  { cfg with tables := cfg.tables.insert routesOn (cfg.table routesOn ++ [ent]) }

/-! ### Reading the file -/

/-- Why a file is not read. -/
inductive LoadFailure where
  /-- The error is printed, and the result is `false`. -/
  | error (text : String)
  /-- An access behind the last token, or an exception. -/
  | undefined

/-- The words of the format. -/
def protoWord : List Char := ['p', 'r', 'o', 't', 'o']

/-- The word in front of an address whose table follows. -/
def routesOnWord : List Char := ['r', 'o', 'u', 't', 'e', 's', '_', 'o', 'n']

/-- `"olsr"` -/
def olsrWord : List Char := ['o', 'l', 's', 'r']

/-- `"aodv"` -/
def aodvWord : List Char := ['a', 'o', 'd', 'v']

/-- `"none"` -/
def noneWord : List Char := ['n', 'o', 'n', 'e']

/-- `stoi`, where `none` is an exception. -/
def stoi (s : List Char) : Option ℤ :=
  let t := s.dropWhile isspace
  let u := if t.head? = some '-' ∨ t.head? = some '+' then t.tail else t
  let digits := u.takeWhile Char.isDigit
  let n : ℤ := Nat.ofDigitChars 10 digits 0
  let num := if t.head? = some '-' then -n else n
  if digits ≠ [] ∧ -2 ^ 31 ≤ num ∧ num < 2 ^ 31 then some num else none

/-- A token that may not be there. -/
def tokenAt (tokens : List (List Char)) (i : ℕ) : Except LoadFailure (List Char) :=
  match tokens[i]? with
  | some token => .ok token
  | none => .error .undefined

/-- An address where an error was printed. -/
def orFail {α : Type} (r : Except String α) : Except LoadFailure α := r.mapError .error

/-- The gateway of an entry: its third token, if there is one. -/
def readGateway (tokens : List (List Char)) : Except LoadFailure Ipv4Addr :=
  match tokens[2]? with
  | some token => orFail (readIpAddr token)
  | none => .ok 0

/-- The metric of an entry: its fourth token, if there is one. -/
def readMetric (tokens : List (List Char)) : Except LoadFailure ℤ :=
  match tokens[3]? with
  | some token => match stoi token with
    | some n => .ok n
    | none => .error .undefined
  | none => .ok 0

/-- The body of the loop of `loadRoutingConfig`, on the configuration and `routes_on`.  The number
of tokens is never found wrong, since it is not less than two and more than four. -/
def loadLine (state : RoutingConfig × Ipv4Addr) (tokens : List (List Char)) :
    Except LoadFailure (RoutingConfig × Ipv4Addr) := do
  let (cfg, routesOn) := state
  let token ← tokenAt tokens 0
  if token = protoWord then
    let r := (← tokenAt tokens 1).map Char.toLower
    if r = olsrWord then return ({ cfg with proto := .olsr }, routesOn)
    else if r = aodvWord then return ({ cfg with proto := .aodv }, routesOn)
    else if r = noneWord then return ({ cfg with proto := .none }, routesOn)
    else throw (.error ("Error:  Unknown routing protocol \"" ++ String.ofList r ++ "\"\n"))
  else if token = routesOnWord then
    let routesOn ← orFail (readIpAddr (← tokenAt tokens 1))
    return (cfg, routesOn)
  else
    if tokens.length < 2 ∧ tokens.length > 4 then
      throw (.error "Error:  Wrong number of tokens on route spec\n")
    let (target, targetMask) ← orFail (readIpNetworkAddr token)
    let viaIfIp ← orFail (readIpAddr (← tokenAt tokens 1))
    let gateway ← readGateway tokens
    let metric ← readMetric tokens
    return (cfg.pushBack routesOn ⟨target, targetMask, viaIfIp, gateway, metric⟩, routesOn)

/-- `loadRoutingConfig`, on the contents of the file. -/
def loadRoutingConfig (cfg : RoutingConfig) (stream : List Char) :
    Except LoadFailure RoutingConfig :=
  ((getconfiglinesTokenized stream).foldlM loadLine (cfg, 0)).map Prod.fst

/-! ### What a line says -/

/-- Going on after a result. -/
lemma ok_bind {α β : Type} (a : α) (f : α → Except LoadFailure β) : (Except.ok a >>= f) = f a := rfl

/-- What a line of the file stands for. -/
inductive LineItem where
  /-- A comment, or nothing. -/
  | skip
  /-- The routing protocol. -/
  | proto (p : RoutingProtocol)
  /-- The address whose table follows. -/
  | routesOn (addr : Ipv4Addr)
  /-- An entry of the table. -/
  | entry (ent : RtblEntry)

/-- The effect of a line on the configuration and `routes_on`. -/
def LineItem.apply (state : RoutingConfig × Ipv4Addr) : LineItem → RoutingConfig × Ipv4Addr
  | .skip => state
  | .proto p => ({ state.1 with proto := p }, state.2)
  | .routesOn addr => (state.1, addr)
  | .entry ent => (state.1.pushBack state.2 ent, state.2)

/-! ### One line -/

/-- A token that is there. -/
@[simp] lemma tokenAt_zero (token : List Char) (tokens : List (List Char)) :
    tokenAt (token :: tokens) 0 = .ok token := rfl

/-- A second token that is there. -/
@[simp] lemma tokenAt_one (t token : List Char) (tokens : List (List Char)) :
    tokenAt (t :: token :: tokens) 1 = .ok token := rfl

/-- A line that starts a table. -/
lemma loadLine_routesOn (state : RoutingConfig × Ipv4Addr) (w : List Char)
    (rest : List (List Char)) :
    loadLine state (routesOnWord :: w :: rest) = match readIpAddr w with
      | .ok addr => .ok ((LineItem.routesOn addr).apply state)
      | .error e => .error (.error e) := by
  have hne : routesOnWord ≠ protoWord := by decide
  simp only [loadLine, tokenAt_zero, tokenAt_one, ok_bind, if_neg hne, if_true]
  cases readIpAddr w <;> rfl

/-- An entry of a table. -/
lemma loadLine_entry (state : RoutingConfig × Ipv4Addr) {t : List Char} (hproto : t ≠ protoWord)
    (hroutesOn : t ≠ routesOnWord) (rest : List (List Char)) :
    loadLine state (t :: rest) = (do
      let (target, targetMask) ← orFail (readIpNetworkAddr t)
      let viaIfIp ← orFail (readIpAddr (← tokenAt (t :: rest) 1))
      let gateway ← readGateway (t :: rest)
      let metric ← readMetric (t :: rest)
      return (LineItem.entry ⟨target, targetMask, viaIfIp, gateway, metric⟩).apply state) := by
  have hcount : ¬((t :: rest).length < 2 ∧ (t :: rest).length > 4) := by omega
  simp only [loadLine, tokenAt_zero, ok_bind, if_neg hproto, if_neg hroutesOn, if_neg hcount]
  rfl

/-- An entry whose fields are read is added to the table. -/
lemma loadLine_entry_eq_ok (state : RoutingConfig × Ipv4Addr) {t v : List Char}
    {opts : List (List Char)} {ent : RtblEntry} (hproto : t ≠ protoWord)
    (hroutesOn : t ≠ routesOnWord)
    (htarget : readIpNetworkAddr t = .ok (ent.target, ent.targetMask))
    (hvia : readIpAddr v = .ok ent.viaIfIp)
    (hgateway : readGateway (t :: v :: opts) = .ok ent.gateway)
    (hmetric : readMetric (t :: v :: opts) = .ok ent.metric) :
    loadLine state (t :: v :: opts) = .ok ((LineItem.entry ent).apply state) := by
  rw [loadLine_entry state hproto hroutesOn, htarget, tokenAt_one, hgateway, hmetric]
  simp only [orFail, Except.mapError, ok_bind, hvia]
  rfl

/-! ### The text of a line -/

/-- The tokens of a line, if it is a line of the configuration. -/
def lineTokens (line : List Char) : List (List (List Char)) :=
  if trim line ≠ [] && (trim line).head? ≠ some '#' then [tokenize (trim line)] else []

/-- The text of a line is read as what the line stands for. -/
def Says (line : List Char) (item : LineItem) : Prop :=
  '\n' ∉ line ∧ ∀ state, (lineTokens line).foldlM loadLine state = .ok (item.apply state)

/-- The lines are read one by one. -/
lemma getconfiglinesTokenized_flatMap {lines : List (List Char)} (hlines : ∀ l ∈ lines, '\n' ∉ l) :
    getconfiglinesTokenized (lines.flatMap fun l => l ++ ['\n']) = lines.flatMap lineTokens := by
  rw [getconfiglinesTokenized, getconfiglines, getlines_flatMap hlines]
  clear hlines
  induction lines with
  | nil => rfl
  | cons l lines ih =>
    rw [List.map_cons, List.filter_cons, List.flatMap_cons, ← ih, lineTokens]
    split <;> rfl

/-- **Reading a file line by line.** -/
theorem loadRoutingConfig_lines {lines : List (List Char)} {items : List LineItem}
    (h : List.Forall₂ Says lines items) (cfg : RoutingConfig) :
    loadRoutingConfig cfg (lines.flatMap fun l => l ++ ['\n']) =
      .ok (items.foldl LineItem.apply (cfg, 0)).1 := by
  have hboth : List.Forall₂ (fun l item => '\n' ∉ l ∧ Says l item) lines items :=
    h.imp fun l item hl => ⟨hl.1, hl⟩
  have hnewline := ((List.forall₂_and_left _ _).mp hboth).1
  have hfold : ∀ state, (lines.flatMap lineTokens).foldlM loadLine state =
      .ok (items.foldl LineItem.apply state) := by
    clear hnewline hboth
    induction h with
    | nil => exact fun state => rfl
    | cons hl _ ih =>
      intro state
      rw [List.flatMap_cons, List.foldlM_append, hl.2 state, List.foldl_cons]
      exact ih _
  rw [loadRoutingConfig, getconfiglinesTokenized_flatMap hnewline, hfold]
  rfl

/-! ### The lines of the format -/

/-- A comment is skipped. -/
lemma says_comment {text : List Char} (htext : '\n' ∉ text) : Says ('#' :: text) .skip := by
  refine ⟨?_, fun state => ?_⟩
  · rw [List.mem_cons, not_or]
    exact ⟨by decide, htext⟩
  · have hhead : (trim ('#' :: text)).head? = some '#' :=
      head_rdropWhile_dropWhile (by decide) text
    rw [lineTokens, hhead, if_neg (by simp)]
    rfl

/-- An empty line is skipped. -/
lemma says_nil : Says [] .skip := by
  refine ⟨List.not_mem_nil, fun state => ?_⟩
  rfl

/-- The words of the format are words. -/
lemma word_of_format {w : List Char} (hw : w ∈ [protoWord, routesOnWord, noneWord]) : Word w := by
  simp only [List.mem_cons, List.not_mem_nil, or_false] at hw
  rcases hw with rfl | rfl | rfl <;>
    exact ⟨by decide, by simp [protoWord, routesOnWord, noneWord, isSpace]⟩

/-- The tokens of a line that is written with single separators. -/
lemma lineTokens_intercalate {sep : Char} (hsep : isspace sep = true) {w : List Char}
    {ws : List (List Char)} (hws : ∀ v ∈ w :: ws, Word v) (hw : w.head? ≠ some '#') :
    lineTokens (List.intercalate [sep] (w :: ws)) = [w :: ws] := by
  have hword := hws w List.mem_cons_self
  have hhead := head_intercalate sep hword.ne_nil ws
  have htrim : trim (List.intercalate [sep] (w :: ws)) = List.intercalate [sep] (w :: ws) := by
    refine trim_eq_self (fun c hc => ?_) fun c hc => getLast_intercalate sep hws hc
    rw [hhead] at hc
    exact isspace_of_word hword (List.mem_of_mem_head? hc)
  have hne : List.intercalate [sep] (w :: ws) ≠ [] := by
    intro hnil
    rw [hnil, List.head?_nil, eq_comm, List.head?_eq_none_iff] at hhead
    exact hword.ne_nil hhead
  rw [lineTokens, htrim, hhead, tokenize_intercalate hsep (List.cons_ne_nil w ws) hws,
    if_pos (by simp [hne, hw])]

/-- A line that is written with single separators says what its tokens say. -/
lemma says_intercalate {sep : Char} (hsep : isspace sep = true) (hnewline : sep ≠ '\n')
    {w : List Char} {ws : List (List Char)} (hws : ∀ v ∈ w :: ws, Word v)
    (hw : w.head? ≠ some '#') {item : LineItem}
    (hload : ∀ state, loadLine state (w :: ws) = .ok (item.apply state)) :
    Says (List.intercalate [sep] (w :: ws)) item := by
  refine ⟨fun hmem => ?_, fun state => ?_⟩
  · obtain rfl | ⟨v, hv, hmem⟩ := mem_intercalate hmem
    · exact hnewline rfl
    · exact absurd (isspace_of_word (hws v hv) hmem) (by decide)
  · rw [lineTokens_intercalate hsep hws hw, List.foldlM_cons, hload]
    rfl

/-- The line of the protocol. -/
lemma says_proto_none : Says (List.intercalate [' '] [protoWord, noneWord]) (.proto .none) := by
  refine says_intercalate (by decide) (by decide) ?_ (by decide) fun state => rfl
  simp [word_of_format]

/-- A line that starts a table. -/
lemma says_routesOn {w : List Char} (hw : Word w) {addr : Ipv4Addr}
    (haddr : readIpAddr w = .ok addr) :
    Says (List.intercalate [' '] [routesOnWord, w]) (.routesOn addr) := by
  refine says_intercalate (by decide) (by decide) ?_ (by decide) fun state => ?_
  · simp [word_of_format, hw]
  · rw [loadLine_routesOn, haddr]

/-- The first token of an entry: a word that starts with a digit. -/
structure TargetToken (t : List Char) : Prop where
  /-- The token is a word. -/
  word : Word t
  /-- The token starts with a digit. -/
  digit : ∃ c, t.head? = some c ∧ c.isDigit = true

/-- A token that starts with a digit is not one that starts with another character. -/
lemma TargetToken.head_ne {t : List Char} (ht : TargetToken t) {c : Char}
    (hc : c.isDigit = false) : t.head? ≠ some c := by
  obtain ⟨d, hd, hdigit⟩ := ht.digit
  rw [hd, Ne, Option.some.injEq]
  exact ne_of_isDigit hdigit hc

/-- It is no word of the format. -/
lemma TargetToken.ne_words {t : List Char} (ht : TargetToken t) :
    t ≠ protoWord ∧ t ≠ routesOnWord :=
  ⟨fun h => ht.head_ne (c := 'p') (by decide) (h ▸ rfl),
    fun h => ht.head_ne (c := 'r') (by decide) (h ▸ rfl)⟩

/-- An entry with a gateway. -/
lemma says_entry_gateway {t v g : List Char} (ht : TargetToken t) (hv : Word v) (hg : Word g)
    {target targetMask viaIfIp gateway : Ipv4Addr}
    (htarget : readIpNetworkAddr t = .ok (target, targetMask))
    (hvia : readIpAddr v = .ok viaIfIp) (hgateway : readIpAddr g = .ok gateway) :
    Says (List.intercalate ['\t'] [t, v, g])
      (.entry ⟨target, targetMask, viaIfIp, gateway, 0⟩) := by
  refine says_intercalate (by decide) (by decide) ?_ (ht.head_ne (by decide)) fun state => ?_
  · simp [ht.word, hv, hg]
  · refine loadLine_entry_eq_ok state ht.ne_words.1 ht.ne_words.2 htarget hvia ?_ rfl
    change orFail (readIpAddr g) = .ok gateway
    rw [hgateway]
    rfl

/-- An entry without a gateway. -/
lemma says_entry {t v : List Char} (ht : TargetToken t) (hv : Word v)
    {target targetMask viaIfIp : Ipv4Addr}
    (htarget : readIpNetworkAddr t = .ok (target, targetMask)) (hvia : readIpAddr v = .ok viaIfIp) :
    Says (List.intercalate ['\t'] [t, v]) (.entry ⟨target, targetMask, viaIfIp, 0, 0⟩) := by
  refine says_intercalate (by decide) (by decide) ?_ (ht.head_ne (by decide)) fun state => ?_
  · simp [ht.word, hv]
  · exact loadLine_entry_eq_ok state ht.ne_words.1 ht.ne_words.2 htarget hvia rfl rfl

/-! ### Tables -/

/-- The lines of some tables: each starts with its address and ends with an empty line. -/
def tableItems (block : Ipv4Addr × List RtblEntry) : List LineItem :=
  .routesOn block.1 :: (block.2.map .entry ++ [.skip])

/-- The entries for an address in some tables. -/
def entriesFor (blocks : List (Ipv4Addr × List RtblEntry)) (addr : Ipv4Addr) : List RtblEntry :=
  blocks.flatMap fun block => if block.1 = addr then block.2 else []

/-- An entry for an address is in a table of this address. -/
lemma mem_entriesFor {blocks : List (Ipv4Addr × List RtblEntry)} {addr : Ipv4Addr}
    {ent : RtblEntry} :
    ent ∈ entriesFor blocks addr ↔ ∃ block ∈ blocks, block.1 = addr ∧ ent ∈ block.2 := by
  rw [entriesFor, List.mem_flatMap]
  refine exists_congr fun block => and_congr_right fun _ => ?_
  split
  · next h => simp [h]
  · next h => simp [h]

/-- A configuration in which no table is empty. -/
def NoEmptyTable (cfg : RoutingConfig) : Prop := ∀ addr ∈ cfg.tables, cfg.table addr ≠ []

/-- Adding an entry to a table. -/
lemma table_pushBack (cfg : RoutingConfig) (routesOn : Ipv4Addr) (ent : RtblEntry)
    (addr : Ipv4Addr) : (cfg.pushBack routesOn ent).table addr =
      cfg.table addr ++ if routesOn = addr then [ent] else [] := by
  rw [RoutingConfig.table, RoutingConfig.pushBack]
  by_cases h : routesOn = addr
  · subst h
    rw [AList.lookup_insert, if_pos rfl]
    rfl
  · rw [AList.lookup_insert_ne (Ne.symm h), if_neg h, List.append_nil]
    rfl

/-- Adding an entry leaves no table empty. -/
lemma NoEmptyTable.pushBack {cfg : RoutingConfig} (h : NoEmptyTable cfg) (routesOn : Ipv4Addr)
    (ent : RtblEntry) : NoEmptyTable (cfg.pushBack routesOn ent) := by
  intro addr haddr hnil
  rw [table_pushBack, List.append_eq_nil_iff] at hnil
  rcases (AList.mem_insert _).mp haddr with rfl | hmem
  · rw [if_pos rfl] at hnil
    cases hnil.2
  · exact h addr hmem hnil.1

/-- What the lines of some tables do to a configuration. -/
structure TablesAdded (cfg : RoutingConfig) (blocks : List (Ipv4Addr × List RtblEntry))
    (cfg' : RoutingConfig) : Prop where
  /-- The protocol stays. -/
  proto_eq : cfg'.proto = cfg.proto
  /-- The entries are added to the tables of their addresses. -/
  table_eq : ∀ addr, cfg'.table addr = cfg.table addr ++ entriesFor blocks addr
  /-- No table becomes empty. -/
  noEmpty : NoEmptyTable cfg → NoEmptyTable cfg'

/-- Adding tables one after another. -/
lemma TablesAdded.append {cfg cfg' cfg'' : RoutingConfig}
    {blocks blocks' : List (Ipv4Addr × List RtblEntry)} (h : TablesAdded cfg blocks cfg')
    (h' : TablesAdded cfg' blocks' cfg'') : TablesAdded cfg (blocks ++ blocks') cfg'' := by
  refine ⟨h'.proto_eq.trans h.proto_eq, fun addr => ?_, fun hcfg => h'.noEmpty (h.noEmpty hcfg)⟩
  rw [h'.table_eq, h.table_eq, List.append_assoc, entriesFor, entriesFor, ← List.flatMap_append]
  rfl

/-- The lines of a table. -/
lemma tablesAdded_table (cfg : RoutingConfig) (r : Ipv4Addr)
    (block : Ipv4Addr × List RtblEntry) :
    TablesAdded cfg [block] ((tableItems block).foldl LineItem.apply (cfg, r)).1 := by
  obtain ⟨routesOn, ents⟩ := block
  rw [tableItems, List.foldl_cons, List.foldl_append]
  change TablesAdded cfg _ ((ents.map LineItem.entry).foldl LineItem.apply (cfg, routesOn)).1
  induction ents generalizing cfg with
  | nil => exact ⟨rfl, fun addr => by simp [entriesFor], id⟩
  | cons ent ents ih =>
    obtain ⟨hproto, htable, hnoEmpty⟩ := ih (cfg.pushBack routesOn ent)
    refine ⟨hproto, fun addr => ?_, fun hcfg => hnoEmpty (hcfg.pushBack routesOn ent)⟩
    rw [List.map_cons, List.foldl_cons]
    refine (htable addr).trans ?_
    rw [table_pushBack, List.append_assoc]
    simp only [entriesFor, List.flatMap_cons, List.flatMap_nil, List.append_nil]
    split <;> rfl

/-- **The lines of several tables.** -/
theorem tablesAdded_tables (cfg : RoutingConfig) (r : Ipv4Addr)
    (blocks : List (Ipv4Addr × List RtblEntry)) :
    TablesAdded cfg blocks ((blocks.flatMap tableItems).foldl LineItem.apply (cfg, r)).1 := by
  induction blocks generalizing cfg r with
  | nil => exact ⟨rfl, fun addr => by simp [entriesFor], id⟩
  | cons block blocks ih =>
    rw [List.flatMap_cons, List.foldl_append]
    exact (tablesAdded_table cfg r block).append (ih _ _)

end MeshSim
