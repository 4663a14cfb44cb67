import MeshSim.Apps.Wiring
import MeshSim.Routing.IoUtils

/-!
# The apps configuration

`sim/apps_config.cc`: reading `apps.txt` into an `AppsCompleteConfig`, and `setAppAttribs` of
`sim/apps_manager.cc` on what was read.

The parser of connect statements looks for a separator in one of its two branches only, and for one
separator only; `parse_connect_iff` says for which statements it reads what the grammar says.  The
loader merges the attributes of an app line with default attributes that earlier lines have set and
removed; `apps_config_attributes` says which value each attribute gets.

The map of the default attributes is iterated in an order that is not specified: the order is a
parameter, which may be another one at each line.
-/

namespace MeshSim

open Overwrite

namespace AppsConfig

/-! ### The words of the format -/

/-- `"defaults"` -/
def defaultsWord : List Char := ['d', 'e', 'f', 'a', 'u', 'l', 't', 's']

/-- `"connect"` -/
def connectWord : List Char := ['c', 'o', 'n', 'n', 'e', 'c', 't']

/-- `":"` -/
def separator : List Char := [':']

/-- `appnames`. -/
def appnames : List (AppType × List Char) :=
  [(.udpEchoClient, ['e', 'c', 'h', 'o', '_', 'c', 'l', 'i', 'e', 'n', 't']),
    (.udpEchoServer, ['e', 'c', 'h', 'o', '_', 's', 'e', 'r', 'v', 'e', 'r']),
    (.fileServer, ['f', 'i', 'l', 'e', '_', 's', 'e', 'r', 'v', 'e', 'r']),
    (.streamingServer,
      ['s', 't', 'r', 'e', 'a', 'm', 'i', 'n', 'g', '_', 's', 'e', 'r', 'v', 'e', 'r']),
    (.client, ['c', 'l', 'i', 'e', 'n', 't']),
    (.webServer, ['w', 'e', 'b', '_', 's', 'e', 'r', 'v', 'e', 'r']),
    (.webClient, ['w', 'e', 'b', '_', 'c', 'l', 'i', 'e', 'n', 't']),
    (.timedProxy, ['t', 'i', 'm', 'e', 'd', '_', 'p', 'r', 'o', 'x', 'y']),
    (.rqEncoder, ['r', 'q', '_', 'e', 'n', 'c', 'o', 'd', 'e', 'r']),
    (.rqDecoder, ['r', 'q', '_', 'd', 'e', 'c', 'o', 'd', 'e', 'r'])]

/-! ### Single lines -/

/-- A key and its value. -/
abbrev Attrib := List Char × List Char

/-- `ParseAttributeAssignmentSpec` of `sim/ns3_utils.cc`. -/
def parseAttributeAssignmentSpec (assignmentSpec : List Char) : Except String Attrib :=
  if '=' ∈ assignmentSpec then
    .ok (assignmentSpec.takeWhile (· ≠ '='), (assignmentSpec.dropWhile (· ≠ '=')).tail)
  else
    .error ("Error:  Malformed attribute assignment spec \"" ++ String.ofList assignmentSpec ++
      "\".\n")

/-- The loop of `parseSingleAppConfig` over the attributes. -/
def parseAttribs (attribs : List Attrib) : List (List Char) → Except String (List Attrib)
  | [] => .ok attribs
  | token :: tokens =>
    match parseAttributeAssignmentSpec token with
    | .error e => .error e
    | .ok kv => parseAttribs (attribs ++ [kv]) tokens

/-- `parseSingleAppConfig`. -/
def parseSingleAppConfig (tokens : List (List Char)) : Except String AppConfig :=
  match tokens with
  | tag :: addr :: name :: specs =>
    match readIpAddr addr with
    | .error e => .error e
    | .ok ip =>
      let type := ((appnames.find? fun entry => entry.2 = name).map Prod.fst).getD .invalid
      if type = .invalid then
        .error ("Error:  Unknown app type \"" ++ String.ofList name ++ "\"\n")
      else
        match parseAttribs [] specs with
        | .error e => .error e
        | .ok attribs => .ok { tag := tag, type := type, ip := ip.toNat, attribs := attribs }
  | _ => .error "Error:  Need at least <tag> <ip> <app-type> for app description\n"

/-- The loop of `parseSingleConnectionConfig` that looks for the separator, with the tokens behind
it. -/
def splitAtSeparator (senders : List (List Char)) :
    List (List Char) → Option (List (List Char) × List (List Char))
  | [] => none
  | token :: tokens =>
    if token = separator then some (senders, tokens)
    else splitAtSeparator (senders ++ [token]) tokens

/-- `parseSingleConnectionConfig`, on tokens that start with `connect`. -/
def parseSingleConnectionConfig (tokens : List (List Char)) : Except String AppConnectionConfig :=
  match tokens with
  | [] | [_] | [_, _] =>
    .error "Error:  Connect needs at least two application tags to connect.\n"
  | [_, tx, rx] => .ok { senders := [tx], receivers := [rx] }
  | _ :: rest =>
    match splitAtSeparator [] rest with
    | none =>
      .error ("Error:  Connect with multiple senders or receivers needs \":\" separator " ++
        "token.\n")
    | some (senders, receivers) =>
      if senders = [] ∨ receivers = [] then
        .error "Error:  Connect needs at least one sender and at least one receiver.\n"
      else .ok { senders := senders, receivers := receivers }

/-! ### The file -/

/-- The variables of the loop of `loadAppsConfig`. -/
structure LoadState where
  /-- `target`. -/
  target : AppsCompleteConfig
  /-- `default_attribs`. -/
  defaultAttribs : AList fun _ : List Char => List Char

/-- The loop over the assignments of a `defaults` line. -/
def updateDefaults (defaultAttribs : AList fun _ : List Char => List Char) :
    List (List Char) → Except String (AList fun _ : List Char => List Char)
  | [] => .ok defaultAttribs
  | token :: tokens =>
    match parseAttributeAssignmentSpec token with
    | .error e => .error e
    | .ok kv =>
      updateDefaults
        (if kv.2 = [] then defaultAttribs.erase kv.1 else defaultAttribs.insert kv.1 kv.2) tokens

/-- The default attributes as pairs. -/
def pairs (defaultAttribs : AList fun _ : List Char => List Char) : List Attrib :=
  defaultAttribs.entries.map fun e => (e.1, e.2)

/-- The body of the loop of `loadAppsConfig`, where `order` is the order in which the default
attributes are iterated. -/
def loadLine (order : List Attrib → List Attrib) (state : LoadState) (tokens : List (List Char)) :
    Except String LoadState :=
  if tokens.headD [] = defaultsWord then
    match updateDefaults state.defaultAttribs tokens.tail with
    | .error e => .error e
    | .ok defaultAttribs => .ok { state with defaultAttribs := defaultAttribs }
  else if tokens.headD [] = connectWord then
    match parseSingleConnectionConfig tokens with
    | .error e => .error e
    | .ok conn =>
      .ok { state with target := { state.target with conn := state.target.conn ++ [conn] } }
  else
    match parseSingleAppConfig tokens with
    | .error e => .error e
    | .ok app =>
      let attribs := addMissing app.attribs (order (pairs state.defaultAttribs))
      .ok { state with
            target :=
              { state.target with app := state.target.app ++ [{ app with attribs := attribs }] } }

/-- The loop of `loadAppsConfig`, from the line `i` on. -/
def loadLines (order : ℕ → List Attrib → List Attrib) (i : ℕ) (state : LoadState) :
    List (List (List Char)) → Except String LoadState
  | [] => .ok state
  | tokens :: lines =>
    match loadLine (order i) state tokens with
    | .error e => .error e
    | .ok state => loadLines order (i + 1) state lines

/-- `loadAppsConfig`, on the contents of the file. -/
def loadAppsConfig (order : ℕ → List Attrib → List Attrib) (target : AppsCompleteConfig)
    (stream : List Char) : Except String AppsCompleteConfig :=
  (loadLines order 0 { target := target, defaultAttribs := ∅ }
    (getconfiglinesTokenized stream)).map LoadState.target

/-! ### Connect statements -/

/-- The grammar of connect statements: two tags, or some tags on both sides of a separator, with
what a statement says. -/
inductive ConnectGrammar : List (List Char) → AppConnectionConfig → Prop where
  /-- A sender and a receiver. -/
  | pair (tx rx : List Char) (htx : tx ≠ separator) (hrx : rx ≠ separator) :
      ConnectGrammar [tx, rx] { senders := [tx], receivers := [rx] }
  /-- Several senders or receivers. -/
  | separated (senders receivers : List (List Char)) (hsenders : senders ≠ [])
      (hreceivers : receivers ≠ []) (htx : separator ∉ senders) (hrx : separator ∉ receivers) :
      ConnectGrammar (senders ++ separator :: receivers)
        { senders := senders, receivers := receivers }

/-- The statements in which no separator can be taken for a tag: two tokens have none, and longer
statements have at most one unless they start with it. -/
def SeparatorSeen (rest : List (List Char)) : Prop :=
  if rest.length = 2 then separator ∉ rest
  else rest.head? = some separator ∨ rest.count separator ≤ 1

/-- The loop finds the first separator. -/
lemma splitAtSeparator_eq_some_iff {senders rest senders' receivers : List (List Char)} :
    splitAtSeparator senders rest = some (senders', receivers) ↔
      ∃ found, senders' = senders ++ found ∧ separator ∉ found ∧
        rest = found ++ separator :: receivers := by
  induction rest generalizing senders with
  | nil => simp [splitAtSeparator]
  | cons token rest ih =>
    rw [splitAtSeparator]
    by_cases htoken : token = separator
    · rw [if_pos htoken, Option.some.injEq, Prod.mk.injEq]
      constructor
      · rintro ⟨rfl, rfl⟩
        exact ⟨[], (List.append_nil _).symm, List.not_mem_nil, by rw [htoken]; rfl⟩
      · rintro ⟨found, rfl, hfound, hrest⟩
        cases found with
        | nil => exact ⟨(List.append_nil _).symm, (List.cons.inj hrest).2⟩
        | cons t found =>
          obtain ⟨rfl, -⟩ := List.cons.inj hrest
          exact absurd (htoken ▸ List.mem_cons_self) hfound
    · rw [if_neg htoken, ih]
      constructor
      · rintro ⟨found, rfl, hfound, rfl⟩
        refine ⟨token :: found, by simp, ?_, rfl⟩
        rw [List.mem_cons, not_or]
        exact ⟨Ne.symm htoken, hfound⟩
      · rintro ⟨found, rfl, hfound, hrest⟩
        cases found with
        | nil => exact absurd (List.cons.inj hrest).1 htoken
        | cons t found =>
          obtain ⟨rfl, hrest'⟩ := List.cons.inj hrest
          exact ⟨found, by simp, fun h => hfound (List.mem_cons_of_mem _ h), hrest'⟩

/-- The loop from the start. -/
lemma splitAtSeparator_nil_iff {rest senders receivers : List (List Char)} :
    splitAtSeparator [] rest = some (senders, receivers) ↔
      separator ∉ senders ∧ rest = senders ++ separator :: receivers := by
  rw [splitAtSeparator_eq_some_iff]
  constructor
  · rintro ⟨found, rfl, h⟩
    exact h
  · intro h
    exact ⟨senders, rfl, h⟩

/-- Statements of two tokens are accepted whatever these are. -/
lemma parse_pair (tx rx : List Char) (conn : AppConnectionConfig) :
    parseSingleConnectionConfig [connectWord, tx, rx] = .ok conn ↔
      conn = { senders := [tx], receivers := [rx] } := by
  rw [parseSingleConnectionConfig, Except.ok.injEq, eq_comm]

/-- Other statements are accepted by their first separator. -/
lemma parse_of_length_ne_two {rest : List (List Char)} (hlen : rest.length ≠ 2)
    (conn : AppConnectionConfig) :
    parseSingleConnectionConfig (connectWord :: rest) = .ok conn ↔
      conn.senders ≠ [] ∧ conn.receivers ≠ [] ∧ separator ∉ conn.senders ∧
        rest = conn.senders ++ separator :: conn.receivers := by
  obtain ⟨senders, receivers⟩ := conn
  rcases rest with _ | ⟨a, _ | ⟨b, _ | ⟨c, rest⟩⟩⟩
  · simp [parseSingleConnectionConfig]
  · simp only [parseSingleConnectionConfig, reduceCtorEq, false_iff]
    rintro ⟨hs, hr, -, heq⟩
    have hlength := congrArg List.length heq
    have hs' := List.length_pos_iff.mpr hs
    rw [List.length_append, List.length_cons, List.length_cons, List.length_nil] at hlength
    have hr' := List.length_pos_iff.mpr hr
    omega
  · exact absurd rfl hlen
  · rw [parseSingleConnectionConfig]
    · cases hsplit : splitAtSeparator [] (a :: b :: c :: rest) with
      | none =>
        simp only [reduceCtorEq, false_iff]
        rintro ⟨-, -, h⟩
        rw [← splitAtSeparator_nil_iff, hsplit] at h
        cases h
      | some r =>
        obtain ⟨s, r⟩ := r
        have hfirst : splitAtSeparator [] (a :: b :: c :: rest) = some (senders, receivers) ↔ _ :=
          splitAtSeparator_nil_iff
        rw [hsplit, Option.some.injEq, Prod.mk.injEq] at hfirst
        dsimp only
        rw [← hfirst]
        split
        · rename_i hempty
          simp only [reduceCtorEq, false_iff]
          rintro ⟨hs, hr, rfl, rfl⟩
          exact hempty.elim hs hr
        · rename_i hne
          rw [not_or] at hne
          rw [Except.ok.injEq, AppConnectionConfig.mk.injEq]
          constructor
          · rintro ⟨rfl, rfl⟩
            exact ⟨hne.1, hne.2, rfl, rfl⟩
          · exact fun h => h.2.2
    all_goals simp

/-- The statements of the grammar with two tokens. -/
lemma connectGrammar_pair_iff {tx rx : List Char} {conn : AppConnectionConfig} :
    ConnectGrammar [tx, rx] conn ↔
      conn = { senders := [tx], receivers := [rx] } ∧ separator ∉ [tx, rx] := by
  rw [List.mem_cons, List.mem_singleton, not_or]
  constructor
  · intro h
    generalize hrest : [tx, rx] = rest at h
    cases h with
    | pair tx' rx' htx hrx =>
      cases hrest
      exact ⟨rfl, Ne.symm htx, Ne.symm hrx⟩
    | separated senders receivers hsenders hreceivers =>
      have hlength := congrArg List.length hrest
      have hs := List.length_pos_iff.mpr hsenders
      have hr := List.length_pos_iff.mpr hreceivers
      simp at hlength
      omega
  · rintro ⟨rfl, htx, hrx⟩
    exact .pair tx rx (Ne.symm htx) (Ne.symm hrx)

/-- The other statements of the grammar. -/
lemma connectGrammar_iff {rest : List (List Char)} (hlen : rest.length ≠ 2)
    {conn : AppConnectionConfig} :
    ConnectGrammar rest conn ↔ (conn.senders ≠ [] ∧ conn.receivers ≠ [] ∧
      separator ∉ conn.senders ∧ rest = conn.senders ++ separator :: conn.receivers) ∧
      separator ∉ conn.receivers := by
  constructor
  · intro h
    cases h with
    | pair tx rx => exact absurd rfl hlen
    | separated senders receivers hsenders hreceivers htx hrx =>
      exact ⟨⟨hsenders, hreceivers, htx, rfl⟩, hrx⟩
  · rintro ⟨⟨hsenders, hreceivers, htx, rfl⟩, hrx⟩
    exact .separated _ _ hsenders hreceivers htx hrx

/-- **When a connect statement is read as the grammar says.** The parser accepts exactly the
statements of the grammar, with what they say, if and only if no separator can be taken for a
tag. -/
theorem parse_connect_iff (rest : List (List Char)) :
    (∀ conn, parseSingleConnectionConfig (connectWord :: rest) = .ok conn ↔
      ConnectGrammar rest conn) ↔ SeparatorSeen rest := by
  rw [SeparatorSeen]
  by_cases hlen : rest.length = 2
  · obtain ⟨tx, rx, rfl⟩ := List.length_eq_two.mp hlen
    simp only [parse_pair, connectGrammar_pair_iff, if_pos hlen]
    constructor
    · exact fun h => ((h _).mp rfl).2
    · exact fun h conn => ⟨fun hconn => ⟨hconn, h⟩, And.left⟩
  · simp only [parse_of_length_ne_two hlen, connectGrammar_iff hlen, if_neg hlen]
    constructor
    · intro h
      by_cases hcount : rest.count separator ≤ 1
      · exact Or.inr hcount
      · -- the statement has a first separator, and another one behind it
        have hmem : separator ∈ rest := List.count_pos_iff.mp (by omega)
        obtain ⟨senders, receivers, rfl, htx⟩ := List.eq_append_cons_of_mem hmem
        rw [List.count_append, List.count_eq_zero_of_not_mem htx, List.count_cons_self] at hcount
        have hrx : separator ∈ receivers := List.count_pos_iff.mp (by omega)
        by_cases hsenders : senders = []
        · exact Or.inl (by rw [hsenders]; rfl)
        · exact absurd hrx ((h { senders := senders, receivers := receivers }).mp
            ⟨hsenders, List.ne_nil_of_mem hrx, htx, rfl⟩).2
    · rintro h conn
      refine ⟨fun hconn => ⟨hconn, ?_⟩, And.left⟩
      obtain ⟨hsenders, -, htx, rfl⟩ := hconn
      rcases h with hhead | hcount
      · rw [List.head?_append_of_ne_nil _ hsenders] at hhead
        exact absurd (List.mem_of_mem_head? hhead) htx
      · rw [List.count_append, List.count_eq_zero_of_not_mem htx, List.count_cons_self] at hcount
        exact List.count_eq_zero.mp (by omega)

/-- **A separator is taken for a receiver**: the statement `connect a :` is accepted. -/
theorem not_parse_connect :
    ¬∀ rest conn, parseSingleConnectionConfig (connectWord :: rest) = .ok conn ↔
      ConnectGrammar rest conn := by
  intro h
  have hgrammar := (h [['a'], separator] { senders := [['a']], receivers := [separator] }).mp rfl
  exact (connectGrammar_pair_iff.mp hgrammar).2 (by simp)

/-! ### Default attributes -/

/-- The assignments that tokens spell out. -/
def assignments (tokens : List (List Char)) : List Attrib :=
  tokens.filterMap fun token => (parseAttributeAssignmentSpec token).toOption

/-- The first token spells out an assignment. -/
lemma assignments_cons {token : List Char} {kv : Attrib}
    (h : parseAttributeAssignmentSpec token = .ok kv) (tokens : List (List Char)) :
    assignments (token :: tokens) = kv :: assignments tokens := by
  rw [assignments, List.filterMap_cons, h]
  rfl

/-- Whether a line sets default attributes. -/
def IsDefaults (tokens : List (List Char)) : Prop := tokens.headD [] = defaultsWord

instance (tokens : List (List Char)) : Decidable (IsDefaults tokens) :=
  inferInstanceAs (Decidable (_ = _))

/-- Whether a line describes an app. -/
def IsApp (tokens : List (List Char)) : Prop :=
  tokens.headD [] ≠ defaultsWord ∧ tokens.headD [] ≠ connectWord

instance (tokens : List (List Char)) : Decidable (IsApp tokens) :=
  inferInstanceAs (Decidable (_ ∧ _))

/-- The assignments of default attributes on some lines. -/
def defaultAssignments (lines : List (List (List Char))) : List Attrib :=
  (lines.filter fun tokens => IsDefaults tokens).flatMap fun tokens => assignments tokens.tail

/-- The value that a key is left with by assignments of default attributes: an empty one removes the
key. -/
def defaultValue (ws : List Attrib) (k : List Char) : Option (List Char) :=
  (lastValue ws k).filter (· ≠ [])

/-- What the default attributes are behind some lines. -/
def HasDefaults (m : AList fun _ : List Char => List Char) (ws : List Attrib) : Prop :=
  ∀ k, m.lookup k = defaultValue ws k

/-- One assignment of a default attribute. -/
lemma HasDefaults.concat {m : AList fun _ : List Char => List Char} {ws : List Attrib}
    (h : HasDefaults m ws) (kv : Attrib) :
    HasDefaults (if kv.2 = [] then m.erase kv.1 else m.insert kv.1 kv.2) (ws ++ [kv]) := by
  intro k
  rw [defaultValue, lastValue_append, lastValue_singleton]
  by_cases hk : kv.1 = k
  · subst hk
    rw [if_pos rfl, Option.some_or]
    by_cases hv : kv.2 = []
    · rw [if_pos hv, AList.lookup_erase, Option.filter_some_neg (by simp [hv])]
    · rw [if_neg hv, AList.lookup_insert, Option.filter_some_pos (by simp [hv])]
  · rw [if_neg hk, Option.none_or, ← defaultValue, ← h k]
    split
    · exact AList.lookup_erase_ne (Ne.symm hk)
    · exact AList.lookup_insert_ne (Ne.symm hk)

/-- The assignments of a `defaults` line. -/
lemma HasDefaults.updateDefaults {m m' : AList fun _ : List Char => List Char} {ws : List Attrib}
    (h : HasDefaults m ws) {tokens : List (List Char)}
    (hupdate : AppsConfig.updateDefaults m tokens = .ok m') :
    HasDefaults m' (ws ++ assignments tokens) := by
  induction tokens generalizing m ws with
  | nil =>
    cases hupdate
    rwa [assignments, List.filterMap_nil, List.append_nil]
  | cons token tokens ih =>
    rw [AppsConfig.updateDefaults] at hupdate
    cases hparse : parseAttributeAssignmentSpec token with
    | error e =>
      rw [hparse] at hupdate
      cases hupdate
    | ok kv =>
      rw [hparse] at hupdate
      rw [assignments_cons hparse, List.append_cons]
      exact ih (h.concat kv) hupdate

/-- The attributes of an app line are its assignments. -/
lemma parseAttribs_eq_ok {attribs attribs' : List Attrib} {tokens : List (List Char)}
    (h : parseAttribs attribs tokens = .ok attribs') :
    attribs' = attribs ++ assignments tokens := by
  induction tokens generalizing attribs with
  | nil =>
    cases h
    rw [assignments, List.filterMap_nil, List.append_nil]
  | cons token tokens ih =>
    rw [parseAttribs] at h
    cases hparse : parseAttributeAssignmentSpec token with
    | error e =>
      rw [hparse] at h
      cases h
    | ok kv =>
      rw [hparse] at h
      rw [ih h, assignments_cons hparse, List.append_assoc, List.singleton_append]

/-- The attributes of an app are those of its line, before default attributes are added. -/
lemma attribs_of_parseSingleAppConfig {tokens : List (List Char)} {app : AppConfig}
    (h : parseSingleAppConfig tokens = .ok app) : app.attribs = assignments (tokens.drop 3) := by
  unfold parseSingleAppConfig at h
  split at h
  · split at h
    · cases h
    · dsimp only at h
      split at h
      · cases h
      · split at h
        · cases h
        · rename_i attribs hattribs
          cases h
          exact parseAttribs_eq_ok hattribs
  · cases h

/-- Whatever the order of the default attributes, a key is found with its value. -/
lemma find?_pairs {m : AList fun _ : List Char => List Char} {ds : List Attrib}
    (hds : ds.Perm (pairs m)) (k : List Char) :
    (ds.find? fun d => d.1 = k).map Prod.snd = m.lookup k := by
  have hkeys : (ds.map Prod.fst).Nodup := by
    rw [(hds.map Prod.fst).nodup_iff, pairs, List.map_map]
    exact m.nodupKeys
  refine Option.ext fun v => ?_
  rw [find?_eq_some_iff_mem hkeys, hds.mem_iff, pairs, List.mem_map]
  constructor
  · rintro ⟨⟨k', v'⟩, hmem, heq⟩
    cases heq
    exact AList.mem_lookup_iff.mpr hmem
  · exact fun h => ⟨⟨k, v⟩, AList.mem_lookup_iff.mp h, rfl⟩

/-! ### Lines -/

/-- What a line that is accepted does. -/
lemma loadLine_eq_ok {order : List Attrib → List Attrib} {state state' : LoadState}
    {tokens : List (List Char)} (h : loadLine order state tokens = .ok state') :
    (IsDefaults tokens ∧ state'.target = state.target ∧
      updateDefaults state.defaultAttribs tokens.tail = .ok state'.defaultAttribs) ∨
    (¬IsDefaults tokens ∧ ¬IsApp tokens ∧ state'.defaultAttribs = state.defaultAttribs ∧
      state'.target.app = state.target.app) ∨
    (¬IsDefaults tokens ∧ IsApp tokens ∧ state'.defaultAttribs = state.defaultAttribs ∧
      ∃ app, parseSingleAppConfig tokens = .ok app ∧
        state'.target.app = state.target.app ++
          [{ app with attribs :=
              addMissing app.attribs (order (pairs state.defaultAttribs)) }]) := by
  rw [loadLine] at h
  split at h
  · rename_i hdefaults
    split at h
    · cases h
    · rename_i m hm
      cases h
      exact Or.inl ⟨hdefaults, rfl, hm⟩
  · rename_i hdefaults
    split at h
    · rename_i hconnect
      split at h
      · cases h
      · cases h
        exact Or.inr (Or.inl ⟨hdefaults, fun happ => happ.2 hconnect, rfl, rfl⟩)
    · rename_i hconnect
      split at h
      · cases h
      · rename_i app happ
        cases h
        exact Or.inr (Or.inr ⟨hdefaults, ⟨hdefaults, hconnect⟩, rfl, app, happ, rfl⟩)

/-- What is known of the variables of the loader behind the lines `seen`, when `n` apps were there
before. -/
structure Loaded (n : ℕ) (seen : List (List (List Char))) (state : LoadState) : Prop where
  /-- The default attributes are those of the `defaults` lines. -/
  defaults : HasDefaults state.defaultAttribs (defaultAssignments seen)
  /-- There is an app for each app line. -/
  length : state.target.app.length = n + seen.countP fun tokens => IsApp tokens

/-- **One more line.** -/
lemma Loaded.line {n : ℕ} {seen : List (List (List Char))} {state state' : LoadState}
    (h : Loaded n seen state) {order : List Attrib → List Attrib} {tokens : List (List Char)}
    (hline : loadLine order state tokens = .ok state') : Loaded n (seen ++ [tokens]) state' := by
  have hsplit : defaultAssignments (seen ++ [tokens]) =
      defaultAssignments seen ++ if IsDefaults tokens then assignments tokens.tail else [] := by
    rw [defaultAssignments, List.filter_append, List.flatMap_append, ← defaultAssignments,
      List.filter_singleton]
    by_cases hd : IsDefaults tokens <;> simp [hd]
  have hcount : (seen ++ [tokens]).countP (fun tokens => IsApp tokens) =
      seen.countP (fun tokens => IsApp tokens) + if IsApp tokens then 1 else 0 := by
    rw [List.countP_append, List.countP_singleton]
    simp
  rcases loadLine_eq_ok hline with ⟨hd, htarget, hupdate⟩ | ⟨hd, happ, hm, htarget⟩ |
    ⟨hd, happ, hm, app, -, htarget⟩
  · have happ : ¬IsApp tokens := fun happ => happ.1 hd
    refine ⟨?_, by rw [htarget, hcount, if_neg happ, h.length, add_zero]⟩
    rw [hsplit, if_pos hd]
    exact h.defaults.updateDefaults hupdate
  · refine ⟨?_, by rw [htarget, hcount, if_neg happ, h.length, add_zero]⟩
    rw [hsplit, if_neg hd, hm, List.append_nil]
    exact h.defaults
  · refine ⟨?_, ?_⟩
    · rw [hsplit, if_neg hd, hm, List.append_nil]
      exact h.defaults
    · rw [htarget, hcount, if_pos happ, List.length_append, h.length, List.length_singleton,
        add_assoc]

/-- **All lines.** -/
lemma Loaded.lines {n : ℕ} {seen : List (List (List Char))} {state state' : LoadState}
    (h : Loaded n seen state) {order : ℕ → List Attrib → List Attrib} {i : ℕ}
    {lines : List (List (List Char))} (hload : loadLines order i state lines = .ok state') :
    Loaded n (seen ++ lines) state' := by
  induction lines generalizing seen state i with
  | nil =>
    cases hload
    rwa [List.append_nil]
  | cons tokens lines ih =>
    rw [loadLines] at hload
    cases hline : loadLine (order i) state tokens with
    | error e =>
      rw [hline] at hload
      cases hload
    | ok state₁ =>
      rw [hline] at hload
      rw [List.append_cons]
      exact ih (h.line hline) hload

/-- Lines that follow leave the apps that are there. -/
lemma app_prefix_of_loadLines {order : ℕ → List Attrib → List Attrib} {i : ℕ}
    {state state' : LoadState} {lines : List (List (List Char))}
    (hload : loadLines order i state lines = .ok state') :
    state.target.app <+: state'.target.app := by
  induction lines generalizing state i with
  | nil =>
    cases hload
    exact List.prefix_rfl
  | cons tokens lines ih =>
    rw [loadLines] at hload
    cases hline : loadLine (order i) state tokens with
    | error e =>
      rw [hline] at hload
      cases hload
    | ok state₁ =>
      rw [hline] at hload
      refine List.IsPrefix.trans ?_ (ih hload)
      rcases loadLine_eq_ok hline with ⟨-, htarget, -⟩ | ⟨-, -, -, htarget⟩ |
        ⟨-, -, -, app, -, htarget⟩
      · rw [htarget]
      · rw [htarget]
      · rw [htarget]
        exact List.prefix_append _ _

/-- The loop goes through some lines and then through the others. -/
lemma loadLines_append {order : ℕ → List Attrib → List Attrib} {i : ℕ} {state state' : LoadState}
    {pre post : List (List (List Char))}
    (hload : loadLines order i state (pre ++ post) = .ok state') :
    ∃ state₁, loadLines order i state pre = .ok state₁ ∧
      loadLines order (i + pre.length) state₁ post = .ok state' := by
  induction pre generalizing state i with
  | nil => exact ⟨state, rfl, hload⟩
  | cons tokens pre ih =>
    rw [List.cons_append, loadLines] at hload
    cases hline : loadLine (order i) state tokens with
    | error e =>
      rw [hline] at hload
      cases hload
    | ok state₁ =>
      rw [hline] at hload
      obtain ⟨state₂, hpre, hpost⟩ := ih hload
      refine ⟨state₂, ?_, ?_⟩
      · rw [loadLines, hline]
        exact hpre
      · rw [List.length_cons, add_comm pre.length 1, ← add_assoc]
        exact hpost

/-- **The attributes of an app.** When a file is accepted, each app line gives an app, and setting
its attributes in order leaves each name with the value that the line assigns to it last, or else
with the value that the `defaults` lines in front of it have left it with, or else without a value:
whatever follows, and in whatever order the default attributes are iterated. -/
theorem apps_config_attributes (A : AttributeTable) {order : ℕ → List Attrib → List Attrib}
    (horder : ∀ i ds, (order i ds).Perm ds) {target cfg : AppsCompleteConfig} {stream : List Char}
    (hload : loadAppsConfig order target stream = .ok cfg) {pre post : List (List (List Char))}
    {line : List (List Char)} (hlines : getconfiglinesTokenized stream = pre ++ line :: post)
    (hline : IsApp line) :
    ∃ parsed app, parseSingleAppConfig line = .ok parsed ∧
      cfg.app[target.app.length + pre.countP fun tokens => IsApp tokens]? = some app ∧
      app = { parsed with attribs := app.attribs } ∧
      ∀ attrs, setAppAttribs A app.type (fun _ => none) app.attribs = some attrs → ∀ k, attrs k =
        ((lastValue (assignments (line.drop 3)) k).or
          (defaultValue (defaultAssignments pre) k)).map .string := by
  obtain ⟨state', hrun, rfl⟩ : ∃ state', loadLines order 0
      { target := target, defaultAttribs := ∅ } (getconfiglinesTokenized stream) = .ok state' ∧
        state'.target = cfg := by
    rw [loadAppsConfig] at hload
    cases hrun : loadLines order 0 { target := target, defaultAttribs := ∅ }
      (getconfiglinesTokenized stream) with
    | error e =>
      rw [hrun] at hload
      cases hload
    | ok state' =>
      rw [hrun] at hload
      exact ⟨state', rfl, Except.ok.inj hload⟩
  rw [hlines] at hrun
  obtain ⟨state₁, hpre, hrest⟩ := loadLines_append hrun
  have hstart : Loaded target.app.length []
      { target := target, defaultAttribs := (∅ : AList fun _ : List Char => List Char) } :=
    ⟨fun k => by rw [AList.lookup_empty]; rfl, rfl⟩
  have hloaded := hstart.lines hpre
  rw [List.nil_append] at hloaded
  rw [loadLines] at hrest
  cases hstep : loadLine (order (0 + pre.length)) state₁ line with
  | error e =>
    rw [hstep] at hrest
    cases hrest
  | ok state₂ =>
    rw [hstep] at hrest
    rcases loadLine_eq_ok hstep with ⟨hd, -⟩ | ⟨-, happ, -⟩ | ⟨-, -, -, parsed, hparsed, htarget⟩
    · exact absurd hd hline.1
    · exact absurd hline happ
    · obtain ⟨later, hlater⟩ := app_prefix_of_loadLines hrest
      have hget : state'.target.app[target.app.length +
          pre.countP fun tokens => IsApp tokens]? = some { parsed with
            attribs := addMissing parsed.attribs
              (order (0 + pre.length) (pairs state₁.defaultAttribs)) } := by
        rw [← hlater, htarget, ← hloaded.length, List.append_assoc, List.singleton_append,
          List.getElem?_append_right le_rfl, Nat.sub_self, List.getElem?_cons_zero]
      refine ⟨parsed, _, hparsed, hget, rfl, fun attrs hattrs k => ?_⟩
      rw [AppsManager.setAppAttribs_eq] at hattrs
      split at hattrs
      · cases hattrs
        rw [assign_eq_lastValue, lastValue_map, lastValue_addMissing,
          find?_pairs (horder _ _), hloaded.defaults k, attribs_of_parseSingleAppConfig hparsed,
          Option.or_none]
      · cases hattrs

/-- A file that sets two default attributes, removes one of them, and assigns the other one on an
app line, and sets it anew behind that line. -/
def defaultsFile : List (List (List Char)) :=
  [[defaultsWord, ['A', '=', '1'], ['B', '=', '2']], [defaultsWord, ['A', '=']],
    [['x'], ['1', '.', '2', '.', '3', '.', '4'], ['c', 'l', 'i', 'e', 'n', 't'], ['C', '=', '3']],
    [defaultsWord, ['B', '=', '5']]]

/-- The default attribute that is left is set on the app, and the one that was removed is not. -/
theorem apps_config_attributes_removed :
    ∃ cfg app attrs,
      loadAppsConfig (fun _ ds => ds.reverse) { app := [], conn := [] }
        (defaultsFile.flatMap fun tokens => List.intercalate [' '] tokens ++ ['\n']) = .ok cfg ∧
      cfg.app[0]? = some app ∧
      setAppAttribs AppsManager.lenient app.type (fun _ => none) app.attribs = some attrs ∧
      attrs ['A'] = none ∧ attrs ['B'] = some (.string ['2']) ∧
      attrs ['C'] = some (.string ['3']) := by
  have hload : loadAppsConfig (fun _ ds => ds.reverse) { app := [], conn := [] }
      (defaultsFile.flatMap fun tokens => List.intercalate [' '] tokens ++ ['\n']) =
        .ok { app := [{ tag := ['x'], type := .client, ip := 16909060,
                        attribs := [(['C'], ['3']), (['B'], ['2'])] }], conn := [] } := rfl
  have hlines : getconfiglinesTokenized
      (defaultsFile.flatMap fun tokens => List.intercalate [' '] tokens ++ ['\n']) =
        defaultsFile.take 2 ++ [['x'], ['1', '.', '2', '.', '3', '.', '4'],
          ['c', 'l', 'i', 'e', 'n', 't'], ['C', '=', '3']] :: defaultsFile.drop 3 := rfl
  obtain ⟨parsed, app, -, happ, -, hattrs⟩ := apps_config_attributes AppsManager.lenient
    (fun _ ds => ds.reverse_perm) hload hlines (by decide)
  cases happ
  obtain ⟨attrs, hset⟩ : ∃ attrs, setAppAttribs AppsManager.lenient .client (fun _ => none)
      [(['C'], ['3']), (['B'], ['2'])] = some attrs := ⟨_, rfl⟩
  exact ⟨_, _, attrs, rfl, rfl, hset, hattrs _ hset _, hattrs _ hset _, hattrs _ hset _⟩

end AppsConfig

end MeshSim
