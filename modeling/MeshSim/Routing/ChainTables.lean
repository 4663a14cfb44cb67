import MeshSim.Routing.Network

/-!
# The routing tables of the chain simulations

`routing.txt.php` of `scripts/chainsim/sim_configs`, in the form that the configurations `multiple`,
`proxy`, `rqtest` and `rq_multiclient` share: the routing configuration for `meshSize` mesh nodes in
a row, of which the first one is at the backhaul and the last one has `staSize` stations.

The parameters are numbers, as they are in the `enum.json` of these configurations.
`loadRoutingConfig_routingTxt` says that the text is read back as the tables of `chainTables`.
-/

namespace MeshSim

open PythonText GenRoutingTables

namespace ChainTables

/-! ### The template -/

/-- `"10.1.$c.$d"`. -/
def ip (c d : ℕ) : List Char := encodeIp 10 1 c d

/-- The lines in front of the first loop. -/
def headingLines : List (List Char) :=
  [List.intercalate [' '] [protoWord, noneWord], [], '#' :: " backhaul".toList,
    routesOnLine (ip 1 1), entryLine anyNetwork (ip 1 1) (ip 1 2), [], '#' :: " STA".toList]

/-- The lines for one station. -/
def staLines (meshSize i : ℕ) : List (List Char) :=
  [routesOnLine (ip 3 (100 + i)), entryLine anyNetwork (ip 3 (100 + i)) (ip 3 meshSize),
    List.intercalate ['\t'] [ip 4 i, ip 4 (100 + i)]]

/-- The lines for one wired station. -/
def wiredStaLines (i : ℕ) : List (List Char) :=
  [routesOnLine (ip 4 i), entryLine anyNetwork (ip 4 i) (ip 4 (100 + i)), []]

/-- "Everything that is closer to the backhaul". -/
def closerLines (i : ℕ) : List (List Char) :=
  if 1 < i then
    entryLine (ip 1 1) (ip 2 i) (ip 2 (i - 1)) ::
      (List.range' 1 (i - 1)).flatMap fun j =>
        [entryLine (ip 2 j) (ip 2 i) (ip 2 (i - 1)), entryLine (ip 3 j) (ip 2 i) (ip 2 (i - 1))]
  else [entryLine (ip 1 1) (ip 1 2) (ip 1 1)]

/-- The lines for one of the first `meshSize - 1` mesh nodes. -/
def meshLines (i : ℕ) : List (List Char) :=
  routesOnLine (ip 2 i) :: entryLine anyNetwork (ip 2 i) (ip 2 (i + 1)) :: (closerLines i ++ [[]])

/-- "The last hop". -/
def lastHopLines (meshSize staSize : ℕ) : List (List Char) :=
  routesOnLine (ip 2 meshSize) ::
    entryLine anyNetwork (ip 2 meshSize) (encodeIp 10 1 2 (meshSize - 1)) ::
    (List.range' 1 staSize).flatMap fun j =>
      [entryLine (ip 3 (j + 100)) (ip 3 meshSize) (ip 3 (j + 100)),
        entryLine (ip 4 (j + 100)) (ip 3 meshSize) (ip 3 (j + 100)),
        entryLine (ip 4 j) (ip 3 meshSize) (ip 3 (j + 100))]

/-- The lines of `routing.txt`. -/
def routingLines (meshSize staSize : ℕ) : List (List Char) :=
  headingLines ++ (List.range' 1 staSize).flatMap (staLines meshSize) ++
    [[], '#' :: " wSTA".toList] ++ (List.range' 1 staSize).flatMap wiredStaLines ++
    [[], '#' :: " mesh nodes".toList] ++ (List.range' 1 (meshSize - 1)).flatMap meshLines ++
    lastHopLines meshSize staSize

/-- `routing.txt.php`: the text of `routing.txt`. -/
def routingTxt (meshSize staSize : ℕ) : List Char :=
  (routingLines meshSize staSize).flatMap fun l => l ++ ['\n']

/-! ### The tables -/

/-- The table of a station. -/
def staTable (meshSize i : ℕ) : List RtblEntry :=
  [defaultRoute (ipv4 10 1 3 (100 + i)) (ipv4 10 1 3 meshSize),
    hostRoute (ipv4 10 1 4 i) (ipv4 10 1 4 (100 + i)) 0]

/-- The table of a wired station. -/
def wiredStaTable (i : ℕ) : List RtblEntry :=
  [defaultRoute (ipv4 10 1 4 i) (ipv4 10 1 4 (100 + i))]

/-- The routes towards the backhaul of one of the first mesh nodes. -/
def closerTable (i : ℕ) : List RtblEntry :=
  if 1 < i then
    hostRoute (ipv4 10 1 1 1) (ipv4 10 1 2 i) (ipv4 10 1 2 (i - 1)) ::
      (List.range' 1 (i - 1)).flatMap fun j =>
        [hostRoute (ipv4 10 1 2 j) (ipv4 10 1 2 i) (ipv4 10 1 2 (i - 1)),
          hostRoute (ipv4 10 1 3 j) (ipv4 10 1 2 i) (ipv4 10 1 2 (i - 1))]
  else [hostRoute (ipv4 10 1 1 1) (ipv4 10 1 1 2) (ipv4 10 1 1 1)]

/-- The table of one of the first mesh nodes. -/
def meshTable (i : ℕ) : List RtblEntry :=
  defaultRoute (ipv4 10 1 2 i) (ipv4 10 1 2 (i + 1)) :: closerTable i

/-- The table of the last mesh node. -/
def lastHopTable (meshSize staSize : ℕ) : List RtblEntry :=
  defaultRoute (ipv4 10 1 2 meshSize) (ipv4 10 1 2 (meshSize - 1)) ::
    (List.range' 1 staSize).flatMap fun j =>
      [ipv4 10 1 3 (j + 100), ipv4 10 1 4 (j + 100), ipv4 10 1 4 j].map fun dest =>
        hostRoute dest (ipv4 10 1 3 meshSize) (ipv4 10 1 3 (j + 100))

/-- The tables that the text describes, by the devices that they are for. -/
def chainTables (meshSize staSize : ℕ) : List (Device × List RtblEntry) :=
  (Device.backhaulP2p, [defaultRoute (ipv4 10 1 1 1) (ipv4 10 1 1 2)]) ::
    ((List.range' 1 staSize).map (fun i => (Device.sta (100 + i), staTable meshSize i)) ++
      (List.range' 1 staSize).map (fun i => (Device.wiredSta (100 + i), wiredStaTable i)) ++
      (List.range' 1 (meshSize - 1)).map (fun i => (Device.mesh i, meshTable i)) ++
      [(Device.mesh meshSize, lastHopTable meshSize staSize)])

/-- The tables are for the addresses of these devices. -/
def chainBlocks (meshSize staSize : ℕ) : List (Ipv4Addr × List RtblEntry) :=
  (chainTables meshSize staSize).map fun t => (t.1.addr, t.2)

/-! ### What the lines say -/

/-- A table without the empty line behind it. -/
def bareItems (block : Ipv4Addr × List RtblEntry) : List LineItem :=
  .routesOn block.1 :: block.2.map .entry

/-- An empty line has no effect. -/
lemma foldl_tableItems (block : Ipv4Addr × List RtblEntry) (state : RoutingConfig × Ipv4Addr) :
    (tableItems block).foldl LineItem.apply state =
      (bareItems block).foldl LineItem.apply state := by
  rw [tableItems, bareItems, List.foldl_cons, List.foldl_cons, List.foldl_append]
  rfl

/-- What the lines of `routing.txt` say. -/
def chainItems (meshSize staSize : ℕ) : List LineItem :=
  [LineItem.proto .none, .skip, .skip] ++
    bareItems (ipv4 10 1 1 1, [defaultRoute (ipv4 10 1 1 1) (ipv4 10 1 1 2)]) ++
    [LineItem.skip, .skip] ++
    (List.range' 1 staSize).flatMap
      (fun i => bareItems ((Device.sta (100 + i)).addr, staTable meshSize i)) ++
    [LineItem.skip, .skip] ++
    (List.range' 1 staSize).flatMap
      (fun i => tableItems ((Device.wiredSta (100 + i)).addr, wiredStaTable i)) ++
    [LineItem.skip, .skip] ++
    (List.range' 1 (meshSize - 1)).flatMap
      (fun i => tableItems ((Device.mesh i).addr, meshTable i)) ++
    bareItems ((Device.mesh meshSize).addr, lastHopTable meshSize staSize)

/-- The address of a wired station. -/
lemma addr_wiredSta (i : ℕ) : (Device.wiredSta (100 + i)).addr = ipv4 10 1 4 i := by
  rw [Device.addr, Nat.add_sub_cancel_left]

/-- The text of an address. -/
lemma ip_eq (c d : ℕ) : ip c d = dotted [10, 1, c, d] := by
  simp only [ip, encodeIp, dotted, List.map_cons, List.map_nil, Nat.cast_ofNat, Nat.cast_one]

/-- A line that starts a table. -/
lemma says_routesOnLine {c d : ℕ} (hc : c < 256) (hd : d < 256) :
    Says (routesOnLine (ip c d)) (.routesOn (ipv4 10 1 c d)) := by
  rw [ip_eq]
  exact says_routesOn (word_dotted 10 1 c d) (readIpAddr_dotted (by decide) (by decide) hc hd)

/-- The line of a default route. -/
lemma says_defaultLine {c d c' d' : ℕ} (hc : c < 256) (hd : d < 256) (hc' : c' < 256)
    (hd' : d' < 256) :
    Says (entryLine anyNetwork (ip c d) (ip c' d'))
      (.entry (defaultRoute (ipv4 10 1 c d) (ipv4 10 1 c' d'))) := by
  rw [ip_eq, ip_eq]
  exact says_defaultRoute (by decide) (by decide) hc hd (by decide) (by decide) hc' hd'

/-- The line of a host route. -/
lemma says_hostLine {c d c' d' c'' d'' : ℕ} (hc : c < 256) (hd : d < 256) (hc' : c' < 256)
    (hd' : d' < 256) (hc'' : c'' < 256) (hd'' : d'' < 256) :
    Says (entryLine (ip c d) (ip c' d') (ip c'' d''))
      (.entry (hostRoute (ipv4 10 1 c d) (ipv4 10 1 c' d') (ipv4 10 1 c'' d''))) := by
  rw [ip_eq, ip_eq, ip_eq]
  exact says_hostRoute hc hd hc' hd' hc'' hd''

/-- The line of a host route without a gateway. -/
lemma says_wireLine {c d c' d' : ℕ} (hc : c < 256) (hd : d < 256) (hc' : c' < 256)
    (hd' : d' < 256) :
    Says (List.intercalate ['\t'] [ip c d, ip c' d'])
      (.entry (hostRoute (ipv4 10 1 c d) (ipv4 10 1 c' d') 0)) := by
  rw [ip_eq, ip_eq]
  exact says_entry (targetToken_host c d) (word_dotted 10 1 c' d')
    (readIpNetworkAddr_dotted (by decide) (by decide) hc hd)
    (readIpAddr_dotted (by decide) (by decide) hc' hd')

/-- The lines for one station. -/
lemma says_staLines {meshSize i : ℕ} (hmesh : meshSize < 256) (hi : i < 156) :
    List.Forall₂ Says (staLines meshSize i)
      (bareItems ((Device.sta (100 + i)).addr, staTable meshSize i)) := by
  refine .cons (says_routesOnLine (by decide) (by omega)) (.cons ?_ (.cons ?_ .nil))
  · exact says_defaultLine (by decide) (by omega) (by decide) hmesh
  · exact says_wireLine (by decide) (by omega) (by decide) (by omega)

/-- The lines for one wired station. -/
lemma says_wiredStaLines {i : ℕ} (hi : i < 156) :
    List.Forall₂ Says (wiredStaLines i)
      (tableItems ((Device.wiredSta (100 + i)).addr, wiredStaTable i)) := by
  rw [addr_wiredSta]
  refine .cons (says_routesOnLine (by decide) (by omega)) (.cons ?_ (.cons says_nil .nil))
  exact says_defaultLine (by decide) (by omega) (by decide) (by omega)

/-- The routes towards the backhaul. -/
lemma says_closerLines {i : ℕ} (hi : i < 256) :
    List.Forall₂ (fun l ent => Says l (.entry ent)) (closerLines i) (closerTable i) := by
  rw [closerLines, closerTable]
  split
  · refine .cons (says_hostLine (by decide) (by decide) (by decide) hi (by decide) (by omega))
      (forall₂_flatMap fun j hj => ?_)
    have hj' := List.mem_range'_1.mp hj
    refine .cons ?_ (.cons ?_ .nil) <;>
      exact says_hostLine (by decide) (by omega) (by decide) hi (by decide) (by omega)
  · exact .cons (says_hostLine (by decide) (by decide) (by decide) (by decide) (by decide)
      (by decide)) .nil

/-- The lines for one of the first mesh nodes. -/
lemma says_meshLines {i : ℕ} (hi : i < 255) :
    List.Forall₂ Says (meshLines i) (tableItems ((Device.mesh i).addr, meshTable i)) := by
  have hents : List.Forall₂ (fun l ent => Says l (.entry ent))
      (entryLine anyNetwork (ip 2 i) (ip 2 (i + 1)) :: closerLines i) (meshTable i) :=
    .cons (says_defaultLine (by decide) (by omega) (by decide) (by omega))
      (says_closerLines (by omega))
  exact says_table (by decide) (by omega) hents

/-- The lines for the last mesh node. -/
lemma says_lastHopLines {meshSize staSize : ℕ} (hpos : 1 ≤ meshSize) (hmesh : meshSize < 256)
    (hsta : staSize < 156) :
    List.Forall₂ Says (lastHopLines meshSize staSize)
      (bareItems ((Device.mesh meshSize).addr, lastHopTable meshSize staSize)) := by
  have hgateway : encodeIp 10 1 2 (meshSize - 1) = ip 2 (meshSize - 1) := by
    rw [ip, Nat.cast_sub hpos]
    rfl
  rw [lastHopLines, hgateway]
  refine .cons (says_routesOnLine (by decide) hmesh) (.cons ?_ ?_)
  · exact says_defaultLine (by decide) hmesh (by decide) (by omega)
  · rw [List.forall₂_map_right_iff]
    refine forall₂_flatMap fun j hj => ?_
    have hj' := List.mem_range'_1.mp hj
    refine .cons ?_ (.cons ?_ (.cons ?_ .nil)) <;>
      exact says_hostLine (by decide) (by omega) (by decide) hmesh (by decide) (by omega)

/-- **The lines of `routing.txt`**, one by one. -/
lemma says_routingLines {meshSize staSize : ℕ} (hpos : 1 ≤ meshSize) (hmesh : meshSize < 256)
    (hsta : staSize < 156) :
    List.Forall₂ Says (routingLines meshSize staSize) (chainItems meshSize staSize) := by
  have hblank : ∀ {title : List Char}, '\n' ∉ title →
      List.Forall₂ Says [[], '#' :: title] [.skip, .skip] :=
    fun htitle => .cons says_nil (.cons (says_comment htitle) .nil)
  have hheading : List.Forall₂ Says headingLines ([.proto .none, .skip, .skip] ++
      bareItems (ipv4 10 1 1 1, [defaultRoute (ipv4 10 1 1 1) (ipv4 10 1 1 2)]) ++
        [.skip, .skip]) := by
    refine .cons says_proto_none (.cons says_nil (.cons (says_comment (by decide)) ?_))
    refine .cons (says_routesOnLine (by decide) (by decide)) (.cons ?_ (hblank (by decide)))
    exact says_defaultLine (by decide) (by decide) (by decide) (by decide)
  have hrange : ∀ {n i : ℕ}, i ∈ List.range' 1 n → i < 1 + n :=
    fun hi => (List.mem_range'_1.mp hi).2
  have hstas := forall₂_flatMap (l := List.range' 1 staSize) fun i hi =>
    says_staLines hmesh ((hrange hi).trans_le (by omega))
  have hwired := forall₂_flatMap (l := List.range' 1 staSize) fun i hi =>
    says_wiredStaLines ((hrange hi).trans_le (by omega))
  have hmeshes := forall₂_flatMap (l := List.range' 1 (meshSize - 1)) fun i hi =>
    says_meshLines ((hrange hi).trans_le (by omega))
  have hlast := says_lastHopLines hpos hmesh hsta
  refine List.rel_append (List.rel_append (List.rel_append (List.rel_append (List.rel_append
    (List.rel_append hheading hstas) (hblank (by decide))) hwired) (hblank (by decide)))
      hmeshes) hlast

/-! ### The whole text -/

/-- What the lines of `routing.txt` do to a configuration. -/
lemma tablesAdded_chainItems (meshSize staSize : ℕ) (cfg : RoutingConfig) :
    TablesAdded { cfg with proto := .none } (chainBlocks meshSize staSize)
      ((chainItems meshSize staSize).foldl LineItem.apply (cfg, 0)).1 := by
  have hbare : ∀ (block : Ipv4Addr × List RtblEntry) (state : RoutingConfig × Ipv4Addr),
      TablesAdded state.1 [block] ((bareItems block).foldl LineItem.apply state).1 := by
    intro block state
    rw [← foldl_tableItems]
    exact tablesAdded_table state.1 state.2 block
  have hloop : ∀ (block : ℕ → Ipv4Addr × List RtblEntry) (items : ℕ → List LineItem),
      (∀ i state, TablesAdded state.1 [block i] ((items i).foldl LineItem.apply state).1) →
      ∀ (l : List ℕ) (state : RoutingConfig × Ipv4Addr),
        TablesAdded state.1 (l.map block) ((l.flatMap items).foldl LineItem.apply state).1 := by
    intro block items hitems l
    induction l with
    | nil => exact fun state => (tablesAdded_tables state.1 state.2 [])
    | cons i l ih =>
      intro state
      rw [List.flatMap_cons, List.foldl_append, List.map_cons]
      exact (hitems i state).append (ih _)
  have htable : ∀ (block : ℕ → Ipv4Addr × List RtblEntry) i (state : RoutingConfig × Ipv4Addr),
      TablesAdded state.1 [block i] ((tableItems (block i)).foldl LineItem.apply state).1 :=
    fun block i state => tablesAdded_table state.1 state.2 (block i)
  have hblocks : chainBlocks meshSize staSize =
      [(ipv4 10 1 1 1, [defaultRoute (ipv4 10 1 1 1) (ipv4 10 1 1 2)])] ++
        (List.range' 1 staSize).map
          (fun i => ((Device.sta (100 + i)).addr, staTable meshSize i)) ++
        (List.range' 1 staSize).map
          (fun i => ((Device.wiredSta (100 + i)).addr, wiredStaTable i)) ++
        (List.range' 1 (meshSize - 1)).map (fun i => ((Device.mesh i).addr, meshTable i)) ++
        [((Device.mesh meshSize).addr, lastHopTable meshSize staSize)] := by
    simp only [chainBlocks, chainTables, List.map_cons, List.map_append, List.map_map,
      List.map_nil, Function.comp_def, List.append_assoc, List.cons_append, List.nil_append]
    rfl
  rw [hblocks]
  simp only [chainItems, List.foldl_append, List.foldl_cons, List.foldl_nil, LineItem.apply]
  have hbackhaul := hbare (ipv4 10 1 1 1, [defaultRoute (ipv4 10 1 1 1) (ipv4 10 1 1 2)])
    ({ cfg with proto := .none }, 0)
  have hsta := hloop (fun i => ((Device.sta (100 + i)).addr, staTable meshSize i)) _
    (fun i => hbare _) (List.range' 1 staSize)
  have hwired := hloop (fun i => ((Device.wiredSta (100 + i)).addr, wiredStaTable i)) _ (htable _)
    (List.range' 1 staSize)
  have hmesh := hloop (fun i => ((Device.mesh i).addr, meshTable i)) _ (htable _)
    (List.range' 1 (meshSize - 1))
  exact (((hbackhaul.append (hsta _)).append (hwired _)).append (hmesh _)).append (hbare _ _)

/-- **The text is accepted**, and read back as the tables of the chain. -/
theorem loadRoutingConfig_routingTxt {meshSize staSize : ℕ} (hpos : 1 ≤ meshSize)
    (hmesh : meshSize < 256) (hsta : staSize < 156) :
    ∃ cfg, loadRoutingConfig {} (routingTxt meshSize staSize) = .ok cfg ∧ cfg.proto = .none ∧
      NoEmptyTable cfg ∧
      ∀ addr, cfg.table addr = entriesFor (chainBlocks meshSize staSize) addr := by
  obtain ⟨hproto, htable, hnoEmpty⟩ := tablesAdded_chainItems meshSize staSize {}
  refine ⟨_, loadRoutingConfig_lines (says_routingLines hpos hmesh hsta) {}, hproto,
    hnoEmpty ?_, htable⟩
  exact fun addr haddr => absurd haddr (AList.notMem_empty addr)

end ChainTables

end MeshSim
