import MeshSim.Routing.DeviceTables

/-!
# Generated routing tables deliver

The tables of `genroutingtables`, installed on a network with the nodes of its input: every packet
from the backhaul to an address of a station or its wired station takes the way over the first mesh
node and the mesh node of the station, and every packet to the backhaul comes back on this way.

`Deployed` collects what is known about such a network.  For the mesh nodes there are lemmas on
where they send which packets (`leads_mesh_sta` and its counterparts); the routes are put together
from these.
-/

namespace MeshSim

open Forwarding GenRoutingTables

namespace Network

/-! ### The tables of the devices -/

/-- The table that the script makes for a mesh node. -/
def generatedTable (sts : List (ℕ × ℕ)) (x : ℕ) : List RtblEntry := (meshBlock sts x).2

/-- The tables of the script are those of the devices. -/
lemma map_deviceTables (xs : List ℕ) (sts : List (ℕ × ℕ)) :
    (deviceTables xs (generatedTable sts) sts).map (fun t => (t.1.addr, t.2)) =
      routingBlocks xs sts := by
  simp only [deviceTables, routingBlocks, List.map_cons, List.map_append, List.map_map,
    Function.comp_def]
  rfl

/-- The tables of the script, installed on a network with the nodes of the input. -/
structure Deployed (N : Network) (xs : List ℕ) (sts : List (ℕ × ℕ))
    (tables : Node → List RtblEntry) : Prop
    extends Installed N xs (generatedTable sts) sts tables where
  /-- No two stations share an address. -/
  distinct : (sts.flatMap fun st => stationAddrs st.1).Nodup

/-- A station is known by one of its addresses. -/
lemma eq_of_mem_stationAddrs {sts : List (ℕ × ℕ)}
    (hdistinct : (sts.flatMap fun st => stationAddrs st.1).Nodup) {st st' : ℕ × ℕ} (hst : st ∈ sts)
    (hst' : st' ∈ sts) {addr : Ipv4Addr} (haddr : addr ∈ stationAddrs st.1)
    (haddr' : addr ∈ stationAddrs st'.1) : st = st' := by
  by_contra hne
  have hsymm : Std.Symm (Function.onFun List.Disjoint fun st : ℕ × ℕ => stationAddrs st.1) :=
    ⟨fun _ _ hd => hd.symm⟩
  have hdisjoint := (List.nodup_flatMap.mp hdistinct).2.forall hst hst' hne
  exact hdisjoint haddr haddr'

/-! ### Paths -/

/-- The mesh nodes between the backhaul and a station. -/
def meshPath (x : ℕ) : List Node := if x = 1 then [.mesh 1] else [.mesh 1, .mesh x]

/-- The mesh nodes on the way. -/
lemma mem_meshPath {x : ℕ} {n : Node} : n ∈ meshPath x ↔ n = .mesh 1 ∨ n = .mesh x := by
  rw [meshPath]
  split
  · next h => simp [h]
  · simp

/-- No mesh node is passed twice. -/
lemma nodup_meshPath (x : ℕ) : (meshPath x).Nodup := by
  rw [meshPath]
  split
  · simp
  · next h => simpa using Ne.symm h

/-- No node is passed twice on the way to a station. -/
lemma nodup_route {x y : ℕ} {route : List Node}
    (hroute : route = [.sta y] ∨ route = [.sta y, .wiredSta y]) :
    (Node.backhaul :: (meshPath x ++ route)).Nodup := by
  rcases hroute with rfl | rfl <;> simp [List.nodup_append, mem_meshPath, nodup_meshPath]

/-! ### The mesh nodes -/

namespace Deployed

variable {N : Network} {xs : List ℕ} {sts : List (ℕ × ℕ)} {tables : Node → List RtblEntry}

/-- The routes of a mesh node to the stations. -/
lemma mem_generatedTable {x : ℕ} {ent : RtblEntry} : ent ∈ generatedTable sts x ↔
    ent = (if x = 1 then backhaulRoute (ipv4 10 1 1 2) (ipv4 10 1 1 1)
      else backhaulRoute (ipv4 10 1 2 x) (ipv4 10 1 2 1)) ∨
    ∃ st ∈ sts, ∃ addr ∈ stationAddrs st.1,
      ent = if st.2 = x then hostRoute addr (ipv4 10 1 3 x) (ipv4 10 1 3 st.1)
        else hostRoute addr (ipv4 10 1 2 x) (ipv4 10 1 2 st.2) := by
  simp only [generatedTable, meshBlock, List.mem_cons, List.mem_flatMap, List.mem_map,
    eq_comm (a := ent)]

/-- The addresses of a station and its wired station are not in the network of the backhaul. -/
lemma stationAddrs_eq (h : Deployed N xs sts tables) {st : ℕ × ℕ} (hst : st ∈ sts)
    {dest : Ipv4Addr} (hdest : dest ∈ stationAddrs st.1) :
    ∃ c d, dest = ipv4 10 1 c d ∧ (c = 3 ∨ c = 4) ∧ d < 256 := by
  obtain ⟨-, hy⟩ := h.sta_range st hst
  simp only [stationAddrs, List.mem_cons, List.not_mem_nil, or_false] at hdest
  rcases hdest with rfl | rfl | rfl
  · exact ⟨3, st.1, rfl, Or.inl rfl, hy⟩
  · exact ⟨4, st.1, rfl, Or.inr rfl, hy⟩
  · exact ⟨4, st.1 - 100, rfl, Or.inr rfl, by omega⟩

/-- The best routes of a mesh node to an address of a station. -/
lemma eq_hostRoute (h : Deployed N xs sts tables) {x : ℕ} (hx : x ∈ xs) {st : ℕ × ℕ}
    (hst : st ∈ sts) {dest : Ipv4Addr} (hdest : dest ∈ stationAddrs st.1) {ent : RtblEntry}
    (hent : ent ∈ tables (.mesh x)) (hcovers : covers dest ent = true)
    (hlen : 32 ≤ entryLength ent) :
    ent = if st.2 = x then hostRoute dest (ipv4 10 1 3 x) (ipv4 10 1 3 st.1)
      else hostRoute dest (ipv4 10 1 2 x) (ipv4 10 1 2 st.2) := by
  rcases (h.mem_mesh hx).mp hent with (rfl | rfl | ⟨-, rfl⟩) | hblock
  · exact absurd hlen (not_le_connected _)
  · exact absurd hlen (not_le_connected _)
  · exact absurd hlen (not_le_connected _)
  · rcases mem_generatedTable.mp hblock with rfl | ⟨st', hst', addr, haddr, rfl⟩
    · split at hlen <;> rw [entryLength_backhaulRoute] at hlen <;> omega
    · have hdest' : dest = addr := by
        split at hcovers <;> exact covers_hostRoute.mp hcovers
      subst hdest'
      rw [eq_of_mem_stationAddrs h.distinct hst hst' hdest haddr]

/-- A mesh node has a route to the addresses of all stations. -/
lemma hostRoute_mem (h : Deployed N xs sts tables) {x : ℕ} (hx : x ∈ xs) {st : ℕ × ℕ}
    (hst : st ∈ sts) {dest : Ipv4Addr} (hdest : dest ∈ stationAddrs st.1) :
    (if st.2 = x then hostRoute dest (ipv4 10 1 3 x) (ipv4 10 1 3 st.1)
      else hostRoute dest (ipv4 10 1 2 x) (ipv4 10 1 2 st.2)) ∈ tables (.mesh x) :=
  (h.mem_mesh hx).mpr (Or.inr (mem_generatedTable.mpr (Or.inr ⟨st, hst, dest, hdest, rfl⟩)))

/-- The mesh node of a station sends packets for the station to it. -/
lemma leads_mesh_sta (h : Deployed N xs sts tables) {st : ℕ × ℕ} (hst : st ∈ sts) {dest : Ipv4Addr}
    (hdest : dest ∈ stationAddrs st.1) :
    Leads (N.Hop sts tables dest) (.mesh st.2) (.sta st.1) := by
  obtain ⟨-, hy⟩ := h.sta_range st hst
  have hx := h.station_mesh st hst
  have hw := h.hostRoute_mem hx hst hdest
  rw [if_pos rfl] at hw
  refine leads_of_best (mesh_device_mem (h.mesh_mem st.2 hx)).2
    (sta_device_mem (h.sta_mem st hst)).1 (by simpa [linked] using hst) hw
    (covers_hostRoute.mpr rfl) fun ent hent hcovers hlen => ?_
  rw [entryLength_hostRoute] at hlen
  have heq := h.eq_hostRoute hx hst hdest hent hcovers hlen
  rw [if_pos rfl] at heq
  subst heq
  exact ⟨rfl, nextHost_of_gateway (by decide) hy rfl⟩

/-- Another mesh node sends packets for a station to the mesh node of the station. -/
lemma leads_mesh_mesh (h : Deployed N xs sts tables) {x : ℕ} (hx : x ∈ xs) {st : ℕ × ℕ}
    (hst : st ∈ sts) (hne : st.2 ≠ x) {dest : Ipv4Addr} (hdest : dest ∈ stationAddrs st.1) :
    Leads (N.Hop sts tables dest) (.mesh x) (.mesh st.2) := by
  have hx' := h.station_mesh st hst
  have hlt := h.mesh_lt st.2 hx'
  have hw := h.hostRoute_mem hx hst hdest
  rw [if_neg hne] at hw
  refine leads_of_best (mesh_device_mem (h.mesh_mem x hx)).1
    (mesh_device_mem (h.mesh_mem st.2 hx')).1 rfl hw (covers_hostRoute.mpr rfl)
    fun ent hent hcovers hlen => ?_
  rw [entryLength_hostRoute] at hlen
  have heq := h.eq_hostRoute hx hst hdest hent hcovers hlen
  rw [if_neg hne] at heq
  subst heq
  exact ⟨rfl, nextHost_of_gateway (by decide) hlt rfl⟩

/-- The routes of a mesh node to the backhaul. -/
lemma eq_backhaulRoute (h : Deployed N xs sts tables) {x : ℕ} (hx : x ∈ xs) {ent : RtblEntry}
    (hent : ent ∈ tables (.mesh x)) (hcovers : covers (ipv4 10 1 1 1) ent = true) :
    ent = (if x = 1 then backhaulRoute (ipv4 10 1 1 2) (ipv4 10 1 1 1)
      else backhaulRoute (ipv4 10 1 2 x) (ipv4 10 1 2 1)) ∨
        x = 1 ∧ ent = connected .meshP2p := by
  have hlt := h.mesh_lt x hx
  rcases (h.mem_mesh hx).mp hent with (rfl | rfl | hp2p) | hblock
  · rw [covers_connected (by decide) (by decide) (by decide) hlt rfl] at hcovers
    omega
  · rw [covers_connected (by decide) (by decide) (by decide) hlt rfl] at hcovers
    omega
  · exact Or.inr hp2p
  · rcases mem_generatedTable.mp hblock with heq | ⟨st, hst, addr, haddr, rfl⟩
    · exact Or.inl heq
    · have hdest : ipv4 10 1 1 1 = addr := by
        split at hcovers <;> exact covers_hostRoute.mp hcovers
      obtain ⟨c, d, rfl, hc, hd⟩ := h.stationAddrs_eq hst haddr
      have hinj := ipv4_inj (by decide) (by decide) (by omega) hd hdest
      omega

/-- The first mesh node sends packets for the backhaul to it: the entry of its table and the route
to its subnet match equally well, and lead to the same neighbour. -/
lemma leads_mesh_backhaul (h : Deployed N xs sts tables) :
    Leads (N.Hop sts tables (ipv4 10 1 1 1)) (.mesh 1) .backhaul := by
  have hw : backhaulRoute (ipv4 10 1 1 2) (ipv4 10 1 1 1) ∈ tables (.mesh 1) :=
    (h.mem_mesh h.one_mem).mpr (Or.inr (mem_generatedTable.mpr (Or.inl (if_pos rfl).symm)))
  refine leads_of_best (backhaulP2p_mem N).2 (backhaulP2p_mem N).1 rfl hw
    ((covers_backhaulRoute (by decide) (by decide)).mpr rfl) fun ent hent hcovers _ => ?_
  rcases h.eq_backhaulRoute h.one_mem hent hcovers with heq | ⟨-, rfl⟩
  · rw [if_pos rfl] at heq
    subst heq
    exact ⟨rfl, nextHost_of_gateway (by decide) (by decide) rfl⟩
  · exact ⟨rfl, if_pos rfl⟩

/-- Another mesh node sends packets for the backhaul to the first one. -/
lemma leads_mesh_one (h : Deployed N xs sts tables) {x : ℕ} (hx : x ∈ xs) (hne : x ≠ 1) :
    Leads (N.Hop sts tables (ipv4 10 1 1 1)) (.mesh x) (.mesh 1) := by
  have hw : backhaulRoute (ipv4 10 1 2 x) (ipv4 10 1 2 1) ∈ tables (.mesh x) :=
    (h.mem_mesh hx).mpr (Or.inr (mem_generatedTable.mpr (Or.inl (if_neg hne).symm)))
  refine leads_of_best (mesh_device_mem (h.mesh_mem x hx)).1
    (mesh_device_mem (h.mesh_mem 1 h.one_mem)).1 rfl hw
    ((covers_backhaulRoute (by decide) (by decide)).mpr rfl) fun ent hent hcovers _ => ?_
  rcases h.eq_backhaulRoute hx hent hcovers with heq | ⟨hone, -⟩
  · rw [if_neg hne] at heq
    subst heq
    exact ⟨rfl, nextHost_of_gateway (by decide) (by decide) rfl⟩
  · exact absurd hone hne

/-! ### Routes -/

/-- **From the backhaul** to an address of a station or its wired station. -/
theorem routes_from_backhaul (h : Deployed N xs sts tables) {st : ℕ × ℕ} (hst : st ∈ sts)
    {dest : Ipv4Addr} (hdest : dest ∈ stationAddrs st.1) :
    ∃ route, Routes (N.Owns dest) (N.Hop sts tables dest) .backhaul
      (.backhaul :: (meshPath st.2 ++ route)) ∧
        (route = [.sta st.1] ∨ route = [.sta st.1, .wiredSta st.1]) := by
  obtain ⟨route, hroute, heq⟩ := h.routes_from_sta hst hdest
  have hown : ∀ n, n ≠ .sta st.1 → n ≠ .wiredSta st.1 → ¬ N.Owns dest n := fun n hsta hwired hn =>
    (h.owns_stationAddrs hst hdest hn).elim hsta hwired
  have hown' : ∀ x, ¬ N.Owns dest (.mesh x) := fun x =>
    hown _ (fun h => by cases h) fun h => by cases h
  have hmesh : Routes (N.Owns dest) (N.Hop sts tables dest) (.mesh st.2) (.mesh st.2 :: route) :=
    .forward (hown' _) (h.leads_mesh_sta hst hdest) hroute
  obtain ⟨c, d, hdest', hc, hd⟩ := h.stationAddrs_eq hst hdest
  have hleads := h.leads_backhaul (show c < 256 by omega) (show c ≠ 1 by omega) hd
  rw [← hdest'] at hleads
  refine ⟨route, .forward (hown _ (fun h => by cases h) fun h => by cases h) hleads ?_, heq⟩
  rw [meshPath]
  split
  · next hone => rwa [hone] at hmesh
  · next hne => exact .forward (hown' _) (h.leads_mesh_mesh h.one_mem hst hne hdest) hmesh

/-- **To the backhaul** from a station. -/
theorem routes_from_sta_to_backhaul (h : Deployed N xs sts tables) {st : ℕ × ℕ} (hst : st ∈ sts) :
    Routes (N.Owns (ipv4 10 1 1 1)) (N.Hop sts tables (ipv4 10 1 1 1)) (.sta st.1)
      (.sta st.1 :: ((meshPath st.2).reverse ++ [.backhaul])) := by
  have hown : ∀ n, n ≠ .backhaul → ¬ N.Owns (ipv4 10 1 1 1) n := fun n hn hown =>
    hn ((Installed.owns_backhaul N n).mp hown)
  have haccept : Routes (N.Owns (ipv4 10 1 1 1)) (N.Hop sts tables (ipv4 10 1 1 1)) .backhaul
      [.backhaul] := .accept ((Installed.owns_backhaul N _).mpr rfl)
  have hone : Routes (N.Owns (ipv4 10 1 1 1)) (N.Hop sts tables (ipv4 10 1 1 1)) (.mesh 1)
      [.mesh 1, .backhaul] :=
    .forward (hown _ fun h => by cases h) h.leads_mesh_backhaul haccept
  refine .forward (hown _ fun h => by cases h) (h.leads_sta_mesh hst) ?_
  rw [meshPath]
  split
  · next heq => rwa [heq]
  · next hne =>
    exact .forward (hown _ fun h => by cases h) (h.leads_mesh_one (h.station_mesh st hst) hne) hone

/-- **To the backhaul** from a wired station. -/
theorem routes_from_wiredSta_to_backhaul (h : Deployed N xs sts tables) {st : ℕ × ℕ}
    (hst : st ∈ sts) :
    Routes (N.Owns (ipv4 10 1 1 1)) (N.Hop sts tables (ipv4 10 1 1 1)) (.wiredSta st.1)
      (.wiredSta st.1 :: .sta st.1 :: ((meshPath st.2).reverse ++ [.backhaul])) := by
  have hown : ¬ N.Owns (ipv4 10 1 1 1) (.wiredSta st.1) := fun hown => by
    cases (Installed.owns_backhaul N _).mp hown
  exact .forward hown (h.leads_wiredSta hst) (h.routes_from_sta_to_backhaul hst)

/-- **No packet goes astray.** Between the backhaul and a station or its wired station, every packet
follows one way to a node that accepts it, whatever is chosen on the way: none is dropped, and none
is forwarded for ever. -/
theorem not_astray (h : Deployed N xs sts tables) {st : ℕ × ℕ} (hst : st ∈ sts) {start : Node}
    {dest : Ipv4Addr} (hpacket : start = .backhaul ∧ dest ∈ stationAddrs st.1 ∨
      (start = .sta st.1 ∨ start = .wiredSta st.1) ∧ dest = ipv4 10 1 1 1) :
    ∃ route goal, route.getLast? = some goal ∧ N.Owns dest goal ∧
      (∀ run, Run (N.Owns dest) (N.Hop sts tables dest) start run → run <+: route ∧
        ∀ last, run.getLast? = some last → N.Owns dest last ∨ ¬N.Hop sts tables dest last none) ∧
      ∀ f : ℕ → Node, f 0 = start →
        ¬∀ i, ¬N.Owns dest (f i) ∧ N.Hop sts tables dest (f i) (some (f (i + 1))) := by
  obtain ⟨route, hroute⟩ : ∃ route,
      Routes (N.Owns dest) (N.Hop sts tables dest) start route := by
    rcases hpacket with ⟨rfl, hdest⟩ | ⟨rfl | rfl, rfl⟩
    · obtain ⟨route, hroute, -⟩ := h.routes_from_backhaul hst hdest
      exact ⟨_, hroute⟩
    · exact ⟨_, h.routes_from_sta_to_backhaul hst⟩
    · exact ⟨_, h.routes_from_wiredSta_to_backhaul hst⟩
  obtain ⟨goal, hlast, hown⟩ := hroute.exists_getLast
  exact ⟨route, goal, hlast, hown, fun run hrun => ⟨hroute.run_prefix hrun,
    fun last => hroute.not_dropped hrun⟩, hroute.not_forever⟩

end Deployed

/-! ### The script and the network -/

/-- The tables that are read back are those of the devices. -/
lemma tablesOf_generatedTables {N : Network} {routing : RoutingConfig} {xs : List ℕ}
    {sts : List (ℕ × ℕ)}
    (htable : ∀ addr, routing.table addr = entriesFor (routingBlocks xs sts) addr)
    (hmesh : ∀ x ∈ xs, x ∈ N.meshNodes) (hsta : ∀ st ∈ sts, st.1 ∈ N.staNodes) :
    TablesOf N routing (deviceTables xs (generatedTable sts) sts) := by
  refine ⟨fun addr => by rw [map_deviceTables, htable], fun t ht => ?_⟩
  refine exists_viaIfIp hmesh hsta (fun x hx ent hent => ?_) ht
  obtain ⟨hdev, hap⟩ := mesh_device_mem (hmesh x hx)
  rcases Deployed.mem_generatedTable.mp hent with rfl | ⟨st, -, addr, -, rfl⟩
  · split
    · next hone => exact ⟨.meshP2p, (backhaulP2p_mem N).2, by rw [hone]; rfl, rfl⟩
    · exact ⟨.mesh x, hdev, rfl, rfl⟩
  · split
    · exact ⟨.ap x, hap, rfl, rfl⟩
    · exact ⟨.mesh x, hdev, rfl, rfl⟩

/-- **Generated routing tables deliver.** -/
theorem genroutingtables_delivers {argv0 fp : List Char} (hargv0 : '\n' ∉ argv0) {rows : List Row}
    (hfp : Documented fp rows) (hone : ∃ row ∈ rows, row.meshNode = 1)
    (hdistinct : ((stations rows).flatMap fun st => stationAddrs st.1).Nodup) (N : Network)
    (hmesh : ∀ row ∈ rows, row.meshNode ∈ N.meshNodes)
    (hsta : ∀ st ∈ stations rows, st.1 ∈ N.staNodes) :
    ∃ out routing tables, genroutingtables argv0 fp = some out ∧
      loadRoutingConfig {} out = .ok routing ∧ routing.proto = .none ∧
      N.createInterfaces routing = some tables ∧
      ∀ st ∈ stations rows,
        (∀ dest ∈ stationAddrs st.1, ∃ route,
          Routes (N.Owns dest) (N.Hop (stations rows) tables dest) .backhaul route ∧
            route.Nodup ∧ .mesh 1 ∈ route ∧ .mesh st.2 ∈ route) ∧
        ∀ n ∈ [Node.sta st.1, .wiredSta st.1], ∃ route,
          Routes (N.Owns (ipv4 10 1 1 1)) (N.Hop (stations rows) tables (ipv4 10 1 1 1)) n route ∧
            route.Nodup := by
  obtain ⟨out, routing, xs, hout, hload, hproto, hnoEmpty, htable, hxs⟩ :=
    loadRoutingConfig_genroutingtables hargv0 hfp
  have hmesh' : ∀ x ∈ xs, x ∈ N.meshNodes := by
    intro x hx
    obtain ⟨row, hrow, rfl⟩ := (hxs x).mp hx
    exact hmesh row hrow
  obtain ⟨tables, htables, hmem⟩ :=
    (tablesOf_generatedTables htable hmesh' hsta).createInterfaces hnoEmpty
  have hdeployed : Deployed N xs (stations rows) tables :=
    { sta_range := fun st hst => (validStation_of_mem hfp.2 hst).1
      mesh_lt := fun x hx => by
        obtain ⟨row, hrow, rfl⟩ := (hxs x).mp hx
        exact (validMesh_of_mem hfp.2 hrow).2.trans (by decide)
      one_mem := (hxs 1).mpr hone
      station_mesh := fun st hst => (hxs st.2).mpr (meshNode_of_mem hst)
      eq_of_fst_eq := fun st hst st' hst' heq =>
        eq_of_mem_stationAddrs hdistinct hst hst' List.mem_cons_self (heq ▸ List.mem_cons_self)
      mesh_mem := hmesh'
      sta_mem := hsta
      distinct := hdistinct
      mem_tables := hmem }
  refine ⟨out, routing, tables, hout, hload, hproto, htables, fun st hst => ⟨?_, ?_⟩⟩
  · intro dest hdest
    obtain ⟨route, hroutes, heq⟩ := hdeployed.routes_from_backhaul hst hdest
    refine ⟨_, hroutes, nodup_route heq, ?_, ?_⟩
    · exact List.mem_cons_of_mem _ (List.mem_append_left _ (mem_meshPath.mpr (Or.inl rfl)))
    · exact List.mem_cons_of_mem _ (List.mem_append_left _ (mem_meshPath.mpr (Or.inr rfl)))
  · intro n hn
    simp only [List.mem_cons, List.not_mem_nil, or_false] at hn
    rcases hn with rfl | rfl
    · refine ⟨_, hdeployed.routes_from_sta_to_backhaul hst, ?_⟩
      simp [List.nodup_append, mem_meshPath, nodup_meshPath]
    · refine ⟨_, hdeployed.routes_from_wiredSta_to_backhaul hst, ?_⟩
      simp [List.nodup_append, mem_meshPath, nodup_meshPath]

/-- A network with two mesh nodes and a station. -/
def twoMeshNodes : Network where
  meshNodes := [1, 2]
  staNodes := [101]
  nodup := by decide

/-- Packets are delivered for a station at the second mesh node. -/
theorem genroutingtables_delivers_second :
    ∃ out routing tables,
      genroutingtables [] (rowsText [.mesh 1, .sta 101 2]) = some out ∧
      loadRoutingConfig {} out = .ok routing ∧
      twoMeshNodes.createInterfaces routing = some tables ∧
      ∃ route, Routes (twoMeshNodes.Owns (ipv4 10 1 4 1))
        (twoMeshNodes.Hop [(101, 2)] tables (ipv4 10 1 4 1)) .backhaul route := by
  have hfp : Documented (rowsText [.mesh 1, .sta 101 2]) [.mesh 1, .sta 101 2] :=
    documented_rowsText (by simp [Row.Valid])
  have hargv0 : '\n' ∉ ([] : List Char) := List.not_mem_nil
  obtain ⟨out, routing, tables, hout, hload, -, htables, hroutes⟩ :=
    genroutingtables_delivers hargv0 hfp ⟨.mesh 1, List.mem_cons_self, rfl⟩ (by decide) twoMeshNodes
      (by decide) (by decide)
  obtain ⟨route, hroute, -⟩ := (hroutes (101, 2) (by decide)).1 (ipv4 10 1 4 1) (by decide)
  exact ⟨out, routing, tables, hout, hload, htables, route, hroute⟩

end Network

end MeshSim
