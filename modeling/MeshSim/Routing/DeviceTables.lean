import MeshSim.Routing.Network

/-!
# Tables between the backhaul and the stations

What the tables of `genroutingtables` and of the chain simulations have in common: the backhaul and
the stations have default routes towards each other, a station has a route to its wired station, and
the mesh nodes have tables of their own.

`Installed` says that such tables are on the nodes of a network.  The routes on the backhaul, the
stations and the wired stations follow from it, and where these nodes send packets.
-/

namespace MeshSim

open Forwarding GenRoutingTables

namespace Network

/-! ### Matches -/

/-- The default route matches everything. -/
lemma covers_defaultRoute (dest via gateway : Ipv4Addr) :
    covers dest (defaultRoute via gateway) = true := by
  simp [covers, defaultRoute, netmask]

/-- A host route matches its host. -/
lemma covers_hostRoute {dest target via gateway : Ipv4Addr} :
    covers dest (hostRoute target via gateway) = true ↔ dest = target := by
  have hall : ∀ a : Ipv4Addr, a &&& -1#32 = a := fun a => BitVec.and_allOnes
  simp only [covers, hostRoute, hall, decide_eq_true_eq]

/-- The route to the backhaul matches the addresses of the backhaul. -/
lemma covers_backhaulRoute {c d : ℕ} (hc : c < 256) (hd : d < 256) {via gateway : Ipv4Addr} :
    covers (ipv4 10 1 c d) (backhaulRoute via gateway) = true ↔ c = 1 := by
  rw [covers, decide_eq_true_eq]
  exact covers_subnet hc hd (by decide) (by decide)

/-- The route to a subnet matches the addresses of the subnet. -/
lemma covers_connected {c d c' d' : ℕ} (hc : c < 256) (hd : d < 256) (hc' : c' < 256)
    (hd' : d' < 256) {dev : Device} (hdev : dev.addr = ipv4 10 1 c' d') :
    covers (ipv4 10 1 c d) (connected dev) = true ↔ c = c' := by
  rw [covers, decide_eq_true_eq, connected, hdev]
  exact covers_subnet hc hd hc' hd'

/-- The length of a default route. -/
lemma entryLength_defaultRoute (via gateway : Ipv4Addr) :
    entryLength (defaultRoute via gateway) = 0 :=
  prefixLength_netmask (by decide)

/-- The length of the route to the backhaul. -/
lemma entryLength_backhaulRoute (via gateway : Ipv4Addr) :
    entryLength (backhaulRoute via gateway) = 24 :=
  prefixLength_netmask (by decide)

/-- The length of the route to a subnet. -/
lemma entryLength_connected (d : Device) : entryLength (connected d) = 24 :=
  prefixLength_netmask (by decide)

/-- The length of a host route. -/
lemma entryLength_hostRoute (target via gateway : Ipv4Addr) :
    entryLength (hostRoute target via gateway) = 32 := by
  change prefixLength (-1#32) = 32
  decide

/-- The route to a subnet is shorter than a host route. -/
lemma not_le_connected (d : Device) : ¬ 32 ≤ entryLength (connected d) := by
  rw [entryLength_connected]
  decide

/-- The default route is shorter than every other route. -/
lemma not_le_defaultRoute {len : ℕ} (hlen : 0 < len) (via gateway : Ipv4Addr) :
    ¬ len ≤ entryLength (defaultRoute via gateway) := by
  rw [entryLength_defaultRoute]
  omega

/-- The next host is the gateway. -/
lemma nextHost_of_gateway {dest : Ipv4Addr} {ent : RtblEntry} {c d : ℕ} (hc : c < 256)
    (hd : d < 256) (h : ent.gateway = ipv4 10 1 c d) : nextHost dest ent = ipv4 10 1 c d := by
  have hne : ipv4 10 1 c d ≠ 0 := by
    intro hzero
    have hnat := congrArg BitVec.toNat hzero
    rw [toNat_ipv4 (by decide) (by decide) hc hd] at hnat
    simp at hnat
  rw [nextHost, h, if_neg hne]

/-! ### Devices -/

section Devices

variable {N : Network}

/-- The devices of the backhaul are in the network. -/
lemma backhaulP2p_mem (N : Network) :
    Device.backhaulP2p ∈ N.devices ∧ Device.meshP2p ∈ N.devices := by
  simp [devices, networkDevices]

/-- The devices of a mesh node are in the network. -/
lemma mesh_device_mem {x : ℕ} (hx : x ∈ N.meshNodes) :
    Device.mesh x ∈ N.devices ∧ Device.ap x ∈ N.devices := by
  simp [devices, networkDevices, hx]

/-- The devices of a station and its wired station are in the network. -/
lemma sta_device_mem {y : ℕ} (hy : y ∈ N.staNodes) :
    Device.sta y ∈ N.devices ∧ Device.sta2w y ∈ N.devices ∧ Device.wiredSta y ∈ N.devices := by
  simp [devices, networkDevices, hy]

/-- The subnets of a node are those of its devices. -/
lemma exists_connected_iff {n : Node} {ds : List Device} (hmem : ∀ d ∈ ds, d ∈ N.devices)
    (hnode : ∀ d, d.node = n ↔ d ∈ ds) {ent : RtblEntry} :
    (∃ d ∈ N.devices, d.node = n ∧ ent = connected d) ↔ ∃ d ∈ ds, ent = connected d := by
  constructor
  · rintro ⟨d, -, hd, rfl⟩
    exact ⟨d, (hnode d).mp hd, rfl⟩
  · rintro ⟨d, hd, rfl⟩
    exact ⟨d, hmem d hd, (hnode d).mpr hd, rfl⟩

/-- **Where a node forwards a packet**, when all routes that match as well as a given one lead to
the same neighbour. -/
lemma leads_of_best {sts : List (ℕ × ℕ)} {tables : Node → List RtblEntry} {dest : Ipv4Addr}
    {d d' : Device} (hd : d ∈ N.devices) (hd' : d' ∈ N.devices) (hlinked : linked sts d d' = true)
    {w : RtblEntry} (hw : w ∈ tables d.node) (hcovers : covers dest w = true)
    (hbest : ∀ ent ∈ tables d.node, covers dest ent = true → entryLength w ≤ entryLength ent →
      ent.viaIfIp = d.addr ∧ nextHost dest ent = d'.addr) :
    Leads (N.Hop sts tables dest) d.node d'.node := by
  have hneighbour : ∀ ent ∈ best (covers dest) entryLength (tables d.node),
      N.neighbour sts dest d.node ent = some d'.node := by
    intro ent hent
    obtain ⟨hmem, hcov, hmax⟩ := mem_best.mp hent
    obtain ⟨hvia, hnext⟩ := hbest ent hmem hcov (hmax w hw hcovers)
    rw [neighbour, hvia, hnext, addr2netdev_addr hd, addr2netdev_addr hd', Option.bind_eq_bind,
      Option.bind_some, Option.bind_some, if_pos ⟨rfl, hlinked⟩]
  intro next
  constructor
  · rintro ⟨ent, hent, rfl⟩
    exact hneighbour ent hent
  · rintro rfl
    obtain ⟨ent, hent⟩ : ∃ ent, ent ∈ best (covers dest) entryLength (tables d.node) :=
      exists_mem_best hw hcovers
    exact ⟨ent, hent, hneighbour ent hent⟩

end Devices

/-! ### The routes on a node -/

/-- The tables of the devices: the backhaul, the mesh nodes `xs`, the stations `sts`, each with its
mesh node, and their wired stations. -/
def deviceTables (xs : List ℕ) (meshTable : ℕ → List RtblEntry) (sts : List (ℕ × ℕ)) :
    List (Device × List RtblEntry) :=
  (.backhaulP2p, backhaulBlock.2) :: (xs.map (fun x => (.mesh x, meshTable x)) ++
    sts.map (fun st => (.sta st.1, (staBlock st).2)) ++
    sts.map fun st => (.wiredSta st.1, (wiredStaBlock st).2))

/-- The tables. -/
lemma mem_deviceTables {xs : List ℕ} {meshTable : ℕ → List RtblEntry} {sts : List (ℕ × ℕ)}
    {t : Device × List RtblEntry} : t ∈ deviceTables xs meshTable sts ↔
      t = (.backhaulP2p, backhaulBlock.2) ∨ (∃ x ∈ xs, t = (.mesh x, meshTable x)) ∨
        (∃ st ∈ sts, t = (.sta st.1, (staBlock st).2)) ∨
        ∃ st ∈ sts, t = (.wiredSta st.1, (wiredStaBlock st).2) := by
  simp only [deviceTables, List.mem_cons, List.mem_append, List.mem_map, or_assoc, eq_comm (b := t)]

/-- The tables of the devices, installed on a network with their nodes. -/
structure Installed (N : Network) (xs : List ℕ) (meshTable : ℕ → List RtblEntry)
    (sts : List (ℕ × ℕ)) (tables : Node → List RtblEntry) : Prop where
  /-- The addresses of the stations are in range. -/
  sta_range : ∀ st ∈ sts, 101 ≤ st.1 ∧ st.1 < 256
  /-- The addresses of the mesh nodes are in range. -/
  mesh_lt : ∀ x ∈ xs, x < 256
  /-- The mesh node at the backhaul is one of them. -/
  one_mem : 1 ∈ xs
  /-- The mesh nodes of the stations are among them. -/
  station_mesh : ∀ st ∈ sts, st.2 ∈ xs
  /-- A station has one mesh node. -/
  eq_of_fst_eq : ∀ st ∈ sts, ∀ st' ∈ sts, st.1 = st'.1 → st = st'
  /-- The mesh nodes are in the network. -/
  mesh_mem : ∀ x ∈ xs, x ∈ N.meshNodes
  /-- The stations are in the network. -/
  sta_mem : ∀ st ∈ sts, st.1 ∈ N.staNodes
  /-- The routes on a node. -/
  mem_tables : ∀ n ent, ent ∈ tables n ↔ (∃ d ∈ N.devices, d.node = n ∧ ent = connected d) ∨
    ∃ t ∈ deviceTables xs meshTable sts, t.1.node = n ∧ ent ∈ t.2

/-- The tables are for interfaces of the network, when those of the mesh nodes are. -/
lemma exists_viaIfIp {N : Network} {xs : List ℕ} {meshTable : ℕ → List RtblEntry}
    {sts : List (ℕ × ℕ)} (hmesh : ∀ x ∈ xs, x ∈ N.meshNodes) (hsta : ∀ st ∈ sts, st.1 ∈ N.staNodes)
    (hvia : ∀ x ∈ xs, ∀ ent ∈ meshTable x, ∃ d ∈ N.devices, d.node = .mesh x ∧ d.addr = ent.viaIfIp)
    {t : Device × List RtblEntry} (ht : t ∈ deviceTables xs meshTable sts) :
    t.1 ∈ N.devices ∧ ∀ ent ∈ t.2, ∃ d ∈ N.devices, d.node = t.1.node ∧ d.addr = ent.viaIfIp := by
  rcases mem_deviceTables.mp ht with rfl | ⟨x, hx, rfl⟩ | ⟨st, hst, rfl⟩ | ⟨st, hst, rfl⟩
  · have hdev := (backhaulP2p_mem N).1
    refine ⟨hdev, fun ent hent => ⟨_, hdev, rfl, ?_⟩⟩
    obtain rfl := List.mem_singleton.mp hent
    rfl
  · exact ⟨(mesh_device_mem (hmesh x hx)).1, hvia x hx⟩
  · obtain ⟨hdev, hwire, -⟩ := sta_device_mem (hsta st hst)
    refine ⟨hdev, fun ent hent => ?_⟩
    rcases List.mem_cons.mp hent with rfl | hent
    · exact ⟨_, hdev, rfl, rfl⟩
    · obtain rfl := List.mem_singleton.mp hent
      exact ⟨_, hwire, rfl, rfl⟩
  · have hdev := (sta_device_mem (hsta st hst)).2.2
    refine ⟨hdev, fun ent hent => ⟨_, hdev, rfl, ?_⟩⟩
    obtain rfl := List.mem_singleton.mp hent
    rfl

namespace Installed

variable {N : Network} {xs : List ℕ} {meshTable : ℕ → List RtblEntry} {sts : List (ℕ × ℕ)}
  {tables : Node → List RtblEntry}

/-- The routes on a node with given devices and a table. -/
lemma mem_iff (h : Installed N xs meshTable sts tables) (n : Node) (ds : List Device)
    (ent : RtblEntry) (hmem : ∀ d ∈ ds, d ∈ N.devices) (hnode : ∀ d, d.node = n ↔ d ∈ ds)
    {t : Device × List RtblEntry} (ht : t ∈ deviceTables xs meshTable sts) (htn : t.1.node = n)
    (honly : ∀ t' ∈ deviceTables xs meshTable sts, t'.1.node = n → t' = t) :
    ent ∈ tables n ↔ (∃ d ∈ ds, ent = connected d) ∨ ent ∈ t.2 := by
  rw [h.mem_tables, exists_connected_iff hmem hnode]
  refine or_congr_right ⟨?_, fun hent => ⟨t, ht, htn, hent⟩⟩
  rintro ⟨t', ht', hn, hent⟩
  rwa [← honly t' ht' hn]

/-- The routes on the backhaul. -/
lemma mem_backhaul (h : Installed N xs meshTable sts tables) {ent : RtblEntry} :
    ent ∈ tables .backhaul ↔ ent = connected .backhaulP2p ∨
      ent = defaultRoute (ipv4 10 1 1 1) (ipv4 10 1 1 2) := by
  have hiff := h.mem_iff .backhaul [.backhaulP2p] ent
    (by simpa using (backhaulP2p_mem N).1) (fun d => by cases d <;> simp [Device.node])
    (mem_deviceTables.mpr (Or.inl rfl)) rfl ?_
  · simpa [backhaulBlock] using hiff
  · intro t' ht' hn
    rcases mem_deviceTables.mp ht' with rfl | ⟨x, -, rfl⟩ | ⟨st, -, rfl⟩ | ⟨st, -, rfl⟩
    · rfl
    all_goals cases hn

/-- The routes on a mesh node. -/
lemma mem_mesh (h : Installed N xs meshTable sts tables) {x : ℕ} (hx : x ∈ xs) {ent : RtblEntry} :
    ent ∈ tables (.mesh x) ↔ (ent = connected (.mesh x) ∨ ent = connected (.ap x) ∨
      x = 1 ∧ ent = connected .meshP2p) ∨ ent ∈ meshTable x := by
  obtain ⟨hmesh, hap⟩ := mesh_device_mem (h.mesh_mem x hx)
  have hiff := h.mem_iff (.mesh x) ([.mesh x, .ap x] ++ if x = 1 then [.meshP2p] else []) ent ?_ ?_
    (mem_deviceTables.mpr (Or.inr (Or.inl ⟨x, hx, rfl⟩))) rfl ?_
  · rw [hiff]
    refine or_congr_left ?_
    split
    · next hone => simp [hone]
    · next hone => simp [hone]
  · have hp2p := (backhaulP2p_mem N).2
    split <;> simp [hmesh, hap, hp2p]
  · intro d
    split
    · next hone => cases d <;> simp [Device.node, hone, eq_comm]
    · next hone => cases d <;> simp [Device.node, hone, eq_comm]
  · intro t' ht' hn
    rcases mem_deviceTables.mp ht' with rfl | ⟨x', -, rfl⟩ | ⟨st, -, rfl⟩ | ⟨st, -, rfl⟩
    · cases hn
    · cases hn
      rfl
    all_goals cases hn

/-- The routes on a station. -/
lemma mem_sta (h : Installed N xs meshTable sts tables) {st : ℕ × ℕ} (hst : st ∈ sts)
    {ent : RtblEntry} : ent ∈ tables (.sta st.1) ↔
      (ent = connected (.sta st.1) ∨ ent = connected (.sta2w st.1)) ∨
        (ent = defaultRoute (ipv4 10 1 3 st.1) (ipv4 10 1 3 st.2) ∨
          ent = hostRoute (ipv4 10 1 4 (st.1 - 100)) (ipv4 10 1 4 st.1) 0) := by
  obtain ⟨hsta, hsta2w, -⟩ := sta_device_mem (h.sta_mem st hst)
  have hiff := h.mem_iff (.sta st.1) [.sta st.1, .sta2w st.1] ent
    (by simp [hsta, hsta2w]) (fun d => by cases d <;> simp [Device.node])
    (mem_deviceTables.mpr (Or.inr (Or.inr (Or.inl ⟨st, hst, rfl⟩)))) rfl ?_
  · simpa [staBlock] using hiff
  · intro t' ht' hn
    rcases mem_deviceTables.mp ht' with rfl | ⟨x', -, rfl⟩ | ⟨st', hst', rfl⟩ | ⟨st', -, rfl⟩
    · cases hn
    · cases hn
    · rw [h.eq_of_fst_eq st' hst' st hst (Node.sta.inj hn)]
    · cases hn

/-- The routes on a wired station. -/
lemma mem_wiredSta (h : Installed N xs meshTable sts tables) {st : ℕ × ℕ} (hst : st ∈ sts)
    {ent : RtblEntry} : ent ∈ tables (.wiredSta st.1) ↔ ent = connected (.wiredSta st.1) ∨
      ent = defaultRoute (ipv4 10 1 4 (st.1 - 100)) (ipv4 10 1 4 st.1) := by
  have hwired := (sta_device_mem (h.sta_mem st hst)).2.2
  have hiff := h.mem_iff (.wiredSta st.1) [.wiredSta st.1] ent
    (by simp [hwired]) (fun d => by cases d <;> simp [Device.node])
    (mem_deviceTables.mpr (Or.inr (Or.inr (Or.inr ⟨st, hst, rfl⟩)))) rfl ?_
  · simpa [wiredStaBlock] using hiff
  · intro t' ht' hn
    rcases mem_deviceTables.mp ht' with rfl | ⟨x', -, rfl⟩ | ⟨st', -, rfl⟩ | ⟨st', hst', rfl⟩
    · cases hn
    · cases hn
    · cases hn
    · rw [h.eq_of_fst_eq st' hst' st hst (Node.wiredSta.inj hn)]

/-! ### Where the ends of the network send packets -/

/-- The backhaul sends packets for other subnets to the first mesh node. -/
lemma leads_backhaul (h : Installed N xs meshTable sts tables) {c x : ℕ} (hc : c < 256)
    (hne : c ≠ 1) (hx : x < 256) :
    Leads (N.Hop sts tables (ipv4 10 1 c x)) .backhaul (.mesh 1) := by
  refine leads_of_best (backhaulP2p_mem N).1 (backhaulP2p_mem N).2 rfl
    (h.mem_backhaul.mpr (Or.inr rfl)) (covers_defaultRoute _ _ _) fun ent hent hcovers _ => ?_
  rcases h.mem_backhaul.mp hent with rfl | rfl
  · exact absurd ((covers_connected hc hx (by decide) (by decide) rfl).mp hcovers) hne
  · exact ⟨rfl, nextHost_of_gateway (by decide) (by decide) rfl⟩

/-- A station sends packets for its wired station to it. -/
lemma leads_sta_wiredSta (h : Installed N xs meshTable sts tables) {st : ℕ × ℕ} (hst : st ∈ sts) :
    Leads (N.Hop sts tables (Device.wiredSta st.1).addr) (.sta st.1) (.wiredSta st.1) := by
  obtain ⟨-, hsta2w, hwired⟩ := sta_device_mem (h.sta_mem st hst)
  refine leads_of_best hsta2w hwired (by simp [linked]) ((h.mem_sta hst).mpr (Or.inr (Or.inr rfl)))
    (covers_hostRoute.mpr rfl) fun ent hent hcovers hlen => ?_
  rw [entryLength_hostRoute] at hlen
  rcases (h.mem_sta hst).mp hent with (rfl | rfl) | rfl | rfl
  · exact absurd hlen (not_le_connected _)
  · exact absurd hlen (not_le_connected _)
  · exact absurd hlen (not_le_defaultRoute (by decide) _ _)
  · exact ⟨rfl, if_pos rfl⟩

/-- A wired station sends packets for the backhaul to its station. -/
lemma leads_wiredSta (h : Installed N xs meshTable sts tables) {st : ℕ × ℕ} (hst : st ∈ sts) :
    Leads (N.Hop sts tables (ipv4 10 1 1 1)) (.wiredSta st.1) (.sta st.1) := by
  obtain ⟨-, hy⟩ := h.sta_range st hst
  obtain ⟨-, hsta2w, hwired⟩ := sta_device_mem (h.sta_mem st hst)
  refine leads_of_best hwired hsta2w (by simp [linked]) ((h.mem_wiredSta hst).mpr (Or.inr rfl))
    (covers_defaultRoute _ _ _) fun ent hent hcovers _ => ?_
  rcases (h.mem_wiredSta hst).mp hent with rfl | rfl
  · rw [covers_connected (by decide) (by decide) (by decide) (by omega) rfl] at hcovers
    omega
  · exact ⟨rfl, nextHost_of_gateway (by decide) hy rfl⟩

/-- A station sends packets for the backhaul to its mesh node. -/
lemma leads_sta_mesh (h : Installed N xs meshTable sts tables) {st : ℕ × ℕ} (hst : st ∈ sts) :
    Leads (N.Hop sts tables (ipv4 10 1 1 1)) (.sta st.1) (.mesh st.2) := by
  obtain ⟨-, hy⟩ := h.sta_range st hst
  have hx := h.mesh_lt st.2 (h.station_mesh st hst)
  refine leads_of_best (sta_device_mem (h.sta_mem st hst)).1
    (mesh_device_mem (h.mesh_mem st.2 (h.station_mesh st hst))).2 (by simpa [linked] using hst)
    ((h.mem_sta hst).mpr (Or.inr (Or.inl rfl))) (covers_defaultRoute _ _ _)
    fun ent hent hcovers _ => ?_
  rcases (h.mem_sta hst).mp hent with (rfl | rfl) | rfl | rfl
  · rw [covers_connected (by decide) (by decide) (by decide) hy rfl] at hcovers
    omega
  · rw [covers_connected (by decide) (by decide) (by decide) hy rfl] at hcovers
    omega
  · exact ⟨rfl, nextHost_of_gateway (by decide) hx rfl⟩
  · have hinj := ipv4_inj (by decide) (by decide) (by decide) (by omega)
      (covers_hostRoute.mp hcovers)
    omega

/-! ### Who has which address -/

/-- Only the backhaul has its address. -/
lemma owns_backhaul (N : Network) (n : Node) : N.Owns (ipv4 10 1 1 1) n ↔ n = .backhaul :=
  owns_addr_iff (backhaulP2p_mem N).1

/-- Only a mesh node has its address. -/
lemma owns_mesh (h : Installed N xs meshTable sts tables) {x : ℕ} (hx : x ∈ xs) (n : Node) :
    N.Owns (ipv4 10 1 2 x) n ↔ n = .mesh x :=
  owns_addr_iff (mesh_device_mem (h.mesh_mem x hx)).1

/-- The addresses of a station and its wired station are on these nodes. -/
lemma owns_stationAddrs (h : Installed N xs meshTable sts tables) {st : ℕ × ℕ} (hst : st ∈ sts)
    {dest : Ipv4Addr} (hdest : dest ∈ stationAddrs st.1) {n : Node} (hn : N.Owns dest n) :
    n = .sta st.1 ∨ n = .wiredSta st.1 := by
  obtain ⟨hsta, hsta2w, hwired⟩ := sta_device_mem (h.sta_mem st hst)
  simp only [stationAddrs, List.mem_cons, List.not_mem_nil, or_false] at hdest
  rcases hdest with rfl | rfl | rfl
  · exact Or.inl ((owns_addr_iff hsta).mp hn)
  · exact Or.inl ((owns_addr_iff hsta2w).mp hn)
  · exact Or.inr ((owns_addr_iff hwired).mp hn)

/-- From a station to one of its addresses or to its wired station. -/
lemma routes_from_sta (h : Installed N xs meshTable sts tables) {st : ℕ × ℕ} (hst : st ∈ sts)
    {dest : Ipv4Addr} (hdest : dest ∈ stationAddrs st.1) :
    ∃ route, Routes (N.Owns dest) (N.Hop sts tables dest) (.sta st.1) route ∧
      (route = [.sta st.1] ∨ route = [.sta st.1, .wiredSta st.1]) := by
  obtain ⟨hsta, hsta2w, hwired⟩ := sta_device_mem (h.sta_mem st hst)
  simp only [stationAddrs, List.mem_cons, List.not_mem_nil, or_false] at hdest
  rcases hdest with rfl | rfl | rfl
  · exact ⟨_, .accept ((owns_addr_iff hsta).mpr rfl), Or.inl rfl⟩
  · exact ⟨_, .accept ((owns_addr_iff hsta2w).mpr rfl), Or.inl rfl⟩
  · have hown : ¬ N.Owns (Device.wiredSta st.1).addr (.sta st.1) := by
      rw [owns_addr_iff hwired]
      exact fun heq => by cases heq
    refine ⟨_, .forward hown (h.leads_sta_wiredSta hst) (.accept ?_), Or.inr rfl⟩
    exact (owns_addr_iff hwired).mpr rfl

end Installed

end Network

end MeshSim
