import MeshSim.Foundation.Forwarding
import MeshSim.Routing.GenRoutingTables

/-!
# The network and its routing tables

`sim/mesh_sim.cc`: the nodes of the simulation with their network interfaces, and the routing tables
that `CreateInterfaces` installs on the nodes.

The nodes are named by the last number of their addresses.  A network here has any mesh nodes and
stations, as long as no address is assigned twice.  Which access point a station is associated with
is not decided by the addresses, and so it is a parameter of the links.

Packets are forwarded by longest prefix match on the installed entries and the connected subnets.
Where several entries match equally well, any of them may be taken.  An entry whose next host is not
linked to the interface drops the packet.
-/

namespace MeshSim

open Forwarding GenRoutingTables

/-! ### Nodes and interfaces -/

/-- A node. -/
inductive Node where
  /-- `backhaulNodes`: the backhaul. -/
  | backhaul
  /-- `meshNodes`: a mesh node. -/
  | mesh (x : ℕ)
  /-- `staNodes`: a station. -/
  | sta (y : ℕ)
  /-- `wiredStaNodes`: a wired station. -/
  | wiredSta (y : ℕ)
deriving DecidableEq, Repr

/-- A network device. -/
inductive Device where
  /-- The first one of `backhaulP2pDevices`, on the backhaul. -/
  | backhaulP2p
  /-- The second one of `backhaulP2pDevices`, on the first mesh node. -/
  | meshP2p
  /-- `meshDevices`. -/
  | mesh (x : ℕ)
  /-- `apDevices`. -/
  | ap (x : ℕ)
  /-- `staDevices`. -/
  | sta (y : ℕ)
  /-- `sta2wDevices`. -/
  | sta2w (y : ℕ)
  /-- `wiredStaDevices`. -/
  | wiredSta (y : ℕ)
deriving DecidableEq, Repr

/-- The node that a device is on. -/
def Device.node : Device → Node
  | .backhaulP2p => .backhaul
  | .meshP2p => .mesh 1
  | .mesh x => .mesh x
  | .ap x => .mesh x
  | .sta y => .sta y
  | .sta2w y => .sta y
  | .wiredSta y => .wiredSta y

/-- The address of a device. -/
def Device.addr : Device → Ipv4Addr
  | .backhaulP2p => ipv4 10 1 1 1
  | .meshP2p => ipv4 10 1 1 2
  | .mesh x => ipv4 10 1 2 x
  | .ap x => ipv4 10 1 3 x
  | .sta y => ipv4 10 1 3 y
  | .sta2w y => ipv4 10 1 4 y
  | .wiredSta y => ipv4 10 1 4 (y - 100)

/-- The devices, in the order in which they get their addresses. -/
def networkDevices (meshNodes staNodes : List ℕ) : List Device :=
  .backhaulP2p :: .meshP2p :: (meshNodes.map .mesh ++ meshNodes.map .ap ++ staNodes.map .sta ++
    staNodes.map .sta2w ++ staNodes.map .wiredSta)

/-- A network: its mesh nodes and stations, all with addresses of their own. -/
structure Network where
  /-- The mesh nodes. -/
  meshNodes : List ℕ
  /-- The stations. -/
  staNodes : List ℕ
  /-- No address is assigned twice. -/
  nodup : ((networkDevices meshNodes staNodes).map Device.addr).Nodup

namespace Network

variable (N : Network)

/-- The devices of the network. -/
def devices : List Device := networkDevices N.meshNodes N.staNodes

/-- `addr2netdev`. -/
def addr2netdev (addr : Ipv4Addr) : Option Device := N.devices.find? fun d => d.addr = addr

/-- The route to the subnet of a device. -/
def connected (d : Device) : RtblEntry := ⟨d.addr, netmask 24, d.addr, 0, 0⟩

/-- Adding one table to the routes of the node with its address.  The address, and the interfaces of
the entries, have to be there. -/
def installTable (a : Sigma fun _ : Ipv4Addr => List RtblEntry) :
    Option (Node × List RtblEntry) := do
  let dev ← N.addr2netdev a.1
  if a.2.all fun ent => N.devices.any fun d => d.node = dev.node && d.addr = ent.viaIfIp then
    some (dev.node, a.2)
  else none

/-- `CreateInterfaces`: the routes on the nodes. -/
def createInterfaces (routing : RoutingConfig) : Option (Node → List RtblEntry) := do
  let tables ← routing.tables.entries.mapM N.installTable
  return fun n => (N.devices.filter fun d => d.node = n).map connected ++
    tables.flatMap fun table => if table.1 = n then table.2 else []

/-! ### Forwarding -/

/-- An entry matches an address. -/
def covers (dest : Ipv4Addr) (ent : RtblEntry) : Bool :=
  dest &&& ent.targetMask = ent.target &&& ent.targetMask

/-- The length of the prefix of an entry. -/
def entryLength (ent : RtblEntry) : ℕ := prefixLength ent.targetMask

/-- The address of the next host. -/
def nextHost (dest : Ipv4Addr) (ent : RtblEntry) : Ipv4Addr :=
  if ent.gateway = 0 then dest else ent.gateway

/-- Two devices are linked.  A station is linked to the access point it is associated with. -/
def linked (assoc : List (ℕ × ℕ)) : Device → Device → Bool
  | .backhaulP2p, .meshP2p => true
  | .meshP2p, .backhaulP2p => true
  | .mesh _, .mesh _ => true
  | .ap x, .sta y => (y, x) ∈ assoc
  | .sta y, .ap x => (y, x) ∈ assoc
  | .sta2w y, .wiredSta y' => y = y'
  | .wiredSta y, .sta2w y' => y = y'
  | _, _ => false

/-- A node has an address. -/
def Owns (dest : Ipv4Addr) (n : Node) : Prop := ∃ d ∈ N.devices, d.node = n ∧ d.addr = dest

/-- The node that an entry of a node leads to.  When the next host is not linked to the interface,
the packet is dropped. -/
def neighbour (assoc : List (ℕ × ℕ)) (dest : Ipv4Addr) (n : Node) (ent : RtblEntry) :
    Option Node := do
  let d ← N.addr2netdev ent.viaIfIp
  let d' ← N.addr2netdev (nextHost dest ent)
  if d.node = n ∧ linked assoc d d' then some d'.node else none

/-- What a node may do with a packet: any of the best entries may be taken. -/
def Hop (assoc : List (ℕ × ℕ)) (tables : Node → List RtblEntry) (dest : Ipv4Addr) (n : Node)
    (next : Option Node) : Prop :=
  ∃ ent ∈ best (covers dest) entryLength (tables n), N.neighbour assoc dest n ent = next

/-! ### Addresses -/

/-- Different numbers make different addresses. -/
lemma ipv4_inj {c d c' d' : ℕ} (hc : c < 256) (hd : d < 256) (hc' : c' < 256) (hd' : d' < 256)
    (h : ipv4 10 1 c d = ipv4 10 1 c' d') : c = c' ∧ d = d' := by
  have hnat := congrArg BitVec.toNat h
  rw [toNat_ipv4 (by decide) (by decide) hc hd, toNat_ipv4 (by decide) (by decide) hc' hd'] at hnat
  omega

/-- The netmasks are masks of prefixes. -/
lemma netmask_eq : ∀ e ≤ 32, netmask e = prefixMask 32 e := by decide

/-- The length of a netmask. -/
lemma prefixLength_netmask {e : ℕ} (he : e ≤ 32) : prefixLength (netmask e) = e := by
  rw [netmask_eq e he, prefixLength_prefixMask he]

/-- Two addresses are in the same subnet. -/
lemma covers_subnet {c d c' d' : ℕ} (hc : c < 256) (hd : d < 256) (hc' : c' < 256)
    (hd' : d' < 256) :
    ipv4 10 1 c d &&& netmask 24 = ipv4 10 1 c' d' &&& netmask 24 ↔ c = c' := by
  rw [netmask_eq 24 (by decide), and_prefixMask_eq_iff,
    toNat_ipv4 (by decide) (by decide) hc hd, toNat_ipv4 (by decide) (by decide) hc' hd']
  omega

/-! ### Devices and tables -/

variable {N}

/-- A device is known by its address. -/
lemma eq_of_addr_eq {d d' : Device} (hd : d ∈ N.devices) (hd' : d' ∈ N.devices)
    (h : d.addr = d'.addr) : d = d' :=
  List.inj_on_of_nodup_map N.nodup hd hd' h

/-- The device with an address. -/
lemma addr2netdev_addr {d : Device} (hd : d ∈ N.devices) : N.addr2netdev d.addr = some d := by
  cases hfind : N.addr2netdev d.addr with
  | none =>
    have hnone := List.find?_eq_none.mp hfind d hd
    simp at hnone
  | some d' =>
    have haddr : d'.addr = d.addr := by simpa using List.find?_some hfind
    rw [eq_of_addr_eq (List.mem_of_find?_eq_some hfind) hd haddr]

/-- A node that has the address of a device is the one with the device. -/
lemma owns_addr_iff {d : Device} (hd : d ∈ N.devices) {n : Node} :
    N.Owns d.addr n ↔ n = d.node := by
  constructor
  · rintro ⟨d', hd', rfl, haddr⟩
    rw [eq_of_addr_eq hd' hd haddr]
  · rintro rfl
    exact ⟨d, hd, rfl, rfl⟩

/-- The tables are given by the devices with their addresses, with entries for interfaces of the
same node. -/
def TablesOf (N : Network) (routing : RoutingConfig)
    (deviceTables : List (Device × List RtblEntry)) : Prop :=
  (∀ addr, routing.table addr = entriesFor (deviceTables.map fun t => (t.1.addr, t.2)) addr) ∧
    ∀ t ∈ deviceTables, t.1 ∈ N.devices ∧
      ∀ ent ∈ t.2, ∃ d ∈ N.devices, d.node = t.1.node ∧ d.addr = ent.viaIfIp

/-- The entries in the table for a device. -/
lemma TablesOf.mem_table_iff {routing : RoutingConfig}
    {deviceTables : List (Device × List RtblEntry)} (h : TablesOf N routing deviceTables)
    {d : Device} (hd : d ∈ N.devices) {ent : RtblEntry} :
    ent ∈ routing.table d.addr ↔ ∃ t ∈ deviceTables, t.1 = d ∧ ent ∈ t.2 := by
  rw [h.1, mem_entriesFor]
  constructor
  · rintro ⟨block, hblock, haddr, hent⟩
    obtain ⟨t, ht, rfl⟩ := List.mem_map.mp hblock
    exact ⟨t, ht, eq_of_addr_eq (h.2 t ht).1 hd haddr, hent⟩
  · rintro ⟨t, ht, rfl, hent⟩
    exact ⟨_, List.mem_map_of_mem ht, rfl, hent⟩

/-- A table of the configuration. -/
lemma table_eq_of_mem {routing : RoutingConfig} {a : Sigma fun _ : Ipv4Addr => List RtblEntry}
    (ha : a ∈ routing.tables.entries) : routing.table a.1 = a.2 := by
  have hlookup : routing.tables.lookup a.1 = some a.2 := AList.mem_lookup_iff.mpr ha
  rw [RoutingConfig.table, hlookup]
  rfl

/-- A table is installed on the node of its device. -/
lemma TablesOf.installTable {routing : RoutingConfig}
    {deviceTables : List (Device × List RtblEntry)} (h : TablesOf N routing deviceTables)
    (hnoEmpty : NoEmptyTable routing) {a : Sigma fun _ : Ipv4Addr => List RtblEntry}
    (ha : a ∈ routing.tables.entries) :
    ∃ d ∈ N.devices, d.addr = a.1 ∧ N.installTable a = some (d.node, a.2) := by
  have htable := table_eq_of_mem ha
  have hkey : a.1 ∈ routing.tables := AList.mem_keys.mp (List.mem_keys_of_mem ha)
  obtain ⟨ent, hent⟩ := List.exists_mem_of_ne_nil _ (hnoEmpty a.1 hkey)
  rw [h.1, mem_entriesFor] at hent
  obtain ⟨block, hblock, haddr, -⟩ := hent
  obtain ⟨t, ht, rfl⟩ := List.mem_map.mp hblock
  obtain ⟨hd, -⟩ := h.2 t ht
  have haddr : t.1.addr = a.1 := haddr
  have hfind : N.addr2netdev a.1 = some t.1 := by rw [← haddr, addr2netdev_addr hd]
  have hinterfaces : ∀ ent ∈ a.2, ∃ d ∈ N.devices, d.node = t.1.node ∧ d.addr = ent.viaIfIp := by
    intro ent hent
    rw [← htable, ← haddr, h.mem_table_iff hd] at hent
    obtain ⟨t', ht', heq, hent⟩ := hent
    rw [← heq]
    exact (h.2 t' ht').2 ent hent
  refine ⟨t.1, hd, haddr, ?_⟩
  rw [Network.installTable, hfind, Option.bind_eq_bind, Option.bind_some, if_pos]
  simpa using hinterfaces

/-- **Installing the tables** succeeds, and a node has the routes to its subnets and the entries in
the tables of its devices. -/
theorem TablesOf.createInterfaces {routing : RoutingConfig}
    {deviceTables : List (Device × List RtblEntry)} (h : TablesOf N routing deviceTables)
    (hnoEmpty : NoEmptyTable routing) :
    ∃ tables, N.createInterfaces routing = some tables ∧ ∀ n ent, ent ∈ tables n ↔
      (∃ d ∈ N.devices, d.node = n ∧ ent = connected d) ∨
        ∃ t ∈ deviceTables, t.1.node = n ∧ ent ∈ t.2 := by
  have hinstall := fun a ha => h.installTable hnoEmpty (a := a) ha
  have hne : Nonempty Device := ⟨.backhaulP2p⟩
  choose! dev hdev haddr hsome using hinstall
  have hcreate : N.createInterfaces routing = some fun n =>
      (N.devices.filter fun d => d.node = n).map connected ++
        (routing.tables.entries.map fun a => ((dev a).node, a.2)).flatMap fun table =>
          if table.1 = n then table.2 else [] := by
    rw [Network.createInterfaces, mapM_of_forall hsome]
    rfl
  refine ⟨_, hcreate, fun n ent => ?_⟩
  rw [List.mem_append, List.mem_map, List.mem_flatMap]
  refine or_congr ⟨?_, ?_⟩ ⟨?_, ?_⟩
  · rintro ⟨d, hd, rfl⟩
    obtain ⟨hd, hnode⟩ := List.mem_filter.mp hd
    exact ⟨d, hd, by simpa using hnode, rfl⟩
  · rintro ⟨d, hd, hnode, rfl⟩
    exact ⟨d, List.mem_filter.mpr ⟨hd, by simpa using hnode⟩, rfl⟩
  · rintro ⟨table, htable, hent⟩
    obtain ⟨a, ha, rfl⟩ := List.mem_map.mp htable
    split at hent
    · next hnode =>
      rw [← table_eq_of_mem ha, ← haddr a ha, h.mem_table_iff (hdev a ha)] at hent
      obtain ⟨t, ht, heq, hent⟩ := hent
      exact ⟨t, ht, heq ▸ hnode, hent⟩
    · cases hent
  · rintro ⟨t, ht, hnode, hent⟩
    have hd := (h.2 t ht).1
    have htable := (h.mem_table_iff hd).mpr ⟨t, ht, rfl, hent⟩
    cases hlookup : routing.tables.lookup t.1.addr with
    | none =>
      rw [RoutingConfig.table, hlookup] at htable
      cases htable
    | some ents =>
      rw [RoutingConfig.table, hlookup] at htable
      have ha : ⟨t.1.addr, ents⟩ ∈ routing.tables.entries := AList.mem_lookup_iff.mp hlookup
      refine ⟨_, List.mem_map_of_mem ha, ?_⟩
      rw [eq_of_addr_eq (hdev _ ha) hd (haddr _ ha), if_pos hnode]
      exact htable

end Network

end MeshSim
