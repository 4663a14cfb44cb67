import MeshSim.Routing.ChainTables
import MeshSim.Routing.DeviceTables
import MeshSim.Routing.SimNetwork

/-!
# Routes along the chain

The tables of the chain simulations, installed on the network of such a simulation: which way
packets take between the backhaul, the mesh nodes and the wired stations, when all stations are
associated with the last mesh node.

`Chained` collects what is known about the network.  For the mesh nodes there are lemmas on where
they send which packets; the routes are put together from these with `Routes.ascend` and
`Routes.descend`.  Where a connected subnet matches a packet it is preferred to the default route,
so that the tables do not reach the access points behind the first one and the wireless side of the
stations (`reached_from_backhaul_iff`).
-/

namespace MeshSim

open Forwarding GenRoutingTables ChainTables

namespace Network

/-- The stations, all associated with the last mesh node. -/
def lastMeshNode (meshSize staSize : ℕ) : List (ℕ × ℕ) :=
  (List.range' 1 staSize).map fun k => (100 + k, meshSize)

/-- A number from 1 on. -/
lemma mem_range_one {n k : ℕ} : k ∈ List.range' 1 n ↔ 1 ≤ k ∧ k ≤ n := by
  rw [List.mem_range'_1]
  omega

/-- Every station is associated with the last mesh node. -/
lemma mem_lastMeshNode {meshSize staSize : ℕ} {st : ℕ × ℕ} :
    st ∈ lastMeshNode meshSize staSize ↔ ∃ k, (1 ≤ k ∧ k ≤ staSize) ∧ st = (100 + k, meshSize) := by
  simp only [lastMeshNode, List.mem_map, mem_range_one, eq_comm]

/-- A station is one of those. -/
lemma station_mem (meshSize : ℕ) {staSize k : ℕ} (hk : 1 ≤ k) (hle : k ≤ staSize) :
    (100 + k, meshSize) ∈ lastMeshNode meshSize staSize :=
  mem_lastMeshNode.mpr ⟨k, ⟨hk, hle⟩, rfl⟩

/-- The nodes of a chain. -/
structure ChainNodes (N : Network) (meshSize staSize : ℕ) : Prop where
  /-- There is a mesh node. -/
  pos : 1 ≤ meshSize
  /-- There are few mesh nodes. -/
  mesh_le : meshSize ≤ 100
  /-- There are few stations. -/
  sta_le : staSize ≤ 100
  /-- The mesh nodes of the network. -/
  mesh_mem_iff : ∀ x, x ∈ N.meshNodes ↔ 1 ≤ x ∧ x ≤ meshSize
  /-- The stations of the network. -/
  sta_mem_iff : ∀ y, y ∈ N.staNodes ↔ 101 ≤ y ∧ y ≤ 100 + staSize

/-- The table of a mesh node. -/
def rowTable (meshSize staSize i : ℕ) : List RtblEntry :=
  if i < meshSize then meshTable i else lastHopTable meshSize staSize

/-- The tables of a chain, installed on the network with its nodes. -/
structure Chained (N : Network) (meshSize staSize : ℕ) (tables : Node → List RtblEntry) : Prop
    extends ChainNodes N meshSize staSize,
      Installed N (List.range' 1 meshSize) (rowTable meshSize staSize)
        (lastMeshNode meshSize staSize) tables

/-- The mesh nodes in a row. -/
def meshRow (meshSize : ℕ) : List Node := (List.range' 1 meshSize).map .mesh

/-- A packet takes a way from a node, whatever is chosen where several routes match equally well. -/
abbrev Takes (N : Network) (meshSize staSize : ℕ) (tables : Node → List RtblEntry)
    (dest : Ipv4Addr) : Node → List Node → Prop :=
  Routes (N.Owns dest) (N.Hop (lastMeshNode meshSize staSize) tables dest)

/-- A packet may take a way from a node. -/
abbrev MayTake (N : Network) (meshSize staSize : ℕ) (tables : Node → List RtblEntry)
    (dest : Ipv4Addr) : Node → List Node → Prop :=
  Run (N.Owns dest) (N.Hop (lastMeshNode meshSize staSize) tables dest)

/-- The row ends with the last mesh node. -/
lemma meshRow_eq {meshSize : ℕ} (hpos : 1 ≤ meshSize) :
    meshRow meshSize = (List.range' 1 (meshSize - 1)).map .mesh ++ [.mesh meshSize] := by
  obtain ⟨m, rfl⟩ := Nat.exists_eq_add_of_le hpos
  rw [meshRow, Nat.add_comm, List.range'_concat, List.map_append]
  simp [Nat.add_comm]

/-- Backwards the row ends with the first mesh node. -/
lemma reverse_meshRow {meshSize : ℕ} (hpos : 1 ≤ meshSize) :
    (meshRow meshSize).reverse =
      ((List.range' 2 (meshSize - 1)).map Node.mesh).reverse ++ [.mesh 1] := by
  obtain ⟨m, rfl⟩ := Nat.exists_eq_add_of_le hpos
  rw [meshRow, Nat.add_comm, List.range'_succ, List.map_cons, List.reverse_cons]
  simp

/-! ### Devices -/

/-- The devices of a mesh node. -/
lemma ChainNodes.mesh_device_mem {N : Network} {meshSize staSize : ℕ}
    (h : ChainNodes N meshSize staSize) {i : ℕ} (hi : 1 ≤ i)
    (hle : i ≤ meshSize) : Device.mesh i ∈ N.devices ∧ Device.ap i ∈ N.devices :=
  Network.mesh_device_mem ((h.mesh_mem_iff i).mpr ⟨hi, hle⟩)

/-- The devices of a station and its wired station. -/
lemma ChainNodes.sta_device_mem {N : Network} {meshSize staSize : ℕ}
    (h : ChainNodes N meshSize staSize) {k : ℕ} (hk : 1 ≤ k) (hle : k ≤ staSize) :
    Device.sta (100 + k) ∈ N.devices ∧ Device.sta2w (100 + k) ∈ N.devices ∧
      Device.wiredSta (100 + k) ∈ N.devices :=
  Network.sta_device_mem ((h.sta_mem_iff (100 + k)).mpr ⟨by omega, by omega⟩)

namespace Chained

variable {N : Network} {meshSize staSize : ℕ} {tables : Node → List RtblEntry}

/-! ### The routes on a node -/

/-- **The tables of the chain** are those of its devices. -/
lemma mem_chainTables (hpos : 1 ≤ meshSize) {t : Device × List RtblEntry} :
    t ∈ chainTables meshSize staSize ↔ t ∈ deviceTables (List.range' 1 meshSize)
      (rowTable meshSize staSize) (lastMeshNode meshSize staSize) := by
  have hsta : ∀ k, (staBlock (100 + k, meshSize)).2 = staTable meshSize k := by
    intro k
    rw [staBlock, staTable, Nat.add_sub_cancel_left]
  have hwired : ∀ k, (wiredStaBlock (100 + k, meshSize)).2 = wiredStaTable k := by
    intro k
    rw [wiredStaBlock, wiredStaTable, Nat.add_sub_cancel_left]
  have hstations : ∀ f : ℕ × ℕ → Device × List RtblEntry,
      (∃ st ∈ lastMeshNode meshSize staSize, t = f st) ↔
        ∃ k ∈ List.range' 1 staSize, f (100 + k, meshSize) = t := by
    intro f
    constructor
    · rintro ⟨st, hst, rfl⟩
      obtain ⟨k, hk, rfl⟩ := mem_lastMeshNode.mp hst
      exact ⟨k, mem_range_one.mpr hk, rfl⟩
    · rintro ⟨k, hk, rfl⟩
      exact ⟨_, mem_lastMeshNode.mpr ⟨k, mem_range_one.mp hk, rfl⟩, rfl⟩
  have hrow : (∃ x ∈ List.range' 1 meshSize, t = (Device.mesh x, rowTable meshSize staSize x)) ↔
      (∃ i ∈ List.range' 1 (meshSize - 1), (Device.mesh i, meshTable i) = t) ∨
        t = (Device.mesh meshSize, lastHopTable meshSize staSize) := by
    simp only [mem_range_one]
    constructor
    · rintro ⟨x, ⟨hx, hle⟩, rfl⟩
      rcases hle.lt_or_eq with hlt | rfl
      · exact Or.inl ⟨x, ⟨hx, by omega⟩, by rw [rowTable, if_pos hlt]⟩
      · exact Or.inr (by rw [rowTable, if_neg (lt_irrefl x)])
    · rintro (⟨i, ⟨hi, hle⟩, rfl⟩ | rfl)
      · exact ⟨i, ⟨hi, by omega⟩, by rw [rowTable, if_pos (by omega)]⟩
      · exact ⟨meshSize, ⟨hpos, le_rfl⟩, by rw [rowTable, if_neg (lt_irrefl _)]⟩
  rw [mem_deviceTables, hstations fun st => (Device.sta st.1, (staBlock st).2),
    hstations fun st => (Device.wiredSta st.1, (wiredStaBlock st).2), hrow]
  simp only [hsta, hwired, chainTables, backhaulBlock, List.mem_cons, List.mem_append,
    List.mem_map, List.not_mem_nil, or_false]
  exact or_congr_right (or_assoc.trans or_comm)

/-- The routes on a mesh node. -/
lemma mem_row (h : Chained N meshSize staSize tables) {i : ℕ} (hi : 1 ≤ i) (hle : i ≤ meshSize)
    {ent : RtblEntry} : ent ∈ tables (.mesh i) ↔
      (ent = connected (.mesh i) ∨ ent = connected (.ap i) ∨ i = 1 ∧ ent = connected .meshP2p) ∨
        (i < meshSize ∧ ent ∈ meshTable i ∨
          i = meshSize ∧ ent ∈ lastHopTable meshSize staSize) := by
  rw [h.mem_mesh (mem_range_one.mpr ⟨hi, hle⟩), rowTable]
  refine or_congr_right ?_
  split
  · next hlt => simp [hlt, hlt.ne]
  · next hge => simp [show i = meshSize by omega]

/-! ### Hops -/

/-- A host route that matches an address. -/
lemma eq_of_covers {c x c' x' : ℕ} (hc : c < 256) (hx : x < 256) (hc' : c' < 256) (hx' : x' < 256)
    {via gateway : Ipv4Addr}
    (h : covers (ipv4 10 1 c x) (hostRoute (ipv4 10 1 c' x') via gateway) = true) :
    c = c' ∧ x = x' :=
  ipv4_inj hc hx hc' hx' (covers_hostRoute.mp h)

/-- The entries for the first mesh nodes. -/
lemma mem_meshTable {i : ℕ} {ent : RtblEntry} (hent : ent ∈ meshTable i) :
    ent = defaultRoute (ipv4 10 1 2 i) (ipv4 10 1 2 (i + 1)) ∨
      (1 < i ∧ (ent = hostRoute (ipv4 10 1 1 1) (ipv4 10 1 2 i) (ipv4 10 1 2 (i - 1)) ∨
        ∃ c j, (c = 2 ∨ c = 3) ∧ (1 ≤ j ∧ j < i) ∧
          ent = hostRoute (ipv4 10 1 c j) (ipv4 10 1 2 i) (ipv4 10 1 2 (i - 1)))) ∨
      i ≤ 1 ∧ ent = hostRoute (ipv4 10 1 1 1) (ipv4 10 1 1 2) (ipv4 10 1 1 1) := by
  rcases List.mem_cons.mp hent with rfl | hent
  · exact Or.inl rfl
  rw [closerTable] at hent
  split at hent
  · next hi =>
    refine Or.inr (Or.inl ⟨hi, ?_⟩)
    rcases List.mem_cons.mp hent with rfl | hent
    · exact Or.inl rfl
    obtain ⟨j, hj, hent⟩ := List.mem_flatMap.mp hent
    have hj' := List.mem_range'_1.mp hj
    simp only [List.mem_cons, List.not_mem_nil, or_false] at hent
    rcases hent with rfl | rfl
    · exact Or.inr ⟨2, j, Or.inl rfl, by omega, rfl⟩
    · exact Or.inr ⟨3, j, Or.inr rfl, by omega, rfl⟩
  · next hi => exact Or.inr (Or.inr ⟨by omega, List.mem_singleton.mp hent⟩)

/-- The host routes of a mesh node towards the mesh nodes in front of it. -/
lemma hostRoute_mem_meshTable {i c j : ℕ} (hc : c = 2 ∨ c = 3) (hj : 1 ≤ j) (hji : j < i) :
    hostRoute (ipv4 10 1 c j) (ipv4 10 1 2 i) (ipv4 10 1 2 (i - 1)) ∈ meshTable i := by
  refine List.mem_cons_of_mem _ ?_
  rw [closerTable, if_pos (by omega)]
  refine List.mem_cons_of_mem _ (List.mem_flatMap.mpr ⟨j, List.mem_range'_1.mpr (by omega), ?_⟩)
  rcases hc with rfl | rfl
  · exact List.mem_cons_self
  · exact List.mem_cons_of_mem _ List.mem_cons_self

/-- The addresses of a station and its wired station. -/
def addrsOf (k : ℕ) : List (ℕ × ℕ) := [(3, k + 100), (4, k + 100), (4, k)]

/-- The entries for the last mesh node. -/
lemma mem_lastHopTable {ent : RtblEntry} : ent ∈ lastHopTable meshSize staSize ↔
    ent = defaultRoute (ipv4 10 1 2 meshSize) (ipv4 10 1 2 (meshSize - 1)) ∨
      ∃ k, (1 ≤ k ∧ k ≤ staSize) ∧ ∃ a ∈ addrsOf k,
        ent = hostRoute (ipv4 10 1 a.1 a.2) (ipv4 10 1 3 meshSize) (ipv4 10 1 3 (k + 100)) := by
  simp only [lastHopTable, List.mem_cons, List.mem_flatMap, List.mem_map, mem_range_one, addrsOf,
    List.not_mem_nil, or_false, exists_eq_or_imp, exists_eq_left, eq_comm (a := ent)]

/-- The numbers of the addresses of a station. -/
lemma addrsOf_lt (h : Chained N meshSize staSize tables) {k : ℕ} (hle : k ≤ staSize) {a : ℕ × ℕ}
    (ha : a ∈ addrsOf k) : (a.1 = 3 ∨ a.1 = 4) ∧ a.2 < 256 := by
  have hsta := h.sta_le
  simp only [addrsOf, List.mem_cons, List.not_mem_nil, or_false] at ha
  rcases ha with rfl | rfl | rfl
  · exact ⟨Or.inl rfl, by dsimp only; omega⟩
  · exact ⟨Or.inr rfl, by dsimp only; omega⟩
  · exact ⟨Or.inr rfl, by dsimp only; omega⟩

/-- A station is known by its addresses. -/
lemma eq_of_mem_addrsOf (h : Chained N meshSize staSize tables) {k k' : ℕ} (hk : 1 ≤ k)
    (hle : k ≤ staSize) (hk' : 1 ≤ k') (hle' : k' ≤ staSize) {a : ℕ × ℕ} (ha : a ∈ addrsOf k)
    (ha' : a ∈ addrsOf k') : k = k' := by
  have hsta := h.sta_le
  simp only [addrsOf, List.mem_cons, List.not_mem_nil, or_false] at ha ha'
  rcases ha with rfl | rfl | rfl <;> rcases ha' with heq | heq | heq <;>
    simp only [Prod.mk.injEq] at heq <;> omega

/-- The routes of a mesh node that match the address `10.1.c.x`. -/
inductive Matching (meshSize staSize i c x : ℕ) : RtblEntry → Prop where
  /-- The subnet of the mesh nodes. -/
  | mesh (hc : c = 2) : Matching meshSize staSize i c x (connected (.mesh i))
  /-- The subnet of the access points. -/
  | ap (hc : c = 3) : Matching meshSize staSize i c x (connected (.ap i))
  /-- The subnet of the backhaul. -/
  | p2p (hc : c = 1) (hi : i = 1) : Matching meshSize staSize i c x (connected .meshP2p)
  /-- The default route away from the backhaul. -/
  | up (hi : i < meshSize) :
    Matching meshSize staSize i c x (defaultRoute (ipv4 10 1 2 i) (ipv4 10 1 2 (i + 1)))
  /-- The routes towards the backhaul. -/
  | down (hi : 1 < i) (hlt : i < meshSize)
    (hcx : c = 1 ∧ x = 1 ∨ (c = 2 ∨ c = 3) ∧ 1 ≤ x ∧ x < i) :
    Matching meshSize staSize i c x
      (hostRoute (ipv4 10 1 c x) (ipv4 10 1 2 i) (ipv4 10 1 2 (i - 1)))
  /-- The route of the first mesh node to the backhaul. -/
  | backhaul (hi : i = 1) (hlt : 1 < meshSize) (hcx : c = 1 ∧ x = 1) :
    Matching meshSize staSize i c x
      (hostRoute (ipv4 10 1 1 1) (ipv4 10 1 1 2) (ipv4 10 1 1 1))
  /-- The default route of the last mesh node. -/
  | back (hi : i = meshSize) :
    Matching meshSize staSize i c x (defaultRoute (ipv4 10 1 2 i) (ipv4 10 1 2 (i - 1)))
  /-- The routes to the stations. -/
  | station (hi : i = meshSize) (k : ℕ) (hk : 1 ≤ k) (hle : k ≤ staSize) (ha : (c, x) ∈ addrsOf k) :
    Matching meshSize staSize i c x
      (hostRoute (ipv4 10 1 c x) (ipv4 10 1 3 i) (ipv4 10 1 3 (k + 100)))

/-- **Which routes of a mesh node match** an address. -/
lemma matching (h : Chained N meshSize staSize tables) {i c x : ℕ} (hi : 1 ≤ i) (hle : i ≤ meshSize)
    (hc : c < 256) (hx : x < 256) {ent : RtblEntry} (hent : ent ∈ tables (.mesh i))
    (hcovers : covers (ipv4 10 1 c x) ent = true) : Matching meshSize staSize i c x ent := by
  have hmesh := h.mesh_le
  rcases (h.mem_row hi hle).mp hent with (rfl | rfl | ⟨rfl, rfl⟩) | ⟨hlt, hent⟩ | ⟨rfl, hent⟩
  · exact .mesh ((covers_connected hc hx (by decide) (by omega) rfl).mp hcovers)
  · exact .ap ((covers_connected hc hx (by decide) (by omega) rfl).mp hcovers)
  · exact .p2p ((covers_connected hc hx (by decide) (by decide) rfl).mp hcovers) rfl
  · rcases mem_meshTable hent with rfl | ⟨hone, rfl | ⟨c', j, hc', hj, rfl⟩⟩ | ⟨hone, rfl⟩
    · exact .up hlt
    · obtain ⟨rfl, rfl⟩ := eq_of_covers hc hx (by decide) (by decide) hcovers
      exact .down hone hlt (Or.inl ⟨rfl, rfl⟩)
    · obtain ⟨rfl, rfl⟩ := eq_of_covers hc hx (by omega) (by omega) hcovers
      exact .down hone hlt (Or.inr ⟨hc', hj⟩)
    · exact .backhaul (by omega) (by omega) (eq_of_covers hc hx (by decide) (by decide) hcovers)
  · rcases mem_lastHopTable.mp hent with rfl | ⟨k, ⟨hk, hk'⟩, a, ha, rfl⟩
    · exact .back rfl
    · obtain ⟨ha1, ha2⟩ := h.addrsOf_lt hk' ha
      obtain ⟨rfl, rfl⟩ := eq_of_covers hc hx (by omega) ha2 hcovers
      exact .station rfl k hk hk' ha

/-- A mesh node in front of the last one sends packets for the wires to the next one. -/
lemma leads_up (h : Chained N meshSize staSize tables) {i x : ℕ} (hi : 1 ≤ i) (hlt : i < meshSize)
    (hx : x < 256) :
    Leads (N.Hop (lastMeshNode meshSize staSize) tables (ipv4 10 1 4 x)) (.mesh i)
      (.mesh (i + 1)) := by
  have hmesh := h.mesh_le
  refine leads_of_best (h.mesh_device_mem hi hlt.le).1 (h.mesh_device_mem (by omega) hlt).1 rfl
    ((h.mem_row hi hlt.le).mpr (Or.inr (Or.inl ⟨hlt, List.mem_cons_self⟩)))
    (covers_defaultRoute _ _ _) fun ent hent hcovers _ => ?_
  cases h.matching hi hlt.le (by decide) hx hent hcovers with
  | up => exact ⟨rfl, nextHost_of_gateway (by decide) (by omega) rfl⟩
  | _ => omega

/-- The last mesh node sends packets for a station or its wired station to the station. -/
lemma leads_last (h : Chained N meshSize staSize tables) {k : ℕ} (hk : 1 ≤ k) (hle : k ≤ staSize)
    {c x : ℕ} (ha : (c, x) ∈ addrsOf k) :
    Leads (N.Hop (lastMeshNode meshSize staSize) tables (ipv4 10 1 c x)) (.mesh meshSize)
      (.sta (100 + k)) := by
  have hsta := h.sta_le
  obtain ⟨hc, hx⟩ := h.addrsOf_lt hle ha
  have hlinked : linked (lastMeshNode meshSize staSize) (.ap meshSize) (.sta (100 + k)) = true := by
    simpa [linked] using station_mem meshSize hk hle
  have hw : hostRoute (ipv4 10 1 c x) (ipv4 10 1 3 meshSize) (ipv4 10 1 3 (k + 100)) ∈
      lastHopTable meshSize staSize :=
    mem_lastHopTable.mpr (Or.inr ⟨k, ⟨hk, hle⟩, _, ha, rfl⟩)
  refine leads_of_best (h.mesh_device_mem h.pos le_rfl).2 (h.sta_device_mem hk hle).1 hlinked
    ((h.mem_row h.pos le_rfl).mpr (Or.inr (Or.inr ⟨rfl, hw⟩))) (covers_hostRoute.mpr rfl)
    fun ent hent hcovers hlen => ?_
  rw [entryLength_hostRoute] at hlen
  cases h.matching h.pos le_rfl (by omega) hx hent hcovers with
  | mesh => exact absurd hlen (not_le_connected _)
  | ap => exact absurd hlen (not_le_connected _)
  | p2p => exact absurd hlen (not_le_connected _)
  | back => exact absurd hlen (not_le_defaultRoute (by decide) _ _)
  | station _ k' hk' hle' ha' =>
    obtain rfl := h.eq_of_mem_addrsOf hk hle hk' hle' ha ha'
    refine ⟨rfl, ?_⟩
    rw [nextHost_of_gateway (by decide) (show k + 100 < 256 by omega) rfl, Nat.add_comm]
    rfl
  | _ => omega

/-- A mesh node between the first and the last one sends packets for the backhaul, and for the mesh
nodes and access points in front of it, to the mesh node in front of it. -/
lemma leads_down (h : Chained N meshSize staSize tables) {i c x : ℕ} (hi : 1 < i)
    (hlt : i < meshSize) (hcx : c = 1 ∧ x = 1 ∨ (c = 2 ∨ c = 3) ∧ 1 ≤ x ∧ x < i) :
    Leads (N.Hop (lastMeshNode meshSize staSize) tables (ipv4 10 1 c x)) (.mesh i)
      (.mesh (i - 1)) := by
  have hmesh := h.mesh_le
  have hw : hostRoute (ipv4 10 1 c x) (ipv4 10 1 2 i) (ipv4 10 1 2 (i - 1)) ∈ meshTable i := by
    rcases hcx with ⟨rfl, rfl⟩ | ⟨hc, hx⟩
    · rw [meshTable, closerTable, if_pos hi]
      exact List.mem_cons_of_mem _ List.mem_cons_self
    · exact hostRoute_mem_meshTable hc hx.1 hx.2
  refine leads_of_best (h.mesh_device_mem hi.le hlt.le).1
    (h.mesh_device_mem (i := i - 1) (by omega) (by omega)).1 rfl
    ((h.mem_row hi.le hlt.le).mpr (Or.inr (Or.inl ⟨hlt, hw⟩))) (covers_hostRoute.mpr rfl)
    fun ent hent hcovers hlen => ?_
  rw [entryLength_hostRoute] at hlen
  cases h.matching hi.le hlt.le (by omega) (by omega) hent hcovers with
  | mesh => exact absurd hlen (not_le_connected _)
  | ap => exact absurd hlen (not_le_connected _)
  | up => exact absurd hlen (not_le_defaultRoute (by decide) _ _)
  | down => exact ⟨rfl, nextHost_of_gateway (by decide) (by omega) rfl⟩
  | _ => omega

/-- The last mesh node sends packets for the backhaul to the mesh node in front of it. -/
lemma leads_back (h : Chained N meshSize staSize tables) (hlt : 1 < meshSize) :
    Leads (N.Hop (lastMeshNode meshSize staSize) tables (ipv4 10 1 1 1)) (.mesh meshSize)
      (.mesh (meshSize - 1)) := by
  have hmesh := h.mesh_le
  refine leads_of_best (h.mesh_device_mem h.pos le_rfl).1
    (h.mesh_device_mem (i := meshSize - 1) (by omega) (by omega)).1 rfl
    ((h.mem_row h.pos le_rfl).mpr (Or.inr (Or.inr ⟨rfl, List.mem_cons_self⟩)))
    (covers_defaultRoute _ _ _) fun ent hent hcovers _ => ?_
  cases h.matching h.pos le_rfl (by decide) (by decide) hent hcovers with
  | back => exact ⟨rfl, nextHost_of_gateway (by decide) (by omega) rfl⟩
  | station _ k hk hle ha =>
    have hsub := (h.addrsOf_lt hle ha).1
    omega
  | _ => omega

/-- The first mesh node sends packets for the backhaul to it. -/
lemma leads_mesh_backhaul (h : Chained N meshSize staSize tables) :
    Leads (N.Hop (lastMeshNode meshSize staSize) tables (ipv4 10 1 1 1)) (.mesh 1) .backhaul := by
  rcases h.pos.eq_or_lt with hone | hlt
  · -- the only mesh node has no route of its own to the backhaul, but the one to the subnet
    refine leads_of_best (backhaulP2p_mem N).2 (backhaulP2p_mem N).1 rfl
      ((h.mem_row le_rfl h.pos).mpr (Or.inl (Or.inr (Or.inr ⟨rfl, rfl⟩))))
      ((covers_connected (by decide) (by decide) (by decide) (by decide) rfl).mpr rfl)
      fun ent hent hcovers hlen => ?_
    rw [entryLength_connected] at hlen
    cases h.matching le_rfl h.pos (by decide) (by decide) hent hcovers with
    | p2p => exact ⟨rfl, if_pos rfl⟩
    | back => exact absurd hlen (not_le_defaultRoute (by decide) _ _)
    | station _ k hk hle ha =>
      have hsub := (h.addrsOf_lt hle ha).1
      omega
    | _ => omega
  · have hw : hostRoute (ipv4 10 1 1 1) (ipv4 10 1 1 2) (ipv4 10 1 1 1) ∈ meshTable 1 := by
      rw [meshTable, closerTable, if_neg (by decide)]
      exact List.mem_cons_of_mem _ List.mem_cons_self
    refine leads_of_best (backhaulP2p_mem N).2 (backhaulP2p_mem N).1 rfl
      ((h.mem_row le_rfl h.pos).mpr (Or.inr (Or.inl ⟨hlt, hw⟩))) (covers_hostRoute.mpr rfl)
      fun ent hent hcovers hlen => ?_
    rw [entryLength_hostRoute] at hlen
    cases h.matching le_rfl h.pos (by decide) (by decide) hent hcovers with
    | p2p => exact absurd hlen (not_le_connected _)
    | up => exact absurd hlen (not_le_defaultRoute (by decide) _ _)
    | backhaul => exact ⟨rfl, nextHost_of_gateway (by decide) (by decide) rfl⟩
    | _ => omega

/-- A mesh node sends packets for a mesh node behind it directly, and the last mesh node sends
packets for every other mesh node directly: the route to the subnet is longer than the default
route. -/
lemma leads_direct (h : Chained N meshSize staSize tables) {i j : ℕ} (hi : 1 ≤ i)
    (hle : i ≤ meshSize) (hj : 1 ≤ j) (hle' : j ≤ meshSize) (hij : i < j ∨ i = meshSize) :
    Leads (N.Hop (lastMeshNode meshSize staSize) tables (ipv4 10 1 2 j)) (.mesh i) (.mesh j) := by
  have hmesh := h.mesh_le
  refine leads_of_best (h.mesh_device_mem hi hle).1 (h.mesh_device_mem hj hle').1 rfl
    ((h.mem_row hi hle).mpr (Or.inl (Or.inl rfl)))
    ((covers_connected (by decide) (by omega) (by decide) (by omega) rfl).mpr rfl)
    fun ent hent hcovers hlen => ?_
  rw [entryLength_connected] at hlen
  cases h.matching hi hle (by decide) (by omega) hent hcovers with
  | mesh => exact ⟨rfl, if_pos rfl⟩
  | up => exact absurd hlen (not_le_defaultRoute (by decide) _ _)
  | back => exact absurd hlen (not_le_defaultRoute (by decide) _ _)
  | station _ k hk hle ha =>
    have hsub := (h.addrsOf_lt hle ha).1
    omega
  | _ => omega

/-- The first mesh node, when it is not the last one, drops packets to the other access points and
to the wireless side of the stations: they are in the subnet of its own access point, which has no
station. -/
lemma not_hop_first (h : Chained N meshSize staSize tables) (hlt : 1 < meshSize) {x : ℕ}
    (hx : x < 256) (n' : Node) :
    ¬ N.Hop (lastMeshNode meshSize staSize) tables (ipv4 10 1 3 x) (.mesh 1) (some n') := by
  rintro ⟨ent, hent, hneighbour⟩
  obtain ⟨hmem, hcovers, hmax⟩ := mem_best.mp hent
  have hap := (h.mesh_device_mem le_rfl h.pos).2
  have hlen := hmax (connected (.ap 1))
    ((h.mem_row le_rfl h.pos).mpr (Or.inl (Or.inr (Or.inl rfl))))
    ((covers_connected (by decide) hx (by decide) (by decide) rfl).mpr rfl)
  rw [entryLength_connected] at hlen
  cases h.matching le_rfl h.pos (by decide) hx hmem hcovers with
  | ap =>
    have hvia : (connected (.ap 1)).viaIfIp = (Device.ap 1).addr := rfl
    rw [neighbour, hvia, addr2netdev_addr hap, Option.bind_eq_bind, Option.bind_some] at hneighbour
    obtain ⟨d', -, hd'⟩ := Option.bind_eq_some_iff.mp hneighbour
    split at hd'
    · next hlinked =>
      cases d' with
      | sta y =>
        have hassoc : (y, 1) ∈ lastMeshNode meshSize staSize := by simpa [linked] using hlinked.2
        obtain ⟨k, -, heq⟩ := mem_lastMeshNode.mp hassoc
        have hone : 1 = meshSize := congrArg Prod.snd heq
        omega
      | _ => cases hlinked.2
    · cases hd'
  | up => exact absurd hlen (not_le_defaultRoute (by decide) _ _)
  | _ => omega

/-! ### Routes -/

/-- The addresses on the wire of a station are not on the backhaul and the mesh nodes. -/
lemma not_owns_wire (h : Chained N meshSize staSize tables) {k x : ℕ} (hk : 1 ≤ k)
    (hle : k ≤ staSize) (hx : x = 100 + k ∨ x = k) :
    ¬ N.Owns (ipv4 10 1 4 x) .backhaul ∧ ∀ i, ¬ N.Owns (ipv4 10 1 4 x) (.mesh i) := by
  obtain ⟨-, hsta2w, hwired⟩ := h.sta_device_mem hk hle
  have hsta2w' := fun n => owns_addr_iff hsta2w (n := n)
  have hwired' := fun n => owns_addr_iff hwired (n := n)
  rw [addr_wiredSta] at hwired'
  rcases hx with rfl | rfl
  · refine ⟨fun hown => ?_, fun i hown => ?_⟩ <;> cases (hsta2w' _).mp hown
  · refine ⟨fun hown => ?_, fun i hown => ?_⟩ <;> cases (hwired' _).mp hown

/-- From the last mesh node to the station. -/
lemma takes_sta2w (h : Chained N meshSize staSize tables) {k : ℕ} (hk : 1 ≤ k) (hle : k ≤ staSize) :
    N.Takes meshSize staSize tables (ipv4 10 1 4 (100 + k)) (.mesh meshSize)
      [.mesh meshSize, .sta (100 + k)] := by
  have hmem : (4, 100 + k) ∈ addrsOf k := by simp [addrsOf, Nat.add_comm]
  refine .forward ((h.not_owns_wire hk hle (Or.inl rfl)).2 _) (h.leads_last hk hle hmem)
    (.accept ?_)
  exact (owns_addr_iff (h.sta_device_mem hk hle).2.1).mpr rfl

/-- From the last mesh node to the wired station. -/
lemma takes_wiredSta (h : Chained N meshSize staSize tables) {k : ℕ} (hk : 1 ≤ k)
    (hle : k ≤ staSize) :
    N.Takes meshSize staSize tables (ipv4 10 1 4 k) (.mesh meshSize)
      [.mesh meshSize, .sta (100 + k), .wiredSta (100 + k)] := by
  have hmem : (4, k) ∈ addrsOf k := by simp [addrsOf]
  have hwired := (h.sta_device_mem hk hle).2.2
  have howns := fun n => owns_addr_iff hwired (n := n)
  rw [addr_wiredSta] at howns
  refine .forward ((h.not_owns_wire hk hle (Or.inr rfl)).2 _) (h.leads_last hk hle hmem) ?_
  have hwire := h.leads_sta_wiredSta (station_mem _ hk hle)
  rw [addr_wiredSta] at hwire
  refine .forward (fun hown => ?_) hwire (.accept ((howns _).mpr rfl))
  cases (howns _).mp hown

/-- **From the backhaul along the chain**, to an address on the wire of a station. -/
lemma takes_chain (h : Chained N meshSize staSize tables) {k x : ℕ} (hk : 1 ≤ k)
    (hle : k ≤ staSize) (hx : x = 100 + k ∨ x = k) {route : List Node}
    (hroute : N.Takes meshSize staSize tables (ipv4 10 1 4 x) (.mesh meshSize)
      (.mesh meshSize :: route)) :
    N.Takes meshSize staSize tables (ipv4 10 1 4 x) .backhaul
      (.backhaul :: (meshRow meshSize ++ route)) := by
  have hsta := h.sta_le
  have hx' : x < 256 := by omega
  obtain ⟨hbackhaul, hmesh⟩ := h.not_owns_wire hk hle hx
  have hpos := h.pos
  have hlast : 1 + (meshSize - 1) = meshSize := by omega
  have hend : N.Takes meshSize staSize tables (ipv4 10 1 4 x) (.mesh (1 + (meshSize - 1)))
      (.mesh meshSize :: route) := by rwa [hlast]
  have hrow := Routes.ascend Node.mesh (fun i hi hlt =>
    ⟨hmesh i, h.leads_up hi (by omega) hx'⟩) hend
  refine .forward hbackhaul (h.leads_backhaul (by decide) (by decide) hx') ?_
  rwa [meshRow_eq hpos, List.append_assoc, List.singleton_append]

/-- **From a wired station back along the chain**, to the backhaul. -/
lemma takes_back (h : Chained N meshSize staSize tables) {k : ℕ} (hk : 1 ≤ k) (hle : k ≤ staSize) :
    N.Takes meshSize staSize tables (ipv4 10 1 1 1) (.wiredSta (100 + k))
      (.wiredSta (100 + k) :: .sta (100 + k) :: ((meshRow meshSize).reverse ++ [.backhaul])) := by
  have howns : ∀ n, N.Owns (ipv4 10 1 1 1) n ↔ n = .backhaul :=
    fun n => owns_addr_iff (backhaulP2p_mem N).1
  have hmesh : ∀ i, ¬ N.Owns (ipv4 10 1 1 1) (.mesh i) := fun i hown => by
    cases (howns _).mp hown
  have hpos := h.pos
  have hfirst : N.Takes meshSize staSize tables (ipv4 10 1 1 1) (.mesh 1) [.mesh 1, .backhaul] :=
    .forward (hmesh 1) h.leads_mesh_backhaul (.accept ((howns _).mpr rfl))
  have hrow := Routes.descend Node.mesh (k := meshSize - 1) (fun i hi hlt => by
    refine ⟨hmesh i, ?_⟩
    rcases (show i ≤ meshSize by omega).eq_or_lt with rfl | hlt'
    · exact h.leads_back hi
    · exact h.leads_down hi hlt' (Or.inl ⟨rfl, rfl⟩)) hfirst
  rw [Nat.add_sub_cancel' hpos] at hrow
  have hst := station_mem meshSize hk hle
  refine .forward (fun hown => by cases (howns _).mp hown) (h.leads_wiredSta hst) ?_
  refine .forward (fun hown => by cases (howns _).mp hown) (h.leads_sta_mesh hst) ?_
  rw [reverse_meshRow hpos]
  simpa using hrow

/-- A mesh node that does not have an address of another mesh node. -/
lemma owns_mesh (h : Chained N meshSize staSize tables) {i : ℕ} (hi : 1 ≤ i) (hle : i ≤ meshSize)
    (n : Node) : N.Owns (ipv4 10 1 2 i) n ↔ n = .mesh i :=
  owns_addr_iff (h.mesh_device_mem hi hle).1

/-- From a mesh node to the next one. -/
lemma takes_next (h : Chained N meshSize staSize tables) {i : ℕ} (hi : 1 ≤ i) (hlt : i < meshSize) :
    N.Takes meshSize staSize tables (ipv4 10 1 2 (i + 1)) (.mesh i) [.mesh i, .mesh (i + 1)] := by
  have howns := h.owns_mesh (i := i + 1) (by omega) hlt
  refine .forward (fun hown => ?_)
    (h.leads_direct hi hlt.le (by omega) hlt (Or.inl (Nat.lt_succ_self i)))
    (.accept ((howns _).mpr rfl))
  have hself := Node.mesh.inj ((howns _).mp hown)
  omega

/-- From a mesh node to the one in front of it. -/
lemma takes_previous (h : Chained N meshSize staSize tables) {i : ℕ} (hi : 1 ≤ i)
    (hlt : i < meshSize) :
    N.Takes meshSize staSize tables (ipv4 10 1 2 i) (.mesh (i + 1)) [.mesh (i + 1), .mesh i] := by
  have howns := h.owns_mesh hi hlt.le
  refine .forward (fun hown => ?_) ?_ (.accept ((howns _).mpr rfl))
  · have hself := Node.mesh.inj ((howns _).mp hown)
    omega
  · rcases (show i + 1 ≤ meshSize by omega).eq_or_lt with heq | hlt'
    · exact h.leads_direct (by omega) hlt hi hlt.le (Or.inr heq)
    · exact h.leads_down (by omega) hlt' (Or.inr ⟨Or.inl rfl, hi, Nat.lt_succ_self i⟩)

/-- From the backhaul to the first mesh node. -/
lemma takes_first (h : Chained N meshSize staSize tables) :
    N.Takes meshSize staSize tables (ipv4 10 1 2 1) .backhaul [.backhaul, .mesh 1] := by
  have howns := h.owns_mesh le_rfl h.pos
  refine .forward (fun hown => ?_) (h.leads_backhaul (by decide) (by decide) (by decide))
    (.accept ((howns _).mpr rfl))
  cases (howns _).mp hown

end Chained

/-! ### The template and the network -/

/-- The tables of the mesh nodes are for their interfaces. -/
lemma exists_viaIfIp_rowTable {N : Network} {meshSize staSize : ℕ}
    (h : ChainNodes N meshSize staSize) {i : ℕ} (hi : 1 ≤ i) (hle : i ≤ meshSize) {ent : RtblEntry}
    (hent : ent ∈ rowTable meshSize staSize i) :
    ∃ d ∈ N.devices, d.node = .mesh i ∧ d.addr = ent.viaIfIp := by
  obtain ⟨hmesh, hap⟩ := h.mesh_device_mem hi hle
  rw [rowTable] at hent
  split at hent
  · rcases Chained.mem_meshTable hent with rfl | ⟨-, rfl | ⟨c, j, -, -, rfl⟩⟩ | ⟨hone, rfl⟩
    · exact ⟨.mesh i, hmesh, rfl, rfl⟩
    · exact ⟨.mesh i, hmesh, rfl, rfl⟩
    · exact ⟨.mesh i, hmesh, rfl, rfl⟩
    · obtain rfl : i = 1 := by omega
      exact ⟨.meshP2p, (backhaulP2p_mem N).2, rfl, rfl⟩
  · obtain rfl : i = meshSize := by omega
    rcases Chained.mem_lastHopTable.mp hent with rfl | ⟨k, -, addr, -, rfl⟩
    · exact ⟨.mesh i, hmesh, rfl, rfl⟩
    · exact ⟨.ap i, hap, rfl, rfl⟩

/-- The tables that are read back are those of the devices. -/
lemma tablesOf_chainTables {N : Network} {meshSize staSize : ℕ} (h : ChainNodes N meshSize staSize)
    {routing : RoutingConfig}
    (htable : ∀ addr, routing.table addr = entriesFor (chainBlocks meshSize staSize) addr) :
    TablesOf N routing (chainTables meshSize staSize) := by
  refine ⟨htable, fun t ht => exists_viaIfIp (fun x hx => ?_) (fun st hst => ?_)
    (fun x hx ent => ?_) ((Chained.mem_chainTables h.pos).mp ht)⟩
  · exact (h.mesh_mem_iff x).mpr (mem_range_one.mp hx)
  · obtain ⟨k, hk, rfl⟩ := mem_lastMeshNode.mp hst
    exact (h.sta_mem_iff (100 + k)).mpr ⟨by omega, by omega⟩
  · obtain ⟨hx, hle⟩ := mem_range_one.mp hx
    exact exists_viaIfIp_rowTable h hx hle

/-- The network of a simulation has the nodes of a chain. -/
lemma chainNodes_simNetwork {meshSize staSize : ℕ} (hpos : 1 ≤ meshSize)
    (h : meshSize ≤ 100 ∧ staSize ≤ 100) :
    ChainNodes (simNetwork meshSize staSize h) meshSize staSize where
  pos := hpos
  mesh_le := h.1
  sta_le := h.2
  mesh_mem_iff := fun x => by
    simp only [simNetwork, simMeshNodes, List.mem_map, List.mem_range]
    constructor
    · rintro ⟨i, hi, rfl⟩
      omega
    · intro hx
      exact ⟨x - 1, by omega, by omega⟩
  sta_mem_iff := fun y => by
    simp only [simNetwork, simStaNodes, List.mem_map, List.mem_range]
    constructor
    · rintro ⟨i, hi, rfl⟩
      omega
    · intro hy
      exact ⟨y - 101, by omega, by omega⟩

/-- A network with the nodes of a chain and its tables is a chain. -/
lemma ChainNodes.chained {N : Network} {meshSize staSize : ℕ} (h : ChainNodes N meshSize staSize)
    {tables : Node → List RtblEntry}
    (hmem : ∀ n ent, ent ∈ tables n ↔ (∃ d ∈ N.devices, d.node = n ∧ ent = connected d) ∨
      ∃ t ∈ chainTables meshSize staSize, t.1.node = n ∧ ent ∈ t.2) :
    Chained N meshSize staSize tables where
  toChainNodes := h
  sta_range := fun st hst => by
    obtain ⟨k, hk, rfl⟩ := mem_lastMeshNode.mp hst
    have hsta := h.sta_le
    exact ⟨by dsimp only; omega, by dsimp only; omega⟩
  mesh_lt := fun x hx => by
    have hmesh := h.mesh_le
    have hx := mem_range_one.mp hx
    omega
  one_mem := mem_range_one.mpr ⟨le_rfl, h.pos⟩
  station_mesh := fun st hst => by
    obtain ⟨k, hk, rfl⟩ := mem_lastMeshNode.mp hst
    exact mem_range_one.mpr ⟨h.pos, le_rfl⟩
  eq_of_fst_eq := fun st hst st' hst' heq => by
    obtain ⟨k, -, rfl⟩ := mem_lastMeshNode.mp hst
    obtain ⟨k', -, rfl⟩ := mem_lastMeshNode.mp hst'
    exact Prod.ext heq rfl
  mesh_mem := fun x hx => (h.mesh_mem_iff x).mpr (mem_range_one.mp hx)
  sta_mem := fun st hst => by
    obtain ⟨k, hk, rfl⟩ := mem_lastMeshNode.mp hst
    exact (h.sta_mem_iff (100 + k)).mpr ⟨by omega, by omega⟩
  mem_tables := fun n ent => by simpa only [Chained.mem_chainTables h.pos] using hmem n ent

/-- **The tables of the template are installed.** -/
lemma exists_chained {meshSize staSize : ℕ} (hpos : 1 ≤ meshSize)
    (h : meshSize ≤ 100 ∧ staSize ≤ 100) :
    ∃ routing tables, loadRoutingConfig {} (routingTxt meshSize staSize) = .ok routing ∧
      routing.proto = .none ∧
      (simNetwork meshSize staSize h).createInterfaces routing = some tables ∧
      Chained (simNetwork meshSize staSize h) meshSize staSize tables := by
  have hnodes := chainNodes_simNetwork hpos h
  obtain ⟨routing, hload, hproto, hnoEmpty, htable⟩ :=
    loadRoutingConfig_routingTxt hpos (show meshSize < 256 by omega) (show staSize < 156 by omega)
  obtain ⟨tables, htables, hmem⟩ :=
    (tablesOf_chainTables hnodes htable).createInterfaces hnoEmpty
  exact ⟨routing, tables, hload, hproto, htables, hnodes.chained hmem⟩

/-- **The chain is connected.** The text of the template is read, its tables are installed, and
packets take the way along the whole chain between the backhaul and a wired station, in both
directions; between the backhaul and the first mesh node, between neighbours, and from the last mesh
node to a wired station they take the way along this part of it. -/
theorem chain_routes {meshSize staSize : ℕ} (hpos : 1 ≤ meshSize)
    (h : meshSize ≤ 100 ∧ staSize ≤ 100) :
    ∃ routing tables, loadRoutingConfig {} (routingTxt meshSize staSize) = .ok routing ∧
      routing.proto = .none ∧
      (simNetwork meshSize staSize h).createInterfaces routing = some tables ∧
      (∀ k, 1 ≤ k → k ≤ staSize →
        (simNetwork meshSize staSize h).Takes meshSize staSize tables (ipv4 10 1 4 k) .backhaul
          (.backhaul :: (meshRow meshSize ++ [.sta (100 + k), .wiredSta (100 + k)])) ∧
        (simNetwork meshSize staSize h).Takes meshSize staSize tables (ipv4 10 1 1 1)
          (.wiredSta (100 + k))
          (.wiredSta (100 + k) :: .sta (100 + k) :: ((meshRow meshSize).reverse ++ [.backhaul])) ∧
        (simNetwork meshSize staSize h).Takes meshSize staSize tables (ipv4 10 1 4 k)
          (.mesh meshSize) [.mesh meshSize, .sta (100 + k), .wiredSta (100 + k)]) ∧
      (simNetwork meshSize staSize h).Takes meshSize staSize tables (ipv4 10 1 2 1) .backhaul
        [.backhaul, .mesh 1] ∧
      ∀ i, 1 ≤ i → i < meshSize →
        (simNetwork meshSize staSize h).Takes meshSize staSize tables (ipv4 10 1 2 (i + 1))
          (.mesh i) [.mesh i, .mesh (i + 1)] ∧
        (simNetwork meshSize staSize h).Takes meshSize staSize tables (ipv4 10 1 2 i)
          (.mesh (i + 1)) [.mesh (i + 1), .mesh i] := by
  obtain ⟨routing, tables, hload, hproto, htables, hchain⟩ := exists_chained hpos h
  refine ⟨routing, tables, hload, hproto, htables, fun k hk hle => ?_, hchain.takes_first,
    fun i hi hlt => ⟨hchain.takes_next hi hlt, hchain.takes_previous hi hlt⟩⟩
  have hlast := hchain.takes_wiredSta hk hle
  exact ⟨hchain.takes_chain hk hle (Or.inr rfl) hlast, hchain.takes_back hk hle, hlast⟩

/-- A chain of four mesh nodes with two stations. -/
theorem chain_routes_four :
    ∃ routing tables, loadRoutingConfig {} (routingTxt 4 2) = .ok routing ∧
      (simNetwork 4 2 (by decide)).createInterfaces routing = some tables ∧
      (simNetwork 4 2 (by decide)).Takes 4 2 tables (ipv4 10 1 4 2) .backhaul
        [.backhaul, .mesh 1, .mesh 2, .mesh 3, .mesh 4, .sta 102, .wiredSta 102] := by
  obtain ⟨routing, tables, hload, -, htables, hroutes, -⟩ :=
    @chain_routes 4 2 (by decide) (by decide)
  exact ⟨routing, tables, hload, htables, (hroutes 2 (by decide) (by decide)).1⟩

/-! ### What the tables do not reach -/

namespace Chained

variable {N : Network} {meshSize staSize : ℕ} {tables : Node → List RtblEntry}

/-- From the backhaul to the other end of its own link. -/
lemma takes_meshP2p (h : Chained N meshSize staSize tables) :
    N.Takes meshSize staSize tables (ipv4 10 1 1 2) .backhaul [.backhaul, .mesh 1] := by
  have hp2p := backhaulP2p_mem N
  have howns := fun n => owns_addr_iff hp2p.2 (n := n)
  refine .forward (fun hown => ?_) ?_ (.accept ((howns _).mpr rfl))
  · cases (howns _).mp hown
  · refine leads_of_best hp2p.1 hp2p.2 rfl (h.mem_backhaul.mpr (Or.inl rfl))
      ((covers_connected (by decide) (by decide) (by decide) (by decide) rfl).mpr rfl)
      fun ent hent _ hlen => ?_
    rw [entryLength_connected] at hlen
    rcases h.mem_backhaul.mp hent with rfl | rfl
    · exact ⟨rfl, if_pos rfl⟩
    · exact absurd hlen (not_le_defaultRoute (by decide) _ _)

/-- From the backhaul to a mesh node: behind the first one the packet is sent directly. -/
lemma takes_mesh (h : Chained N meshSize staSize tables) {i : ℕ} (hi : 1 ≤ i) (hle : i ≤ meshSize) :
    ∃ route, N.Takes meshSize staSize tables (ipv4 10 1 2 i) .backhaul route := by
  have hmesh := h.mesh_le
  have howns := h.owns_mesh hi hle
  have hbackhaul : ¬ N.Owns (ipv4 10 1 2 i) .backhaul := fun hown => by
    cases (howns _).mp hown
  have hhop := h.leads_backhaul (c := 2) (x := i) (by decide) (by decide) (by omega)
  rcases hi.eq_or_lt with rfl | hlt
  · exact ⟨_, .forward hbackhaul hhop (.accept ((howns _).mpr rfl))⟩
  · refine ⟨_, .forward hbackhaul hhop (.forward (fun hown => ?_)
      (h.leads_direct le_rfl h.pos hi hle (Or.inl hlt)) (.accept ((howns _).mpr rfl)))⟩
    have hself := Node.mesh.inj ((howns _).mp hown)
    omega

/-- A packet from the backhaul to an address in the subnet of the access points gets to the first
mesh node at most, unless this is the last one. -/
lemma eq_of_mem_run (h : Chained N meshSize staSize tables) (hlt : 1 < meshSize) {x : ℕ}
    (hx : x < 256) {run : List Node}
    (hrun : N.MayTake meshSize staSize tables (ipv4 10 1 3 x) .backhaul run) {n : Node}
    (hn : n ∈ run) : n = .backhaul ∨ n = .mesh 1 := by
  cases hrun with
  | here => exact Or.inl (List.mem_singleton.mp hn)
  | forward _ hhop hrun =>
    obtain rfl := (h.leads_backhaul (by decide) (by decide) hx).eq hhop
    rcases List.mem_cons.mp hn with rfl | hn
    · exact Or.inl rfl
    cases hrun with
    | here => exact Or.inr (List.mem_singleton.mp hn)
    | forward _ hhop' _ => exact absurd hhop' (h.not_hop_first hlt hx _)

/-- **What no packet from the backhaul gets to**: with several mesh nodes, the access points behind
the first one, and the wireless side of the stations. -/
lemma not_owns_of_run (h : Chained N meshSize staSize tables) (hlt : 1 < meshSize) {d : Device}
    (hd : d ∈ N.devices) (hdev : (∃ x, d = .ap x ∧ x ≠ 1) ∨ ∃ y, d = .sta y) {run : List Node}
    (hrun : N.MayTake meshSize staSize tables d.addr .backhaul run) {n : Node} (hn : n ∈ run) :
    ¬ N.Owns d.addr n := by
  have hmesh := h.mesh_le
  have hsta := h.sta_le
  rw [owns_addr_iff hd]
  rcases hdev with ⟨x, rfl, hne⟩ | ⟨y, rfl⟩
  · have hx : 1 ≤ x ∧ x ≤ meshSize :=
      (h.mesh_mem_iff x).mp (by simpa [devices, networkDevices] using hd)
    rcases h.eq_of_mem_run hlt (by omega) hrun hn with rfl | rfl
    · exact fun heq => by cases heq
    · exact fun heq => hne (Node.mesh.inj heq).symm
  · have hy : 101 ≤ y ∧ y ≤ 100 + staSize :=
      (h.sta_mem_iff y).mp (by simpa [devices, networkDevices] using hd)
    rcases h.eq_of_mem_run hlt (by omega) hrun hn with rfl | rfl <;> exact fun heq => by cases heq

/-- From the backhaul to a station of the only mesh node. -/
lemma takes_sta (h : Chained N meshSize staSize tables) (hone : meshSize = 1) {k : ℕ} (hk : 1 ≤ k)
    (hle : k ≤ staSize) :
    N.Takes meshSize staSize tables (ipv4 10 1 3 (100 + k)) .backhaul
      [.backhaul, .mesh 1, .sta (100 + k)] := by
  subst hone
  have hsta := h.sta_le
  have howns := fun n => owns_addr_iff (h.sta_device_mem hk hle).1 (n := n)
  have hmem : (3, 100 + k) ∈ addrsOf k := by simp [addrsOf, Nat.add_comm]
  refine .forward (fun hown => ?_) (h.leads_backhaul (by decide) (by decide) (by omega))
    (.forward (fun hown => ?_) (h.leads_last hk hle hmem) (.accept ((howns _).mpr rfl))) <;>
  cases (howns _).mp hown

/-- **What is reached from the backhaul**: with several mesh nodes, neither the access points behind
the first one, nor the wireless side of the stations. -/
lemma takes_iff (h : Chained N meshSize staSize tables) {d : Device} (hd : d ∈ N.devices) :
    (∃ route, N.Takes meshSize staSize tables d.addr .backhaul route) ↔
      meshSize = 1 ∨ (∀ x, d = .ap x → x = 1) ∧ ∀ y, d ≠ .sta y := by
  have hmesh := h.mesh_le
  have hsta := h.sta_le
  have hpos := h.pos
  have howns := fun n => owns_addr_iff hd (n := n)
  constructor
  · rintro ⟨route, hroute⟩
    rcases hpos.eq_or_lt with hone | hlt
    · exact Or.inl hone.symm
    obtain ⟨goal, hlast, hown⟩ := hroute.exists_getLast
    have hnot : ¬((∃ x, d = .ap x ∧ x ≠ 1) ∨ ∃ y, d = .sta y) := fun hdev =>
      h.not_owns_of_run hlt hd hdev hroute.run (List.mem_of_mem_getLast? hlast) hown
    refine Or.inr ⟨fun x hx => ?_, fun y hy => hnot (Or.inr ⟨y, hy⟩)⟩
    by_contra hne
    exact hnot (Or.inl ⟨x, hx, hne⟩)
  · intro hreach
    have hstation : ∀ {y}, y ∈ N.staNodes → ∃ k, (1 ≤ k ∧ k ≤ staSize) ∧ y = 100 + k := by
      intro y hy
      have hy' := (h.sta_mem_iff y).mp hy
      exact ⟨y - 100, by omega, by omega⟩
    cases d with
    | backhaulP2p => exact ⟨_, .accept ((howns _).mpr rfl)⟩
    | meshP2p => exact ⟨_, h.takes_meshP2p⟩
    | mesh x =>
      obtain ⟨hx, hle⟩ := (h.mesh_mem_iff x).mp (by simpa [devices, networkDevices] using hd)
      exact h.takes_mesh hx hle
    | ap x =>
      have hx := (h.mesh_mem_iff x).mp (by simpa [devices, networkDevices] using hd)
      obtain rfl : x = 1 := by
        rcases hreach with hone | ⟨hap, -⟩
        · omega
        · exact hap x rfl
      refine ⟨_, .forward (fun hown => ?_) (h.leads_backhaul (by decide) (by decide) (by decide))
        (.accept ((howns _).mpr rfl))⟩
      cases (howns _).mp hown
    | sta y =>
      obtain ⟨k, hk, rfl⟩ := hstation (y := y) (by simpa [devices, networkDevices] using hd)
      rcases hreach with hone | ⟨-, hsta'⟩
      · exact ⟨_, h.takes_sta hone hk.1 hk.2⟩
      · exact absurd rfl (hsta' (100 + k))
    | sta2w y =>
      obtain ⟨k, hk, rfl⟩ := hstation (y := y) (by simpa [devices, networkDevices] using hd)
      exact ⟨_, h.takes_chain hk.1 hk.2 (Or.inl rfl) (h.takes_sta2w hk.1 hk.2)⟩
    | wiredSta y =>
      obtain ⟨k, hk, rfl⟩ := hstation (y := y) (by simpa [devices, networkDevices] using hd)
      rw [addr_wiredSta]
      exact ⟨_, h.takes_chain hk.1 hk.2 (Or.inr rfl) (h.takes_wiredSta hk.1 hk.2)⟩

/-- A device is reached on a route, or by no packet at all. -/
lemma takes_or_not_owns (h : Chained N meshSize staSize tables) {d : Device} (hd : d ∈ N.devices) :
    (∃ route, N.Takes meshSize staSize tables d.addr .backhaul route) ∨
      ∀ run, N.MayTake meshSize staSize tables d.addr .backhaul run →
        ∀ n ∈ run, ¬ N.Owns d.addr n := by
  by_cases hdev : (∃ x, d = .ap x ∧ x ≠ 1) ∨ ∃ y, d = .sta y
  · rcases h.pos.eq_or_lt with hone | hlt
    · exact Or.inl ((h.takes_iff hd).mpr (Or.inl hone.symm))
    · exact Or.inr fun run hrun n => h.not_owns_of_run hlt hd hdev hrun
  · rw [not_or] at hdev
    refine Or.inl ((h.takes_iff hd).mpr (Or.inr ⟨fun x hx => ?_, fun y hy => hdev.2 ⟨y, hy⟩⟩))
    by_contra hne
    exact hdev.1 ⟨x, hx, hne⟩

end Chained

/-- **What the backhaul reaches**: on a chain of several mesh nodes there is no way to the access
points behind the first one and to the wireless side of the stations, and there is a way to every
other device; with a single mesh node there is a way to all devices.  Where there is no way, no
packet gets to the device, whatever is chosen on the way. -/
theorem reached_from_backhaul_iff {meshSize staSize : ℕ} (hpos : 1 ≤ meshSize)
    (h : meshSize ≤ 100 ∧ staSize ≤ 100) :
    ∃ routing tables, loadRoutingConfig {} (routingTxt meshSize staSize) = .ok routing ∧
      (simNetwork meshSize staSize h).createInterfaces routing = some tables ∧
      ∀ d ∈ (simNetwork meshSize staSize h).devices,
        ((∃ route, (simNetwork meshSize staSize h).Takes meshSize staSize tables d.addr .backhaul
          route) ↔ meshSize = 1 ∨ (∀ x, d = .ap x → x = 1) ∧ ∀ y, d ≠ .sta y) ∧
        ((∃ route, (simNetwork meshSize staSize h).Takes meshSize staSize tables d.addr .backhaul
          route) ∨ ∀ run, (simNetwork meshSize staSize h).MayTake meshSize staSize tables d.addr
            .backhaul run → ∀ n ∈ run, ¬(simNetwork meshSize staSize h).Owns d.addr n) := by
  obtain ⟨routing, tables, hload, -, htables, hchain⟩ := exists_chained hpos h
  exact ⟨routing, tables, hload, htables,
    fun d hd => ⟨hchain.takes_iff hd, hchain.takes_or_not_owns hd⟩⟩

/-- On a chain of two mesh nodes, the wireless side of the station is not reached. -/
theorem reached_from_backhaul_iff_two :
    ∃ routing tables, loadRoutingConfig {} (routingTxt 2 1) = .ok routing ∧
      (simNetwork 2 1 (by decide)).createInterfaces routing = some tables ∧
      ¬ ∃ route, (simNetwork 2 1 (by decide)).Takes 2 1 tables (ipv4 10 1 3 101) .backhaul
        route := by
  obtain ⟨routing, tables, hload, htables, hreach⟩ :=
    @reached_from_backhaul_iff 2 1 (by decide) (by decide)
  have hiff := (hreach (.sta 101) (by decide)).1
  exact ⟨routing, tables, hload, htables, fun hroute => by simpa using hiff.mp hroute⟩

end Network

end MeshSim
