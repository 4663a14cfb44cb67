import MeshSim.Routing.Network

/-!
# The network of a simulation

`MeshSim` of `sim/mesh_sim.cc` makes a number of mesh nodes and a number of stations, and
`CreateInterfaces` lets an `Ipv4AddressHelper` number their devices.  The access points and the
stations share a subnet, and so do the two ends of the wires between stations and wired stations:
the stations start at 101 there.

The helper is a parameter.  It numbers devices consecutively as long as their numbers are numbers of
hosts in the subnet; nothing is said of more devices, nor of what it does when it comes to an
address that it has given before.  `nodup_assignedAddrs_iff` says for which numbers of nodes every
device gets an address of its own, and `simNetwork` is the network in this case.
-/

namespace MeshSim

/-- `Ipv4AddressHelper`: the addresses that `Assign` gives to a number of devices after
`SetBase(network, mask, base)`. -/
abbrev AddressHelper := Ipv4Addr → Ipv4Addr → Ipv4Addr → ℕ → List Ipv4Addr

/-- The addresses are those from `base` on, in the order of the devices.  The last number of a
subnet is not one of a host. -/
def AddressHelper.Consecutive (assign : AddressHelper) : Prop :=
  ∀ (network base : Ipv4Addr) (e n : ℕ), 0 < e → e ≤ 32 → network &&& ~~~netmask e = 0 →
    base.toNat + n < 2 ^ (32 - e) →
    assign network (netmask e) base n =
      (List.range n).map fun i => network + base + BitVec.ofNat 32 i

namespace Network

/-! ### The numbers of the addresses -/

/-- The addresses `10.1.c.k`, `10.1.c.(k + 1)` and so on. -/
def subnetAddrs (c k n : ℕ) : List Ipv4Addr := (List.range n).map fun i => ipv4 10 1 c (k + i)

/-- The number of an address of the simulation. -/
lemma toNat_addr {c d : ℕ} (hc : c < 256) (hd : d < 256) :
    (ipv4 10 1 c d).toNat = 167837696 + 256 * c + d := by
  rw [toNat_ipv4 (by decide) (by decide) hc hd]
  omega

/-- The addresses of a subnet are consecutive numbers. -/
lemma map_toNat_subnetAddrs {c k n : ℕ} (hc : c < 256) (hn : k + n ≤ 256) :
    (subnetAddrs c k n).map BitVec.toNat = List.range' (167837696 + 256 * c + k) n := by
  rw [subnetAddrs, List.map_map, List.range'_eq_map_range]
  refine List.map_congr_left fun i hi => ?_
  have hlt := List.mem_range.mp hi
  rw [Function.comp_apply, toNat_addr hc (by omega)]
  omega

/-- An address of a subnet. -/
lemma mem_subnetAddrs {c k n d : ℕ} (hk : k ≤ d) (hd : d < k + n) :
    ipv4 10 1 c d ∈ subnetAddrs c k n := by
  rw [subnetAddrs, List.mem_map]
  exact ⟨d - k, List.mem_range.mpr (by omega), by rw [Nat.add_sub_cancel' hk]⟩

/-- The mesh nodes of a simulation. -/
def simMeshNodes (meshSize : ℕ) : List ℕ := (List.range meshSize).map (1 + ·)

/-- The stations of a simulation. -/
def simStaNodes (staSize : ℕ) : List ℕ := (List.range staSize).map (101 + ·)

/-- The addresses of the devices: mesh nodes are numbered from 1 on and stations from 101 on. -/
lemma map_addr_networkDevices (meshSize staSize : ℕ) :
    (networkDevices (simMeshNodes meshSize) (simStaNodes staSize)).map Device.addr =
      subnetAddrs 1 1 2 ++ subnetAddrs 2 1 meshSize ++ subnetAddrs 3 1 meshSize ++
        subnetAddrs 3 101 staSize ++ subnetAddrs 4 101 staSize ++ subnetAddrs 4 1 staSize := by
  have hwired : ∀ i, 101 + i - 100 = 1 + i := by omega
  have hbackhaul : subnetAddrs 1 1 2 = [ipv4 10 1 1 1, ipv4 10 1 1 2] := by decide
  rw [hbackhaul]
  simp only [networkDevices, simMeshNodes, simStaNodes, subnetAddrs, List.map_cons, List.map_append,
    List.map_map, Function.comp_def, Device.addr, hwired, List.cons_append, List.nil_append]

/-- The addresses of a simulation with few nodes are different. -/
lemma nodup_addr {meshSize staSize : ℕ}
    (h : meshSize ≤ 100 ∧ staSize ≤ 100 ∨ staSize = 0 ∧ meshSize ≤ 254) :
    ((networkDevices (simMeshNodes meshSize) (simStaNodes staSize)).map Device.addr).Nodup := by
  rw [map_addr_networkDevices]
  refine List.Nodup.of_map BitVec.toNat ?_
  simp only [List.map_append]
  have hblock : ∀ {c k n : ℕ}, c < 256 → k + n ≤ 256 → (subnetAddrs c k n).map BitVec.toNat =
      List.range' (167837696 + 256 * c + k) n := map_toNat_subnetAddrs
  rw [hblock (by decide) (by omega), hblock (by decide) (by omega), hblock (by decide) (by omega),
    hblock (by decide) (by omega), hblock (by decide) (by omega), hblock (by decide) (by omega)]
  have hrange : ∀ s n, (List.range' s n).Nodup := fun s n => List.nodup_range'
  simp only [List.nodup_append, List.mem_append, List.mem_range'_1, hrange, true_and]
  refine ⟨⟨⟨⟨?_, ?_⟩, ?_⟩, ?_⟩, ?_⟩ <;>
  · intro a ha b hb
    omega

/-- Many nodes share addresses: the last access points with the first stations, or the two ends of
the wires of stations. -/
lemma few_of_nodup_addr {meshSize staSize : ℕ}
    (hnodup : ((networkDevices (simMeshNodes meshSize) (simStaNodes staSize)).map
      Device.addr).Nodup) : meshSize ≤ 100 ∧ staSize ≤ 100 ∨ staSize = 0 := by
  rw [map_addr_networkDevices] at hnodup
  simp only [List.nodup_append] at hnodup
  obtain ⟨⟨⟨-, hapSta⟩, -⟩, hsta2wWired⟩ := hnodup
  have hstations : ¬(101 ≤ meshSize ∧ 1 ≤ staSize) := by
    rintro ⟨hmesh, hsta⟩
    have hap : ipv4 10 1 3 101 ∈ subnetAddrs 3 1 meshSize :=
      mem_subnetAddrs (by decide) (by omega)
    have hfirst : ipv4 10 1 3 101 ∈ subnetAddrs 3 101 staSize := mem_subnetAddrs le_rfl (by omega)
    exact hapSta.2 _ (List.mem_append_right _ hap) _ hfirst rfl
  have hwires : ¬101 ≤ staSize := by
    intro hsta
    have hfirst : ipv4 10 1 4 101 ∈ subnetAddrs 4 101 staSize := mem_subnetAddrs le_rfl (by omega)
    have hwired : ipv4 10 1 4 101 ∈ subnetAddrs 4 1 staSize :=
      mem_subnetAddrs (by decide) (by omega)
    exact hsta2wWired.2 _ (List.mem_append_right _ hfirst) _ hwired rfl
  omega

/-! ### The addresses that are assigned -/

/-- The addresses that `CreateInterfaces` assigns for some numbers of mesh nodes and stations. -/
def assignedAddrs (assign : AddressHelper) (meshSize staSize : ℕ) : List Ipv4Addr :=
  assign (ipv4 10 1 1 0) (netmask 24) (ipv4 0 0 0 1) 2 ++
    assign (ipv4 10 1 2 0) (netmask 24) (ipv4 0 0 0 1) meshSize ++
    assign (ipv4 10 1 3 0) (netmask 24) (ipv4 0 0 0 1) meshSize ++
    assign (ipv4 10 1 3 0) (netmask 24) (ipv4 0 0 0 101) staSize ++
    assign (ipv4 10 1 4 0) (netmask 24) (ipv4 0 0 0 101) staSize ++
    assign (ipv4 10 1 4 0) (netmask 24) (ipv4 0 0 0 1) staSize

/-- The addresses in a subnet `10.1.c.0` are assigned consecutively. -/
lemma assign_subnet {assign : AddressHelper} (hassign : assign.Consecutive) {c k n : ℕ}
    (hc : ipv4 10 1 c 0 &&& ~~~netmask 24 = 0) (hn : k + n < 256) :
    assign (ipv4 10 1 c 0) (netmask 24) (ipv4 0 0 0 k) n = subnetAddrs c k n := by
  have hbase : ipv4 0 0 0 k = BitVec.ofNat 32 k := by simp [ipv4]
  have hnumber : (ipv4 0 0 0 k).toNat = k := by
    rw [hbase, BitVec.toNat_ofNat]
    omega
  rw [hassign _ _ 24 n (by decide) (by decide) hc (by rw [hnumber]; exact hn)]
  refine List.map_congr_left fun i _ => ?_
  rw [hbase, ipv4, ipv4, BitVec.ofNat_add, BitVec.add_zero, BitVec.add_assoc]

/-- **Every device gets an address of its own** exactly when there are at most 100 mesh nodes and
100 stations, or no station, among the numbers of nodes that have room in their subnets; and the
addresses are those of the devices of a network. -/
theorem nodup_assignedAddrs_iff {assign : AddressHelper} (hassign : assign.Consecutive)
    {meshSize staSize : ℕ} (hmesh : meshSize ≤ 254) (hsta : staSize ≤ 154) :
    assignedAddrs assign meshSize staSize =
        (networkDevices (simMeshNodes meshSize) (simStaNodes staSize)).map Device.addr ∧
      ((assignedAddrs assign meshSize staSize).Nodup ↔
        meshSize ≤ 100 ∧ staSize ≤ 100 ∨ staSize = 0) := by
  have haddrs : assignedAddrs assign meshSize staSize =
      (networkDevices (simMeshNodes meshSize) (simStaNodes staSize)).map Device.addr := by
    rw [map_addr_networkDevices, assignedAddrs, assign_subnet hassign (by decide) (by decide),
      assign_subnet hassign (by decide) (by omega), assign_subnet hassign (by decide) (by omega),
      assign_subnet hassign (by decide) (by omega), assign_subnet hassign (by decide) (by omega),
      assign_subnet hassign (by decide) (by omega)]
  refine ⟨haddrs, ?_⟩
  rw [haddrs]
  exact ⟨few_of_nodup_addr, fun h => nodup_addr (by omega)⟩

/-- The helper that puts the number of a host below the number of the network. -/
def orHelper : AddressHelper := fun network _ base n =>
  (List.range n).map fun i => network ||| (base + BitVec.ofNat 32 i)

/-- The addresses of the helper are consecutive: the numbers of hosts have no bits in common with
the network. -/
lemma consecutive_orHelper : orHelper.Consecutive := by
  intro network base e n _ he hnetwork hn
  refine List.map_congr_left fun i hi => ?_
  have hlt := List.mem_range.mp hi
  have hhost : (base + BitVec.ofNat 32 i).toNat < 2 ^ (32 - e) := by
    have hpow : 2 ^ (32 - e) ≤ 2 ^ 32 := Nat.pow_le_pow_right (by decide) (Nat.sub_le _ _)
    rw [BitVec.toNat_add, BitVec.toNat_ofNat]
    omega
  have hdisjoint : network &&& (base + BitVec.ofNat 32 i) = 0 := by
    refine BitVec.eq_of_getLsbD_eq fun j hj => ?_
    have hbit := congrArg (fun x : Ipv4Addr => x.getLsbD j) hnetwork
    simp only [BitVec.getLsbD_and, BitVec.getLsbD_not, hj, decide_true, Bool.true_and,
      getLsbD_netmask e (by omega) j hj] at hbit
    rw [BitVec.getLsbD_and]
    rcases lt_or_ge j (32 - e) with hlow | hhigh
    · have hzero : network.getLsbD j = false := by simpa [hlow.not_ge] using hbit
      simp [hzero]
    · have hzero : (base + BitVec.ofNat 32 i).getLsbD j = false :=
        Nat.testBit_lt_two_pow (hhost.trans_le (Nat.pow_le_pow_right (by decide) hhigh))
      simp [hzero]
  rw [BitVec.add_assoc, BitVec.add_eq_or_of_and_eq_zero _ _ hdisjoint]

/-- A hundred of each have addresses of their own, and the 101st access point has the address of the
first station. -/
theorem nodup_assignedAddrs_iff_hundred : (assignedAddrs orHelper 100 100).Nodup ∧
    ¬(assignedAddrs orHelper 101 1).Nodup :=
  ⟨(nodup_assignedAddrs_iff consecutive_orHelper (by decide) (by decide)).2.mpr (by decide),
    fun h => absurd ((nodup_assignedAddrs_iff consecutive_orHelper (by decide) (by decide)).2.mp h)
      (by decide)⟩

end Network

/-- The network of a simulation. -/
def simNetwork (meshSize staSize : ℕ) (h : meshSize ≤ 100 ∧ staSize ≤ 100) : Network where
  meshNodes := Network.simMeshNodes meshSize
  staNodes := Network.simStaNodes staSize
  nodup := Network.nodup_addr (Or.inl h)

end MeshSim
