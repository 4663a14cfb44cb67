import MeshSim.Routing.AddressGrammar
import MeshSim.Routing.RoutingConfig

/-!
# Generating routing tables

`scripts/genroutingtables`: the text of a routing configuration, for a list of the mesh nodes and of
the stations connected to them.

Input in the documented form is a list of rows (`Row`).  `loadRoutingConfig_genroutingtables` says
that the output for such input is read back as the tables of `routingBlocks`.
-/

namespace MeshSim

open PythonText

namespace GenRoutingTables

/-! ### The script -/

/-- `decode_ip`: the numbers, of which the callers need four. -/
def decodeIp (ipAsStr : List Char) : Option (List ℤ) := (ipAsStr.splitOn '.').mapM toInt

/-- `encode_ip`. -/
def encodeIp (a b c d : ℤ) : List Char :=
  List.intercalate ['.'] [formatLong a, formatLong b, formatLong c, formatLong d]

/-- `ap_ip`. -/
def apIp (meshIp : List Char) : Option (List Char) :=
  match decodeIp meshIp with
  | some [a, b, _, d] => some (encodeIp a b 3 d)
  | _ => none

/-- `sta2w_ip`. -/
def sta2wIp (staIp : List Char) : Option (List Char) :=
  match decodeIp staIp with
  | some [a, b, _, d] => some (encodeIp a b 4 d)
  | _ => none

/-- `wiredsta_ip`. -/
def wiredstaIp (staIp : List Char) : Option (List Char) :=
  match decodeIp staIp with
  | some [a, b, _, d] => some (encodeIp a b 4 (d - 100))
  | _ => none

/-- The pairs that are read from the input file; a row that is not a pair raises an exception. -/
def readPairs (fp : List Char) : Option (List (List Char × List Char)) :=
  let rows := (((readLines fp).map strip).filter fun l => l ≠ [] && l.head? ≠ some '#').map split
  rows.mapM fun row =>
    match row with
    | [s, m] => some (s, m)
    | _ => none

/-- `print("routes_on %s" % ip)`. -/
def routesOnLine (ip : List Char) : List Char := List.intercalate [' '] [routesOnWord, ip]

/-- `print("%s\t%s\t%s" % (target, via, gateway))`. -/
def entryLine (target via gateway : List Char) : List Char :=
  List.intercalate ['\t'] [target, via, gateway]

/-- `0.0.0.0/0` -/
def anyNetwork : List Char := encodeIp 0 0 0 0 ++ ['/', '0']

/-- `10.1.1.0/24` -/
def backhaulNetwork : List Char := encodeIp 10 1 1 0 ++ ['/', '2', '4']

/-- The lines for one station in the table of a mesh node. -/
def stationLines (mesh : List Char) (pair : List Char × List Char) : Option (List (List Char)) := do
  let (sta2, mesh2) := pair
  let addrs := [sta2, ← sta2wIp sta2, ← wiredstaIp sta2]
  if mesh2 = mesh then
    let ap ← apIp mesh
    return addrs.map fun addr => entryLine addr ap sta2
  else return addrs.map fun addr => entryLine addr mesh mesh2

/-- The lines for one mesh node. -/
def meshLines (pairs : List (List Char × List Char)) (mesh : List Char) :
    Option (List (List Char)) := do
  let backhaul :=
    if mesh = encodeIp 10 1 2 1 then
      entryLine backhaulNetwork (encodeIp 10 1 1 2) (encodeIp 10 1 1 1)
    else entryLine backhaulNetwork mesh (encodeIp 10 1 2 1)
  let stations ← pairs.mapM (stationLines mesh)
  return routesOnLine mesh :: backhaul :: (stations.flatten ++ [[]])

/-- The lines for one station. -/
def staLines (pair : List Char × List Char) : Option (List (List Char)) := do
  let (sta, mesh) := pair
  return [routesOnLine sta, entryLine anyNetwork sta (← apIp mesh),
    List.intercalate ['\t'] [← wiredstaIp sta, ← sta2wIp sta], []]

/-- The lines for one wired station. -/
def wiredStaLines (pair : List Char × List Char) : Option (List (List Char)) := do
  let (sta, _) := pair
  let wired ← wiredstaIp sta
  return [routesOnLine wired, entryLine anyNetwork wired (← sta2wIp sta), []]

/-- `sorted(set(m for s, m in pairs))`. -/
def sortedMeshNodes (pairs : List (List Char × List Char)) : List (List Char) :=
  (pairs.map Prod.snd).dedup.mergeSort fun a b => decide (a ≤ b)

/-- What the script prints before it reads the input. -/
def headingLines (argv0 : List Char) : List (List Char) :=
  ['#' :: (" routing tables generated with ".toList ++ argv0),
    List.intercalate [' '] [protoWord, noneWord], [], '#' :: " backhaul".toList,
    routesOnLine (encodeIp 10 1 1 1),
    entryLine anyNetwork (encodeIp 10 1 1 1) (encodeIp 10 1 1 2), []]

/-- `genroutingtables`: the output for an input file, unless an exception is raised. -/
def genroutingtables (argv0 fp : List Char) : Option (List Char) := do
  let pairs ← readPairs fp
  let meshNodes := sortedMeshNodes pairs
  let pairs := pairs.filter fun p => p.1 ≠ ['X']
  let meshPart ← meshNodes.mapM (meshLines pairs)
  let staPart ← pairs.mapM staLines
  let wiredPart ← pairs.mapM wiredStaLines
  let lines := headingLines argv0 ++ ('#' :: " mesh APs".toList) :: (meshPart.flatten ++
    ('#' :: " STAs".toList) :: (staPart.flatten ++
      ('#' :: " wired STAs".toList) :: wiredPart.flatten))
  return lines.flatMap fun l => l ++ ['\n']

/-! ### The documented form -/

/-- A row of the input. -/
inductive Row where
  /-- `X <mesh>`: a mesh node. -/
  | mesh (x : ℕ)
  /-- `<sta> <mesh>`: a station, and the mesh node it is connected to. -/
  | sta (y x : ℕ)
deriving DecidableEq, Repr

/-- The mesh node of a row. -/
def Row.meshNode : Row → ℕ
  | .mesh x => x
  | .sta _ x => x

/-- The numbers of a row are in the documented ranges. -/
def Row.Valid : Row → Prop
  | .mesh x => 1 ≤ x ∧ x < 100
  | .sta y x => (101 ≤ y ∧ y < 256) ∧ 1 ≤ x ∧ x < 100

/-- The words of a row. -/
def Row.words : Row → List Char × List Char
  | .mesh x => (['X'], dotted [10, 1, 2, x])
  | .sta y x => (dotted [10, 1, 3, y], dotted [10, 1, 2, x])

/-- The stations, with the mesh nodes that they are connected to. -/
def stations (rows : List Row) : List (ℕ × ℕ) :=
  rows.filterMap fun
    | .mesh _ => none
    | .sta y x => some (y, x)

/-- The words of a station's row. -/
def stationWords : ℕ × ℕ → List Char × List Char
  | (y, x) => (dotted [10, 1, 3, y], dotted [10, 1, 2, x])

/-- The input consists of rows in the documented form, and of comments and empty lines. -/
def Documented (fp : List Char) (rows : List Row) : Prop :=
  readPairs fp = some (rows.map Row.words) ∧ ∀ row ∈ rows, row.Valid

/-- The text of some rows, with single blanks between the words. -/
def rowsText (rows : List Row) : List Char :=
  rows.flatMap fun row => line [row.words.1, row.words.2]

/-! ### Addresses -/

/-- A loop that raises no exception. -/
lemma mapM_of_forall {α β : Type} {f : α → Option β} {g : α → β} {l : List α}
    (h : ∀ x ∈ l, f x = some (g x)) : l.mapM f = some (l.map g) := by
  induction l with
  | nil => rfl
  | cons x l ih =>
    obtain ⟨hx, hl⟩ := List.forall_mem_cons.mp h
    rw [List.mapM_cons, hx, ih hl]
    rfl

/-- Reading back the numbers of an address. -/
lemma decodeIp_dotted (a b c d : ℕ) :
    decodeIp (dotted [a, b, c, d]) = some [(a : ℤ), b, c, d] := by
  have hdot : ∀ l ∈ [a, b, c, d].map fun n : ℕ => formatLong (n : ℤ), '.' ∉ l := by
    intro l hl hmem
    obtain ⟨n, -, rfl⟩ := List.mem_map.mp hl
    exact absurd (isDigit_formatLong hmem) (by decide)
  have hread : ∀ l ∈ [a, b, c, d].map fun n : ℕ => formatLong (n : ℤ),
      toInt l = some ((toInt l).getD 0) := by
    intro l hl
    obtain ⟨n, -, rfl⟩ := List.mem_map.mp hl
    rw [toInt_formatLong]
    rfl
  rw [decodeIp, dotted, List.splitOn_intercalate '.' hdot (by simp), mapM_of_forall hread]
  simp [toInt_formatLong]

/-- The address of the access point of a mesh node. -/
lemma apIp_dotted (x : ℕ) : apIp (dotted [10, 1, 2, x]) = some (dotted [10, 1, 3, x]) := by
  rw [apIp, decodeIp_dotted]
  rfl

/-- The address of a station towards its wired station. -/
lemma sta2wIp_dotted (y : ℕ) : sta2wIp (dotted [10, 1, 3, y]) = some (dotted [10, 1, 4, y]) := by
  rw [sta2wIp, decodeIp_dotted]
  rfl

/-- The address of a wired station. -/
lemma wiredstaIp_dotted {y : ℕ} (hy : 100 ≤ y) :
    wiredstaIp (dotted [10, 1, 3, y]) = some (dotted [10, 1, 4, y - 100]) := by
  have hsub : (y : ℤ) - 100 = ((y - 100 : ℕ) : ℤ) := by omega
  rw [wiredstaIp, decodeIp_dotted]
  simp only [hsub]
  rfl

/-- Different addresses have different texts. -/
lemma dotted_inj {c d c' d' : ℕ} (h : dotted [10, 1, c, d] = dotted [10, 1, c', d']) :
    c = c' ∧ d = d' := by
  have hnums := decodeIp_dotted 10 1 c d
  rw [h, decodeIp_dotted] at hnums
  simp only [Option.some.injEq, List.cons.injEq, Nat.cast_inj] at hnums
  exact ⟨hnums.2.2.1.symm, hnums.2.2.2.1.symm⟩

/-- An address starts with a digit. -/
lemma targetToken_dotted (a b c d : ℕ) (suffix : List Char)
    (hword : Word (dotted [a, b, c, d] ++ suffix)) :
    TargetToken (dotted [a, b, c, d] ++ suffix) := by
  refine ⟨hword, ?_⟩
  obtain ⟨ch, chs, hch⟩ := List.exists_cons_of_ne_nil (word_formatLong (a : ℤ)).ne_nil
  refine ⟨ch, ?_, isDigit_formatLong (hch ▸ List.mem_cons_self)⟩
  rw [dotted_eq, hch]
  rfl

/-! ### The tables -/

/-- The host route for an address. -/
def hostRoute (target via gateway : Ipv4Addr) : RtblEntry := ⟨target, -1#32, via, gateway, 0⟩

/-- The default route. -/
def defaultRoute (via gateway : Ipv4Addr) : RtblEntry := ⟨ipv4 0 0 0 0, netmask 0, via, gateway, 0⟩

/-- The route to the network of the backhaul. -/
def backhaulRoute (via gateway : Ipv4Addr) : RtblEntry :=
  ⟨ipv4 10 1 1 0, netmask 24, via, gateway, 0⟩

/-- The addresses of a station and its wired station. -/
def stationAddrs (y : ℕ) : List Ipv4Addr := [ipv4 10 1 3 y, ipv4 10 1 4 y, ipv4 10 1 4 (y - 100)]

/-- The table of the backhaul. -/
def backhaulBlock : Ipv4Addr × List RtblEntry :=
  (ipv4 10 1 1 1, [defaultRoute (ipv4 10 1 1 1) (ipv4 10 1 1 2)])

/-- The table of a mesh node. -/
def meshBlock (sts : List (ℕ × ℕ)) (x : ℕ) : Ipv4Addr × List RtblEntry :=
  (ipv4 10 1 2 x,
    (if x = 1 then backhaulRoute (ipv4 10 1 1 2) (ipv4 10 1 1 1)
      else backhaulRoute (ipv4 10 1 2 x) (ipv4 10 1 2 1)) ::
    sts.flatMap fun (y, x') => (stationAddrs y).map fun addr =>
      if x' = x then hostRoute addr (ipv4 10 1 3 x) (ipv4 10 1 3 y)
      else hostRoute addr (ipv4 10 1 2 x) (ipv4 10 1 2 x'))

/-- The table of a station. -/
def staBlock : ℕ × ℕ → Ipv4Addr × List RtblEntry
  | (y, x) => (ipv4 10 1 3 y, [defaultRoute (ipv4 10 1 3 y) (ipv4 10 1 3 x),
      hostRoute (ipv4 10 1 4 (y - 100)) (ipv4 10 1 4 y) 0])

/-- The table of a wired station. -/
def wiredStaBlock : ℕ × ℕ → Ipv4Addr × List RtblEntry
  | (y, _) => (ipv4 10 1 4 (y - 100), [defaultRoute (ipv4 10 1 4 (y - 100)) (ipv4 10 1 4 y)])

/-! ### What the lines say -/

/-- The text of the default route. -/
lemma anyNetwork_eq : anyNetwork = dotted [0, 0, 0, 0] ++ '/' :: formatLong (0 : ℕ) := by rfl

/-- The text of the network of the backhaul. -/
lemma backhaulNetwork_eq :
    backhaulNetwork = dotted [10, 1, 1, 0] ++ '/' :: formatLong (24 : ℕ) := by rfl

/-- A default route. -/
lemma says_defaultRoute {a b c d a' b' c' d' : ℕ} (ha : a < 256) (hb : b < 256) (hc : c < 256)
    (hd : d < 256) (ha' : a' < 256) (hb' : b' < 256) (hc' : c' < 256) (hd' : d' < 256) :
    Says (entryLine anyNetwork (dotted [a, b, c, d]) (dotted [a', b', c', d']))
      (.entry (defaultRoute (ipv4 a b c d) (ipv4 a' b' c' d'))) := by
  rw [anyNetwork_eq]
  exact says_entry_gateway (targetToken_dotted _ _ _ _ _ (word_dotted_slash 0 0 0 0 0))
    (word_dotted _ _ _ _) (word_dotted _ _ _ _)
    (readIpNetworkAddr_dotted_slash (by decide) (by decide) (by decide) (by decide) (by decide))
    (readIpAddr_dotted ha hb hc hd) (readIpAddr_dotted ha' hb' hc' hd')

/-- A route to the network of the backhaul. -/
lemma says_backhaulRoute {c d c' d' : ℕ} (hc : c < 256) (hd : d < 256) (hc' : c' < 256)
    (hd' : d' < 256) :
    Says (entryLine backhaulNetwork (dotted [10, 1, c, d]) (dotted [10, 1, c', d']))
      (.entry (backhaulRoute (ipv4 10 1 c d) (ipv4 10 1 c' d'))) := by
  rw [backhaulNetwork_eq]
  exact says_entry_gateway (targetToken_dotted _ _ _ _ _ (word_dotted_slash 10 1 1 0 24))
    (word_dotted _ _ _ _) (word_dotted _ _ _ _)
    (readIpNetworkAddr_dotted_slash (by decide) (by decide) (by decide) (by decide) (by decide))
    (readIpAddr_dotted (by decide) (by decide) hc hd)
    (readIpAddr_dotted (by decide) (by decide) hc' hd')

/-- The first token of a host route. -/
lemma targetToken_host (c d : ℕ) : TargetToken (dotted [10, 1, c, d]) := by
  have h := targetToken_dotted 10 1 c d [] (by simpa using word_dotted 10 1 c d)
  rwa [List.append_nil] at h

/-- A host route with a gateway. -/
lemma says_hostRoute {c d c' d' c'' d'' : ℕ} (hc : c < 256) (hd : d < 256) (hc' : c' < 256)
    (hd' : d' < 256) (hc'' : c'' < 256) (hd'' : d'' < 256) :
    Says (entryLine (dotted [10, 1, c, d]) (dotted [10, 1, c', d']) (dotted [10, 1, c'', d'']))
      (.entry (hostRoute (ipv4 10 1 c d) (ipv4 10 1 c' d') (ipv4 10 1 c'' d''))) :=
  says_entry_gateway (targetToken_host c d) (word_dotted _ _ _ _) (word_dotted _ _ _ _)
    (readIpNetworkAddr_dotted (by decide) (by decide) hc hd)
    (readIpAddr_dotted (by decide) (by decide) hc' hd')
    (readIpAddr_dotted (by decide) (by decide) hc'' hd'')

/-- The lines of a table. -/
lemma says_table {c d : ℕ} (hc : c < 256) (hd : d < 256) {lines : List (List Char)}
    {ents : List RtblEntry} (h : List.Forall₂ (fun l ent => Says l (.entry ent)) lines ents) :
    List.Forall₂ Says (routesOnLine (dotted [10, 1, c, d]) :: (lines ++ [[]]))
      (tableItems (ipv4 10 1 c d, ents)) := by
  refine .cons (says_routesOn (word_dotted _ _ _ _)
    (readIpAddr_dotted (by decide) (by decide) hc hd)) ?_
  refine List.rel_append ?_ (.cons says_nil .nil)
  rwa [List.forall₂_map_right_iff]

/-- Lists that are made of related parts are related. -/
lemma forall₂_flatMap {ι α β : Type} {R : α → β → Prop} {l : List ι} {f : ι → List α}
    {g : ι → List β} (h : ∀ i ∈ l, List.Forall₂ R (f i) (g i)) :
    List.Forall₂ R (l.flatMap f) (l.flatMap g) := by
  induction l with
  | nil => exact .nil
  | cons i l ih =>
    obtain ⟨hi, hl⟩ := List.forall_mem_cons.mp h
    rw [List.flatMap_cons, List.flatMap_cons]
    exact List.rel_append hi (ih hl)

/-! ### The parts of the output -/

/-- The numbers of a station and its mesh node are in the documented ranges. -/
def ValidStation (st : ℕ × ℕ) : Prop := (101 ≤ st.1 ∧ st.1 < 256) ∧ 1 ≤ st.2 ∧ st.2 < 100

/-- The lines for one station in the table of a mesh node. -/
lemma stationLines_eq {x : ℕ} (hx : x < 100) {st : ℕ × ℕ} (hst : ValidStation st) :
    ∃ lines, stationLines (dotted [10, 1, 2, x]) (stationWords st) = some lines ∧
      List.Forall₂ (fun l ent => Says l (.entry ent)) lines
        ((stationAddrs st.1).map fun addr =>
          if st.2 = x then hostRoute addr (ipv4 10 1 3 x) (ipv4 10 1 3 st.1)
          else hostRoute addr (ipv4 10 1 2 x) (ipv4 10 1 2 st.2)) := by
  obtain ⟨y, x'⟩ := st
  obtain ⟨⟨hy, hy'⟩, -, hx'⟩ := hst
  simp only [stationLines, stationWords, sta2wIp_dotted, wiredstaIp_dotted (by omega : 100 ≤ y),
    apIp_dotted, Option.bind_eq_bind, Option.bind_some]
  by_cases h : x' = x
  · subst h
    rw [if_pos rfl]
    refine ⟨_, rfl, ?_⟩
    simp only [stationAddrs, List.map_cons, List.map_nil, if_true]
    have hmeans : ∀ c d, c < 256 → d < 256 →
        Says (entryLine (dotted [10, 1, c, d]) (dotted [10, 1, 3, x']) (dotted [10, 1, 3, y]))
          (.entry (hostRoute (ipv4 10 1 c d) (ipv4 10 1 3 x') (ipv4 10 1 3 y))) := fun c d hc hd =>
      says_hostRoute hc hd (by omega) (by omega) (by omega) hy'
    exact .cons (hmeans 3 y (by omega) hy') (.cons (hmeans 4 y (by omega) hy')
      (.cons (hmeans 4 (y - 100) (by omega) (by omega)) .nil))
  · have hne : dotted [10, 1, 2, x'] ≠ dotted [10, 1, 2, x] := fun heq => h (dotted_inj heq).2
    rw [if_neg hne]
    refine ⟨_, rfl, ?_⟩
    simp only [stationAddrs, List.map_cons, List.map_nil, if_neg h]
    have hmeans : ∀ c d, c < 256 → d < 256 →
        Says (entryLine (dotted [10, 1, c, d]) (dotted [10, 1, 2, x]) (dotted [10, 1, 2, x']))
          (.entry (hostRoute (ipv4 10 1 c d) (ipv4 10 1 2 x) (ipv4 10 1 2 x'))) := fun c d hc hd =>
      says_hostRoute hc hd (by omega) (by omega) (by omega) (by omega)
    exact .cons (hmeans 3 y (by omega) hy') (.cons (hmeans 4 y (by omega) hy')
      (.cons (hmeans 4 (y - 100) (by omega) (by omega)) .nil))

/-- The lines for one mesh node. -/
lemma meshLines_eq {sts : List (ℕ × ℕ)} (hsts : ∀ st ∈ sts, ValidStation st) {x : ℕ}
    (hx : x < 100) :
    ∃ lines, meshLines (sts.map stationWords) (dotted [10, 1, 2, x]) = some lines ∧
      List.Forall₂ Says lines (tableItems (meshBlock sts x)) := by
  have hstation := fun st hst => stationLines_eq hx (hsts st hst)
  choose! lines hlines hmeans using hstation
  have hmap : (sts.map stationWords).mapM (stationLines (dotted [10, 1, 2, x])) =
      some (sts.map lines) := by
    rw [List.mapM_map]
    exact mapM_of_forall hlines
  have hstations : List.Forall₂ (fun l ent => Says l (.entry ent)) (sts.map lines).flatten
      (meshBlock sts x).2.tail := by
    rw [← List.flatMap_def]
    exact forall₂_flatMap hmeans
  have hbackhaul : dotted [10, 1, 2, x] = encodeIp 10 1 2 1 ↔ x = 1 := by
    constructor
    · exact fun h => (dotted_inj (show dotted [10, 1, 2, x] = dotted [10, 1, 2, 1] from h)).2
    · rintro rfl
      rfl
  rw [meshLines, hmap]
  simp only [Option.bind_eq_bind, Option.bind_some, hbackhaul]
  refine ⟨_, rfl, ?_⟩
  refine says_table (by decide) (by omega) (.cons ?_ hstations)
  split
  · exact says_backhaulRoute (by decide) (by decide) (by decide) (by decide)
  · exact says_backhaulRoute (by decide) (by omega) (by decide) (by decide)

/-- The lines for one station. -/
lemma staLines_eq {st : ℕ × ℕ} (hst : ValidStation st) :
    ∃ lines, staLines (stationWords st) = some lines ∧
      List.Forall₂ Says lines (tableItems (staBlock st)) := by
  obtain ⟨y, x⟩ := st
  obtain ⟨⟨hy, hy'⟩, -, hx⟩ := hst
  simp only [staLines, stationWords, sta2wIp_dotted, wiredstaIp_dotted (by omega : 100 ≤ y),
    apIp_dotted, Option.bind_eq_bind, Option.bind_some]
  refine ⟨_, rfl, ?_⟩
  refine says_table (by decide) hy' (.cons ?_ (.cons ?_ .nil))
  · exact says_defaultRoute (by decide) (by decide) (by decide) hy' (by decide) (by decide)
      (by decide) (by omega)
  · exact says_entry (targetToken_host _ _) (word_dotted _ _ _ _)
      (readIpNetworkAddr_dotted (by decide) (by decide) (by decide) (by omega))
      (readIpAddr_dotted (by decide) (by decide) (by decide) hy')

/-- The lines for one wired station. -/
lemma wiredStaLines_eq {st : ℕ × ℕ} (hst : ValidStation st) :
    ∃ lines, wiredStaLines (stationWords st) = some lines ∧
      List.Forall₂ Says lines (tableItems (wiredStaBlock st)) := by
  obtain ⟨y, x⟩ := st
  obtain ⟨⟨hy, hy'⟩, -, hx⟩ := hst
  simp only [wiredStaLines, stationWords, sta2wIp_dotted, wiredstaIp_dotted (by omega : 100 ≤ y),
    Option.bind_eq_bind, Option.bind_some]
  refine ⟨_, rfl, ?_⟩
  refine says_table (by decide) (by omega) (.cons ?_ .nil)
  exact says_defaultRoute (by decide) (by decide) (by decide) (by omega) (by decide) (by decide)
    (by decide) hy'

/-- The rows with a station are those without an `X`. -/
lemma filter_words (rows : List Row) :
    (rows.map Row.words).filter (fun p => p.1 ≠ ['X']) = (stations rows).map stationWords := by
  induction rows with
  | nil => rfl
  | cons row rows ih =>
    cases row with
    | mesh x =>
      rw [List.map_cons, List.filter_cons_of_neg (by simp [Row.words]), ih]
      rfl
    | sta y x =>
      have hne : dotted [10, 1, 3, y] ≠ ['X'] := by
        intro h
        exact (targetToken_host 3 y).head_ne (c := 'X') (by decide) (h ▸ rfl)
      rw [List.map_cons, List.filter_cons_of_pos (by simp [Row.words, hne]), ih]
      rfl

/-- The stations of rows in the documented form. -/
lemma validStation_of_mem {rows : List Row} (hrows : ∀ row ∈ rows, row.Valid) {st : ℕ × ℕ}
    (hst : st ∈ stations rows) : ValidStation st := by
  obtain ⟨row, hrow, hst⟩ := List.mem_filterMap.mp hst
  cases row with
  | mesh x => cases hst
  | sta y x =>
    cases hst
    exact hrows _ hrow

/-- The mesh nodes of rows in the documented form. -/
lemma validMesh_of_mem {rows : List Row} (hrows : ∀ row ∈ rows, row.Valid) {row : Row}
    (hrow : row ∈ rows) : 1 ≤ row.meshNode ∧ row.meshNode < 100 := by
  cases row with
  | mesh x => exact hrows _ hrow
  | sta y x => exact (hrows _ hrow).2

/-- The mesh node of a station is the one of its row. -/
lemma meshNode_of_mem {rows : List Row} {st : ℕ × ℕ} (hst : st ∈ stations rows) :
    ∃ row ∈ rows, row.meshNode = st.2 := by
  obtain ⟨row, hrow, hst⟩ := List.mem_filterMap.mp hst
  cases row with
  | mesh x => cases hst
  | sta y x =>
    cases hst
    exact ⟨_, hrow, rfl⟩

/-- The mesh nodes of the output are those of the rows. -/
lemma sortedMeshNodes_words (rows : List Row) :
    ∃ xs : List ℕ, sortedMeshNodes (rows.map Row.words) = xs.map (fun x => dotted [10, 1, 2, x]) ∧
      ∀ x, x ∈ xs ↔ ∃ row ∈ rows, row.meshNode = x := by
  have hmem : ∀ w, w ∈ sortedMeshNodes (rows.map Row.words) ↔
      ∃ row ∈ rows, dotted [10, 1, 2, row.meshNode] = w := by
    intro w
    have hwords : ∀ row : Row, row.words.2 = dotted [10, 1, 2, row.meshNode] := by
      intro row
      cases row <;> rfl
    simp only [sortedMeshNodes, List.mem_mergeSort, List.mem_dedup, List.map_map, List.mem_map,
      Function.comp_apply, hwords]
  have hrange : sortedMeshNodes (rows.map Row.words) ∈
      Set.range (List.map fun x => dotted [10, 1, 2, x]) := by
    rw [Set.range_list_map]
    intro w hw
    obtain ⟨row, -, rfl⟩ := (hmem w).mp hw
    exact ⟨_, rfl⟩
  obtain ⟨xs, hxs⟩ := hrange
  refine ⟨xs, hxs.symm, fun x => ?_⟩
  have hx := hmem (dotted [10, 1, 2, x])
  rw [← hxs, List.mem_map] at hx
  constructor
  · intro hmemx
    obtain ⟨row, hrow, heq⟩ := hx.mp ⟨x, hmemx, rfl⟩
    exact ⟨row, hrow, (dotted_inj heq).2⟩
  · rintro ⟨row, hrow, rfl⟩
    obtain ⟨x', hx', heq⟩ := hx.mpr ⟨row, hrow, rfl⟩
    rwa [(dotted_inj heq).2] at hx'

/-- The tables that the script describes. -/
def routingBlocks (xs : List ℕ) (sts : List (ℕ × ℕ)) : List (Ipv4Addr × List RtblEntry) :=
  backhaulBlock :: (xs.map (meshBlock sts) ++ sts.map staBlock ++ sts.map wiredStaBlock)

/-- What the whole output says. -/
def outputItems (xs : List ℕ) (sts : List (ℕ × ℕ)) : List LineItem :=
  [.skip, .proto .none, .skip, .skip] ++ tableItems backhaulBlock ++ .skip ::
    (xs.flatMap (fun x => tableItems (meshBlock sts x)) ++ .skip ::
      (sts.flatMap (fun st => tableItems (staBlock st)) ++ .skip ::
        sts.flatMap fun st => tableItems (wiredStaBlock st)))

/-- What the heading says. -/
lemma says_heading {argv0 : List Char} (hargv0 : '\n' ∉ argv0) :
    List.Forall₂ Says (headingLines argv0)
      ([.skip, .proto .none, .skip, .skip] ++ tableItems backhaulBlock) := by
  have hcomment : '\n' ∉ " routing tables generated with ".toList ++ argv0 := by
    rw [List.mem_append, not_or]
    exact ⟨by decide, hargv0⟩
  refine .cons (says_comment hcomment) (.cons says_proto_none (.cons says_nil
    (.cons (says_comment (by decide)) ?_)))
  exact says_table (by decide) (by decide) (.cons (says_defaultRoute (by decide) (by decide)
    (by decide) (by decide) (by decide) (by decide) (by decide) (by decide)) .nil)

/-- **The output for input in the documented form**, line by line. -/
theorem genroutingtables_lines {argv0 fp : List Char} (hargv0 : '\n' ∉ argv0) {rows : List Row}
    (hfp : Documented fp rows) :
    ∃ (lines : List (List Char)) (xs : List ℕ),
      genroutingtables argv0 fp = some (lines.flatMap fun l => l ++ ['\n']) ∧
      List.Forall₂ Says lines (outputItems xs (stations rows)) ∧
      ∀ x, x ∈ xs ↔ ∃ row ∈ rows, row.meshNode = x := by
  obtain ⟨hpairs, hvalid⟩ := hfp
  obtain ⟨xs, hxs, hmem⟩ := sortedMeshNodes_words rows
  have hsts : ∀ st ∈ stations rows, ValidStation st := fun st => validStation_of_mem hvalid
  have hx : ∀ x ∈ xs, x < 100 := by
    intro x hx
    obtain ⟨row, hrow, rfl⟩ := (hmem x).mp hx
    exact (validMesh_of_mem hvalid hrow).2
  have hmesh := fun x hxm => meshLines_eq hsts (hx x hxm)
  have hsta := fun st hst => staLines_eq (hsts st hst)
  have hwired := fun st hst => wiredStaLines_eq (hsts st hst)
  choose! meshL hmeshL hmeshS using hmesh
  choose! staL hstaL hstaS using hsta
  choose! wiredL hwiredL hwiredS using hwired
  refine ⟨headingLines argv0 ++ ('#' :: " mesh APs".toList) :: (xs.flatMap meshL ++
    ('#' :: " STAs".toList) :: ((stations rows).flatMap staL ++
      ('#' :: " wired STAs".toList) :: (stations rows).flatMap wiredL)), xs, ?_, ?_, hmem⟩
  · simp only [genroutingtables, hpairs, filter_words, hxs, List.mapM_map, Option.bind_eq_bind,
      Option.bind_some, Function.comp_def]
    rw [mapM_of_forall hmeshL, mapM_of_forall hstaL, mapM_of_forall hwiredL]
    rfl
  · refine List.rel_append (says_heading hargv0) (.cons (says_comment (by decide)) ?_)
    refine List.rel_append (forall₂_flatMap hmeshS) (.cons (says_comment (by decide)) ?_)
    refine List.rel_append (forall₂_flatMap hstaS) (.cons (says_comment (by decide)) ?_)
    exact forall₂_flatMap hwiredS

/-- What the whole output does to a configuration. -/
lemma tablesAdded_outputItems (xs : List ℕ) (sts : List (ℕ × ℕ)) (cfg : RoutingConfig) :
    TablesAdded { cfg with proto := .none } (routingBlocks xs sts)
      ((outputItems xs sts).foldl LineItem.apply (cfg, 0)).1 := by
  have hblocks : ∀ {ι : Type} (block : ι → Ipv4Addr × List RtblEntry) (l : List ι)
      (state : RoutingConfig × Ipv4Addr), TablesAdded state.1 (l.map block)
        ((l.flatMap fun i => tableItems (block i)).foldl LineItem.apply state).1 := by
    intro ι block l state
    have h := tablesAdded_tables state.1 state.2 (l.map block)
    rwa [List.flatMap_map] at h
  simp only [outputItems, List.foldl_append, List.foldl_cons, List.foldl_nil, LineItem.apply]
  exact ((tablesAdded_table _ 0 backhaulBlock).append (hblocks _ xs _)).append
    (hblocks _ sts _) |>.append (hblocks _ sts _)

/-- **The output is accepted.** For input in the documented form the script succeeds, and its output
is read back as the tables of `routingBlocks`. -/
theorem loadRoutingConfig_genroutingtables {argv0 fp : List Char} (hargv0 : '\n' ∉ argv0)
    {rows : List Row} (hfp : Documented fp rows) :
    ∃ out cfg xs, genroutingtables argv0 fp = some out ∧ loadRoutingConfig {} out = .ok cfg ∧
      cfg.proto = .none ∧ NoEmptyTable cfg ∧
      (∀ addr, cfg.table addr = entriesFor (routingBlocks xs (stations rows)) addr) ∧
      ∀ x, x ∈ xs ↔ ∃ row ∈ rows, row.meshNode = x := by
  obtain ⟨lines, xs, hout, hmeans, hmem⟩ := genroutingtables_lines hargv0 hfp
  obtain ⟨hproto, htable, hnoEmpty⟩ := tablesAdded_outputItems xs (stations rows) {}
  refine ⟨_, _, xs, hout, loadRoutingConfig_lines hmeans {}, hproto, hnoEmpty ?_, htable, hmem⟩
  exact fun addr haddr => absurd haddr (AList.notMem_empty addr)

/-! ### Input in the documented form -/

/-- The words of a row, of which the first one starts no comment. -/
lemma word_words (row : Row) :
    Word row.words.1 ∧ Word row.words.2 ∧ row.words.1.head? ≠ some '#' := by
  cases row with
  | mesh x =>
    have hX : Word ['X'] := ⟨by decide, by simp [isSpace]⟩
    exact ⟨hX, word_dotted _ _ _ _, by simp [Row.words]⟩
  | sta y x =>
    exact ⟨word_dotted _ _ _ _, word_dotted _ _ _ _, (targetToken_host 3 y).head_ne (by decide)⟩

/-- The line of a row is no comment. -/
lemma head_strip_line {w v : List Char} (hw : Word w) (hcomment : w.head? ≠ some '#') :
    strip (line [w, v]) ≠ [] ∧ (strip (line [w, v])).head? ≠ some '#' := by
  obtain ⟨c, cs, rfl⟩ := List.exists_cons_of_ne_nil hw.ne_nil
  have hline : line [c :: cs, v] = c :: (cs ++ ([' '] ++ v) ++ ['\n']) := by
    rw [line, List.intercalate_cons_cons, List.intercalate_singleton]
    simp
  have hhead : (strip (c :: (cs ++ ([' '] ++ v) ++ ['\n']))).head? = some c :=
    head_rdropWhile_dropWhile (hw.not_space c List.mem_cons_self) _
  rw [hline]
  refine ⟨fun hnil => ?_, ?_⟩
  · rw [hnil] at hhead
    cases hhead
  · rw [hhead]
    exact hcomment

/-- **Rows in the documented ranges are input in the documented form.** -/
theorem documented_rowsText {rows : List Row} (hrows : ∀ row ∈ rows, row.Valid) :
    Documented (rowsText rows) rows := by
  have hwords : ∀ row : Row, ∀ w ∈ [row.words.1, row.words.2], Word w := by
    intro row w hw
    simp only [List.mem_cons, List.not_mem_nil, or_false] at hw
    rcases hw with rfl | rfl
    · exact (word_words row).1
    · exact (word_words row).2.1
  have hread : readLines (rowsText rows) =
      rows.map fun row => line [row.words.1, row.words.2] := by
    have hlines : ∀ l ∈ rows.map fun row => List.intercalate [' '] [row.words.1, row.words.2],
        OneLine l := by
      intro l hl
      obtain ⟨row, -, rfl⟩ := List.mem_map.mp hl
      exact oneLine_intercalate (hwords row)
    have h := readLines_flatMap hlines
    rwa [List.flatMap_map, List.map_map] at h
  have hfilter : ((readLines (rowsText rows)).map strip).filter
      (fun l => l ≠ [] && l.head? ≠ some '#') = (readLines (rowsText rows)).map strip := by
    rw [List.filter_eq_self]
    intro l hl
    rw [hread, List.map_map] at hl
    obtain ⟨row, -, rfl⟩ := List.mem_map.mp hl
    obtain ⟨hw, -, hcomment⟩ := word_words row
    obtain ⟨hne, hhead⟩ := head_strip_line (v := row.words.2) hw hcomment
    simp [hne, hhead]
  have hsplit : ∀ row : Row, split (strip (line [row.words.1, row.words.2])) =
      [row.words.1, row.words.2] := fun row => split_strip_line (hwords row)
  refine ⟨?_, hrows⟩
  rw [readPairs, hfilter, hread, List.map_map, List.map_map, List.mapM_map]
  refine mapM_of_forall fun row _ => ?_
  simp only [Function.comp_apply, hsplit]

end GenRoutingTables

end MeshSim
