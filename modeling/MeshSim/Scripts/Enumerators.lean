import MeshSim.Foundation.Choices
import MeshSim.Foundation.Generator

/-!
# Parameter enumerators

`scripts/modules/enumerators.py`: generators of parameter sets, which are built from a description
by `get_enumerator_from_dict`.

Parameter sets are Python dicts, and so objects that are changed in place and that several
generators may hold.  A heap keeps them under addresses; a description holds the addresses of the
dicts listed in it, and a generator yields addresses.  The order of the keys of a parameter set is
not part of the model: nothing in the module depends on it, and dicts are compared without it.

`denote` says which parameter sets a description stands for, as finite maps.  `enumerates_denote` is
the specification of all generators by rely and guarantee: dicts are only added to the heap.  Inside
`enum_cartesian` this is not so, since the caller changes the dict that the inner generator has just
yielded; there the inner generator does not rely on anything (`producesFresh_enumCartesian`).
-/

namespace MeshSim

namespace Enumerators

open Choices Generator

variable {κ α : Type} [DecidableEq κ]

/-! ### Dicts on a heap -/

/-- The address of a dict. -/
abbrev Addr := ℕ

/-- The dicts of parameter values. -/
abbrev Heap (κ α : Type) := List (AList fun _ : κ => α)

/-- The dict at an address. -/
def Heap.read (h : Heap κ α) (a : Addr) : AList fun _ : κ => α := h[a]?.getD ∅

/-- A new dict. -/
def Heap.alloc (h : Heap κ α) (d : AList fun _ : κ => α) : Addr × Heap κ α := (h.length, h ++ [d])

/-- `d[key] = v`. -/
def Heap.setItem (h : Heap κ α) (a : Addr) (key : κ) (v : α) : Heap κ α :=
  h.set a ((h.read a).insert key v)

/-- `d2.update(d1)`. -/
def Heap.update (h : Heap κ α) (d2 d1 : Addr) : Heap κ α := h.set d2 (h.read d1 ∪ h.read d2)

/-! ### Generators -/

/-- `enum_cartesian`, on the dict of the variables, whose order is that of its entries. -/
def enumCartesian (dictVars : AList fun _ : κ => List α) : Gen (Heap κ α) Addr :=
  match _hvars : dictVars.entries with
  | [] => .done
  | [⟨key, vals⟩] =>
    overList (fun val h =>
      let (a, h) := h.alloc (AList.singleton key val)
      .yield h a .done) vals
  | ⟨key, vals⟩ :: _ :: _ =>
    let dict2 := dictVars.erase key
    overList (fun v h =>
      (enumCartesian dict2 h).forEach fun d h => .yield (h.setItem d key v) d .done) vals
termination_by dictVars.entries.length
decreasing_by
  have herase : (dictVars.erase key).entries = dictVars.entries.kerase key := rfl
  rw [herase, _hvars]
  simp

/-- The body of the loops of `enum_cartesian_ext`: a copy of `d2`, updated with `d1`. -/
def joinItems (d1 d2 : Addr) : Gen (Heap κ α) Addr := fun h =>
  let (d2, h) := h.alloc (h.read d2)
  .yield (h.update d2 d1) d2 .done

/-- `enum_cartesian_ext`. -/
def enumCartesianExt (enums : List (Gen (Heap κ α) Addr)) : Gen (Heap κ α) Addr :=
  match _hlast : enums.getLast? with
  | none => .done
  | some E =>
    if enums.length = 1 then fun h => (E h).forEach emit
    else fun h =>
      match (E h).toList with
      | (none, h) => .raise h
      | (some E, h) =>
        (enumCartesianExt enums.dropLast h).forEach fun d1 => overList (joinItems d1) E
termination_by enums.length
decreasing_by
  have hpos := List.length_pos_of_mem (List.mem_of_mem_getLast? _hlast)
  rw [List.length_dropLast]
  omega

/-- `enum_union`. -/
def enumUnion (enums : List (Gen (Heap κ α) Addr)) : Gen (Heap κ α) Addr :=
  overList (fun e h => (e h).forEach emit) enums

/-- `enum_list`. -/
def enumList (listOfDicts : List Addr) : Gen (Heap κ α) Addr := overList emit listOfDicts

/-- `enum_singleton`. -/
def enumSingleton (varsDict : Addr) : Gen (Heap κ α) Addr := emit varsDict

/-- The dicts that `get_enumerator_from_dict` takes, by their type. -/
inductive Descr (κ α : Type) where
  /-- `{ "type": "cartesian", "vars": { "var_a": [ ... ], ... } }` -/
  | cartesian (vars : AList fun _ : κ => List α)
  /-- `{ "type": "cartesian_ext", "enums": [ { ... }, { ... }, ... ] }` -/
  | cartesianExt (enums : List (Descr κ α))
  /-- `{ "type": "union", "enums": [ { ... }, { ... }, ... ] }` -/
  | union (enums : List (Descr κ α))
  /-- `{ "type": "list", "list": [ { ... }, ... ] }` -/
  | list (list : List Addr)
  /-- `{ "type": "singleton", "vars": { "var_a": value_a, ... } }` -/
  | singleton (vars : Addr)
  /-- A dict of another type. -/
  | other (tp : String)

/-- Iterating over what `get_enumerator_from_dict` returns: `None` is not iterable. -/
def iterate : Option (Gen (Heap κ α) Addr) → Gen (Heap κ α) Addr
  | some g => g
  | none => .raise

mutual

/-- `get_enumerator_from_dict`, which is `None` for an unknown type. -/
def getEnumeratorFromDict : Descr κ α → Option (Gen (Heap κ α) Addr)
  | .cartesian vars => some (enumCartesian vars)
  | .cartesianExt enums => some (enumCartesianExt (getEnumerators enums))
  | .union enums => some (enumUnion (getEnumerators enums))
  | .list list => some (enumList list)
  | .singleton vars => some (enumSingleton vars)
  | .other _ => none

/-- The list `[ get_enumerator_from_dict(x) for x in d["enums"] ]`. -/
def getEnumerators : List (Descr κ α) → List (Gen (Heap κ α) Addr)
  | [] => []
  | d :: ds => iterate (getEnumeratorFromDict d) :: getEnumerators ds

end

/-! ### What a description stands for -/

/-- The values of the dict at an address. -/
def Heap.values (h : Heap κ α) (a : Addr) (k : κ) : Option α := (h.read a).lookup k

/-- The values listed for each variable, with its name. -/
def listed (vars : AList fun _ : κ => List α) : List (List (κ × α)) :=
  vars.entries.map fun e => e.2.map fun v => (e.1, v)

/-- The parameter set with some values. -/
def assign (t : List (κ × α)) (k : κ) : Option α := t.lookup k

/-- One parameter set out of several, in which the value of an earlier one wins. -/
def merge (ms : List (κ → Option α)) (k : κ) : Option α := ms.findSome? fun m => m k

mutual

/-- The parameter sets that a description stands for. -/
def denote (h : Heap κ α) : Descr κ α → List (κ → Option α)
  | .cartesian vars => (choices (listed vars)).map assign
  | .cartesianExt enums => (choices (denoteAll h enums)).map merge
  | .union enums => (denoteAll h enums).flatten
  | .list list => list.map h.values
  | .singleton vars => [h.values vars]
  | .other _ => []

/-- The parameter sets that some descriptions stand for, one after another. -/
def denoteAll (h : Heap κ α) : List (Descr κ α) → List (List (κ → Option α))
  | [] => []
  | d :: ds => denote h d :: denoteAll h ds

end

mutual

/-- The number of parameter sets: a product, a sum, or a number of dicts. -/
def count : Descr κ α → ℕ
  | .cartesian vars => (vars.entries.map fun e => e.2.length).prod
  | .cartesianExt enums => (countAll enums).prod
  | .union enums => (countAll enums).sum
  | .list list => list.length
  | .singleton _ => 1
  | .other _ => 0

/-- The numbers of parameter sets of some descriptions. -/
def countAll : List (Descr κ α) → List ℕ
  | [] => []
  | d :: ds => count d :: countAll ds

end

mutual

/-- A description of known types all through, with non-empty variables and components, whose dicts
are on the heap. -/
def Accepted (h : Heap κ α) : Descr κ α → Prop
  | .cartesian vars => vars.entries ≠ []
  | .cartesianExt enums => enums ≠ [] ∧ AllAccepted h enums
  | .union enums => AllAccepted h enums
  | .list list => ∀ a ∈ list, a < h.length
  | .singleton vars => vars < h.length
  | .other _ => False

/-- Some descriptions are accepted. -/
def AllAccepted (h : Heap κ α) : List (Descr κ α) → Prop
  | [] => True
  | d :: ds => Accepted h d ∧ AllAccepted h ds

end

/-! ### Heaps -/

/-- The address holds a dict with some values. -/
def Holds (h : Heap κ α) (a : Addr) (m : κ → Option α) : Prop := a < h.length ∧ h.values a = m

omit [DecidableEq κ] in
/-- Dicts that are added leave the others. -/
lemma read_of_isPrefix {h h' : Heap κ α} (hh : h <+: h') {a : Addr} (ha : a < h.length) :
    h'.read a = h.read a := by
  obtain ⟨more, rfl⟩ := hh
  rw [Heap.read, List.getElem?_append_left ha, Heap.read]

/-- Dicts that are added leave the values of the others. -/
lemma Holds.of_isPrefix {h h' : Heap κ α} {a : Addr} {m : κ → Option α} (hm : Holds h a m)
    (hh : h <+: h') : Holds h' a m := by
  refine ⟨hm.1.trans_le hh.length_le, ?_⟩
  rw [← hm.2]
  funext k
  rw [Heap.values, read_of_isPrefix hh hm.1, Heap.values]

omit [DecidableEq κ] in
/-- Changing a dict behind some others leaves these. -/
lemma isPrefix_set {h h' : Heap κ α} (hh : h <+: h') {a : Addr} (ha : h.length ≤ a)
    (d : AList fun _ : κ => α) : h <+: h'.set a d := by
  obtain ⟨more, rfl⟩ := hh
  rw [List.set_append_right _ _ ha]
  exact List.prefix_append _ _

omit [DecidableEq κ] in
/-- The dict that was changed. -/
lemma read_set_self {h : Heap κ α} {a : Addr} (ha : a < h.length) (d : AList fun _ : κ => α) :
    Heap.read (h.set a d) a = d := by
  rw [Heap.read, List.getElem?_set_self ha]
  rfl

omit [DecidableEq κ] in
/-- The dict that was added. -/
lemma read_alloc (h : Heap κ α) (d : AList fun _ : κ => α) : Heap.read (h ++ [d]) h.length = d := by
  simp [Heap.read]

/-! ### The cartesian enumerator -/

/-- The address holds a new dict with some values. -/
def HoldsFresh (h₀ h : Heap κ α) (a : Addr) (m : κ → Option α) : Prop :=
  h₀.length ≤ a ∧ Holds h a m

/-- The specification of `enum_cartesian`: it yields new dicts and relies on nothing. -/
def ProducesFresh : List (κ → Option α) → Heap κ α → Outcome (Heap κ α) Addr → Prop :=
  Produces (fun _ _ => True) (· <+: ·) HoldsFresh

/-- A new dict stays new for a generator that was started earlier. -/
lemma HoldsFresh.start (h₀ h₁ h : Heap κ α) (a : Addr) (m : κ → Option α) (hh : h₀ <+: h₁)
    (hm : HoldsFresh h₁ h a m) : HoldsFresh h₀ h a m :=
  ⟨hh.length_le.trans hm.1, hm.2⟩

/-- Sequential composition. -/
lemma ProducesFresh.andThen {ms ms' : List (κ → Option α)} {h : Heap κ α}
    {o : Outcome (Heap κ α) Addr} {g : Gen (Heap κ α) Addr} (ho : ProducesFresh ms h o)
    (hg : ∀ h, ProducesFresh ms' h (g h)) : ProducesFresh (ms ++ ms') h (o.andThen g) := by
  have hkept : ∀ s s' s'' : Heap κ α, True → True → True := fun _ _ _ _ _ => trivial
  exact Produces.andThen hkept (fun _ _ _ => trivial) (fun _ _ _ => trivial)
    (fun _ _ _ hs hs' => hs.trans hs') HoldsFresh.start ho fun s _ => hg s

/-- A loop over values. -/
lemma producesFresh_overList {ι : Type} {body : ι → Gen (Heap κ α) Addr}
    {f : ι → List (κ → Option α)} (hbody : ∀ x h, ProducesFresh (f x) h (body x h)) (xs : List ι)
    (h : Heap κ α) : ProducesFresh (xs.flatMap f) h (overList body xs h) := by
  induction xs generalizing h with
  | nil => exact ⟨h, rfl, List.prefix_rfl⟩
  | cons x xs ih =>
    exact (hbody x h).andThen ih

/-- Yielding a new dict. -/
lemma producesFresh_alloc (h : Heap κ α) (d : AList fun _ : κ => α) :
    ProducesFresh [fun k => d.lookup k] h (.yield (h.alloc d).2 (h.alloc d).1 .done) := by
  refine ⟨h ++ [d], h.length, _, rfl, List.prefix_append _ _, ⟨le_rfl, ?_, ?_⟩,
    fun s _ => ⟨s, rfl, List.prefix_rfl⟩⟩
  · simp
  · funext k
    rw [Heap.values, read_alloc]

/-- Setting an item of each dict that is yielded. -/
lemma ProducesFresh.setItem {ms : List (κ → Option α)} {h : Heap κ α}
    {o : Outcome (Heap κ α) Addr} (ho : ProducesFresh ms h o) (key : κ) (v : α) :
    ProducesFresh (ms.map fun m => Function.update m key (some v)) h
      (o.forEach fun d h => .yield (h.setItem d key v) d .done) := by
  induction ms generalizing h o with
  | nil =>
    obtain ⟨s, rfl, hs⟩ := ho
    exact ⟨s, rfl, hs⟩
  | cons m ms ih =>
    obtain ⟨s, a, rest, rfl, hs, ⟨hnew, ha, hm⟩, hrest⟩ := ho
    refine ⟨s.setItem a key v, a, _, rfl, isPrefix_set hs hnew _, ⟨hnew, ?_, ?_⟩,
      fun s' _ => ih (hrest s' trivial)⟩
    · rw [Heap.setItem, List.length_set]
      exact ha
    · funext k
      subst hm
      rw [Heap.values, Heap.setItem, read_set_self ha]
      change ((s.read a).insert key v).lookup k = Function.update (s.values a) key (some v) k
      by_cases hk : k = key
      · subst hk
        rw [AList.lookup_insert, Function.update_self]
      · rw [AList.lookup_insert_ne hk, Function.update_of_ne hk]
        rfl

/-- The enumerator of a single variable. -/
lemma enumCartesian_singleton (key : κ) (vals : List α) (hnodup) :
    enumCartesian ⟨[⟨key, vals⟩], hnodup⟩ = overList (fun val h =>
      .yield (Heap.alloc h (AList.singleton key val)).2 (Heap.alloc h (AList.singleton key val)).1
        .done) vals := by
  rw [enumCartesian]

/-- The enumerator of several variables. -/
lemma enumCartesian_cons (key : κ) (vals : List α) (rest : List (Sigma fun _ : κ => List α))
    (hrest : rest ≠ []) (hnodup) (hnodup') :
    enumCartesian ⟨⟨key, vals⟩ :: rest, hnodup⟩ = overList (fun v h =>
      (enumCartesian ⟨rest, hnodup'⟩ h).forEach fun d h =>
        .yield (Heap.setItem h d key v) d .done) vals := by
  obtain ⟨e, rest, rfl⟩ := List.exists_cons_of_ne_nil hrest
  have herase : AList.erase key (⟨⟨key, vals⟩ :: e :: rest, hnodup⟩ : AList _) =
      ⟨e :: rest, hnodup'⟩ := AList.ext (List.kerase_cons_eq (a := key) rfl)
  rw [enumCartesian]
  simp only [herase]

/-- One more variable in front of a choice. -/
lemma assign_cons (key : κ) (v : α) (t : List (κ × α)) :
    assign ((key, v) :: t) = Function.update (assign t) key (some v) := by
  funext k
  rw [assign, List.lookup_cons]
  by_cases hk : k = key
  · subst hk
    rw [beq_self_eq_true, Function.update_self]
  · rw [beq_false_of_ne hk, Function.update_of_ne hk]
    rfl

/-- The dict with one item. -/
lemma lookup_singleton (key : κ) (v : α) (k : κ) :
    (AList.singleton key v : AList fun _ : κ => α).lookup k = assign [(key, v)] k := by
  rw [assign_cons, ← AList.insert_empty]
  by_cases hk : k = key
  · subst hk
    rw [AList.lookup_insert, Function.update_self]
  · rw [AList.lookup_insert_ne hk, Function.update_of_ne hk]
    rfl

/-- The parameter sets with a choice for one variable. -/
lemma map_assign_singleton (key : κ) (vals : List α) (hnodup) :
    (choices (listed ⟨[⟨key, vals⟩], hnodup⟩)).map assign =
      vals.flatMap fun v => [assign [(key, v)]] := by
  simp only [listed, choices_singleton, List.map_eq_flatMap, List.flatMap_assoc,
    List.flatMap_singleton]

/-- The parameter sets with a choice for one more variable. -/
lemma map_assign_cons (key : κ) (vals : List α) (rest : List (Sigma fun _ : κ => List α)) (hnodup)
    (hnodup') :
    (choices (listed ⟨⟨key, vals⟩ :: rest, hnodup⟩)).map assign = vals.flatMap fun v =>
      ((choices (listed ⟨rest, hnodup'⟩)).map assign).map fun m =>
        Function.update m key (some v) := by
  simp only [listed, List.map_cons, choices_cons, List.map_flatMap, List.flatMap_map, List.map_map,
    Function.comp_def, assign_cons]

/-- **The cartesian enumerator** yields a new dict for each choice of a listed value per
variable. -/
theorem producesFresh_enumCartesian (vars : AList fun _ : κ => List α) (hvars : vars.entries ≠ [])
    (h : Heap κ α) :
    ProducesFresh ((choices (listed vars)).map assign) h (enumCartesian vars h) := by
  obtain ⟨entries, hnodup⟩ := vars
  induction entries generalizing h with
  | nil => exact absurd rfl hvars
  | cons e rest ih =>
    obtain ⟨key, vals⟩ := e
    by_cases hrest : rest = []
    · subst hrest
      rw [enumCartesian_singleton, map_assign_singleton]
      refine producesFresh_overList (fun val h => ?_) vals h
      have halloc := producesFresh_alloc h (AList.singleton key val)
      simp only [lookup_singleton] at halloc
      exact halloc
    · have hnodup' : rest.NodupKeys := (List.nodupKeys_cons.mp hnodup).2
      rw [enumCartesian_cons key vals rest hrest hnodup hnodup', map_assign_cons]
      exact producesFresh_overList (fun v h => (ih h hnodup' hrest).setItem key v) vals h

/-! ### All enumerators -/

/-- A generator that yields dicts with the values `ms`, on every heap with the dicts of `h₀`: it
relies on its dicts being left as they are, and only adds dicts. -/
def Enumerates (h₀ : Heap κ α) (ms : List (κ → Option α)) (g : Gen (Heap κ α) Addr) : Prop :=
  ∀ h, h₀ <+: h → Produces (· <+: ·) (· <+: ·) (fun _ => Holds) ms h (g h)

omit [DecidableEq κ] in
/-- The heap with the same dicts. -/
lemma isPrefix_refl (h : Heap κ α) : h <+: h := List.prefix_rfl

omit [DecidableEq κ] in
/-- Adding dicts twice. -/
lemma isPrefix_trans (h h' h'' : Heap κ α) (hh : h <+: h') (hh' : h' <+: h'') : h <+: h'' :=
  hh.trans hh'

/-- The specification of `enum_cartesian` for callers that leave the dicts as they are. -/
lemma enumerates_enumCartesian (h₀ : Heap κ α) (vars : AList fun _ : κ => List α)
    (hvars : vars.entries ≠ []) :
    Enumerates h₀ ((choices (listed vars)).map assign) (enumCartesian vars) := by
  intro h _
  exact (producesFresh_enumCartesian vars hvars h).mono (fun _ _ _ => trivial) (fun _ _ => id)
    fun _ _ _ _ _ hm => hm.2

/-- Yielding what another enumerator yields. -/
lemma Enumerates.forEach_emit {h₀ : Heap κ α} {ms : List (κ → Option α)}
    {g : Gen (Heap κ α) Addr} (hg : Enumerates h₀ ms g) :
    Enumerates h₀ ms fun h => (g h).forEach emit := by
  intro h hh
  have hloop := (hg h hh).forEach isPrefix_trans (f := fun m => [m])
    fun s r m _ hm => produces_emit isPrefix_refl hm
  rwa [List.flatMap_singleton'] at hloop

/-- The union enumerator. -/
theorem enumerates_enumUnion {ι : Type} {h₀ : Heap κ α} {m : ι → List (κ → Option α)}
    {g : ι → Gen (Heap κ α) Addr} {ds : List ι} (hds : ∀ d ∈ ds, Enumerates h₀ (m d) (g d)) :
    Enumerates h₀ (ds.map m).flatten (enumUnion (ds.map g)) := by
  intro h hh
  apply produces_overList isPrefix_refl isPrefix_trans
  rw [List.forall₂_map_left_iff, List.forall₂_map_right_iff, List.forall₂_same]
  exact fun d hd s hs => (hds d hd).forEach_emit s (hh.trans hs)

/-- The list enumerator. -/
theorem enumerates_enumList {h₀ : Heap κ α} {list : List Addr} (hlist : ∀ a ∈ list, a < h₀.length) :
    Enumerates h₀ (list.map h₀.values) (enumList list) := by
  intro h hh
  have hloop : Produces (· <+: ·) (· <+: ·) (fun _ => Holds)
      (list.map fun a => [h₀.values a]).flatten h (enumList list h) := by
    apply produces_overList isPrefix_refl isPrefix_trans
    rw [List.forall₂_map_right_iff, List.forall₂_same]
    intro a ha s hs
    have hm : Holds h₀ a (h₀.values a) := ⟨hlist a ha, rfl⟩
    exact produces_emit isPrefix_refl (hm.of_isPrefix (hh.trans hs))
  rwa [← List.flatMap_def, ← List.map_eq_flatMap] at hloop

/-- The singleton enumerator. -/
theorem enumerates_enumSingleton {h₀ : Heap κ α} {vars : Addr} (hvars : vars < h₀.length) :
    Enumerates h₀ [h₀.values vars] (enumSingleton vars) := by
  intro h hh
  have hm : Holds h₀ vars (h₀.values vars) := ⟨hvars, rfl⟩
  exact produces_emit isPrefix_refl (hm.of_isPrefix hh)

/-! ### The extended cartesian enumerator -/

/-- A copy updated with another dict has the values of both, and those of the other one win. -/
lemma lookup_union (d1 d2 : AList fun _ : κ => α) (k : κ) :
    (d1 ∪ d2).lookup k = merge [fun k => d1.lookup k, fun k => d2.lookup k] k := by
  simp only [merge, List.findSome?_cons, List.findSome?_nil]
  by_cases hk : k ∈ d1
  · obtain ⟨v, hv⟩ := Option.isSome_iff_exists.mp (AList.lookup_isSome.mpr hk)
    rw [AList.lookup_union_left hk, hv]
  · rw [AList.lookup_union_right hk, AList.lookup_eq_none.mpr hk]
    cases d2.lookup k <;> rfl

/-- Joining two dicts yields a new one. -/
lemma produces_joinItems {h : Heap κ α} {d1 d2 : Addr} {m1 m2 : κ → Option α}
    (h1 : Holds h d1 m1) (h2 : Holds h d2 m2) :
    Produces (· <+: ·) (· <+: ·) (fun _ => Holds) [merge [m1, m2]] h (joinItems d1 d2 h) := by
  have hcopy : h <+: h ++ [h.read d2] := List.prefix_append _ _
  have hlength : h.length < (h ++ [h.read d2]).length := by simp
  refine ⟨_, h.length, _, rfl, isPrefix_set hcopy le_rfl _, ⟨?_, ?_⟩,
    fun s _ => ⟨s, rfl, List.prefix_rfl⟩⟩
  · change h.length < (Heap.update (h ++ [h.read d2]) h.length d1).length
    rwa [Heap.update, List.length_set]
  · funext k
    change ((Heap.update (h ++ [h.read d2]) h.length d1).read h.length).lookup k = _
    rw [Heap.update, read_set_self hlength, read_alloc, read_of_isPrefix hcopy h1.1, lookup_union,
      ← h1.2, ← h2.2]
    rfl

/-- Joining one dict with several yields a new one for each. -/
lemma produces_overList_joinItems {h : Heap κ α} {d1 : Addr} {m1 : κ → Option α} {E : List Addr}
    {ms : List (κ → Option α)} (h1 : Holds h d1 m1) (hE : List.Forall₂ (Holds h) E ms) :
    Produces (· <+: ·) (· <+: ·) (fun _ => Holds) (ms.map fun m2 => merge [m1, m2]) h
      (overList (joinItems d1) E h) := by
  have hloop : Produces (· <+: ·) (· <+: ·) (fun _ => Holds)
      (ms.map fun m2 => [merge [m1, m2]]).flatten h (overList (joinItems d1) E h) := by
    apply produces_overList isPrefix_refl isPrefix_trans
    rw [List.forall₂_map_right_iff]
    exact hE.imp fun d2 m2 h2 s hs => produces_joinItems (h1.of_isPrefix hs) (h2.of_isPrefix hs)
  rwa [← List.flatMap_def, ← List.map_eq_flatMap] at hloop

omit [DecidableEq κ] in
/-- The parameter sets with one component. -/
lemma map_merge_singleton (ms : List (κ → Option α)) : (choices [ms]).map merge = ms := by
  have hmerge : ∀ m : κ → Option α, merge [m] = m := by
    intro m
    funext k
    rw [merge, List.findSome?_cons]
    cases m k <;> rfl
  rw [choices_singleton, List.map_map, Function.comp_def]
  simp only [hmerge, List.map_id']

omit [DecidableEq κ] in
/-- The parameter sets with one more component. -/
lemma map_merge_concat (mss : List (List (κ → Option α))) (ms : List (κ → Option α)) :
    (choices (mss ++ [ms])).map merge =
      ((choices mss).map merge).flatMap fun m1 => ms.map fun m2 => merge [m1, m2] := by
  have hmerge : ∀ (t : List (κ → Option α)) (m2 : κ → Option α),
      merge (t ++ [m2]) = merge [merge t, m2] := by
    intro t m2
    funext k
    simp only [merge, List.findSome?_append, List.findSome?_cons, List.findSome?_nil]
    cases List.findSome? (fun m => m k) t <;> cases m2 k <;> rfl
  simp only [choices_concat, List.map_flatMap, List.map_map, List.flatMap_map, Function.comp_def,
    hmerge]

/-- The enumerator of a single component. -/
lemma enumCartesianExt_singleton (g : Gen (Heap κ α) Addr) :
    enumCartesianExt [g] = fun h => (g h).forEach emit := by
  rw [enumCartesianExt]
  rfl

/-- The enumerator of several components. -/
lemma enumCartesianExt_of_getLast {gs : List (Gen (Heap κ α) Addr)} {g : Gen (Heap κ α) Addr}
    (hlast : gs.getLast? = some g) (hlength : gs.length ≠ 1) {h h' : Heap κ α} {E : List Addr}
    (hE : (g h).toList = (some E, h')) :
    enumCartesianExt gs h =
      (enumCartesianExt gs.dropLast h').forEach fun d1 => overList (joinItems d1) E := by
  have heq : enumCartesianExt gs = fun h => match (g h).toList with
      | (none, h) => .raise h
      | (some E, h) =>
        (enumCartesianExt gs.dropLast h).forEach fun d1 => overList (joinItems d1) E := by
    rw [enumCartesianExt]
    split
    · next hnone => rw [hlast] at hnone; cases hnone
    · next E' hsome =>
      rw [hlast] at hsome
      cases hsome
      exact if_neg hlength
  rw [heq]
  simp only [hE]

/-- **The extended cartesian enumerator** joins one dict per component, the last varying fastest. -/
theorem enumerates_enumCartesianExt {ι : Type} {h₀ : Heap κ α} {m : ι → List (κ → Option α)}
    {g : ι → Gen (Heap κ α) Addr} {ds : List ι} (hne : ds ≠ [])
    (hds : ∀ d ∈ ds, Enumerates h₀ (m d) (g d)) :
    Enumerates h₀ ((choices (ds.map m)).map merge) (enumCartesianExt (ds.map g)) := by
  induction ds using List.reverseRecOn with
  | nil => exact absurd rfl hne
  | append_singleton ds d ih =>
    have hd := hds d (List.mem_append_right _ (List.mem_singleton_self d))
    rw [List.map_append, List.map_append, List.map_singleton, List.map_singleton]
    by_cases hds' : ds = []
    · subst hds'
      rw [List.map_nil, List.map_nil, List.nil_append, List.nil_append, enumCartesianExt_singleton,
        map_merge_singleton]
      exact hd.forEach_emit
    · have ih := ih hds' fun d' hd' => hds d' (List.mem_append_left _ hd')
      rw [map_merge_concat]
      intro h hh
      obtain ⟨E, h', hE, hh', hmeans⟩ := (hd h hh).toList isPrefix_refl isPrefix_trans
        fun _ _ _ _ hs hm => hm.of_isPrefix hs
      have hlength : (ds.map g ++ [g d]).length ≠ 1 := by
        have hpos := List.length_pos_iff.mpr hds'
        rw [List.length_append, List.length_map, List.length_singleton]
        omega
      rw [enumCartesianExt_of_getLast List.getLast?_concat hlength hE, List.dropLast_concat]
      refine Produces.start isPrefix_trans (fun _ _ _ _ _ _ hm => hm) hh' ?_
      refine (ih h' (hh.trans hh')).forEach isPrefix_trans fun s d1 m1 hs hm1 => ?_
      exact produces_overList_joinItems hm1 (hmeans.imp fun d2 m2 hm2 => hm2.of_isPrefix hs)

/-! ### Descriptions -/

/-- The enumerators are built one by one. -/
lemma getEnumerators_eq (ds : List (Descr κ α)) :
    getEnumerators ds = ds.map fun d => iterate (getEnumeratorFromDict d) := by
  induction ds with
  | nil => rfl
  | cons d ds ih => rw [getEnumerators, ih, List.map_cons]

/-- The descriptions stand for something one by one. -/
lemma denoteAll_eq (h : Heap κ α) (ds : List (Descr κ α)) : denoteAll h ds = ds.map (denote h) := by
  induction ds with
  | nil => rfl
  | cons d ds ih => rw [denoteAll, ih, List.map_cons]

mutual

/-- A description stands for as many parameter sets as it should. -/
lemma length_denote (h : Heap κ α) : ∀ d : Descr κ α, (denote h d).length = count d
  | .cartesian vars => by
    rw [denote, count, List.length_map, length_choices, listed, List.map_map]
    simp only [Function.comp_def, List.length_map]
  | .cartesianExt enums => by
    rw [denote, count, List.length_map, length_choices, lengths_denoteAll h enums]
  | .union enums => by
    rw [denote, count, List.length_flatten, lengths_denoteAll h enums]
  | .list list => by rw [denote, count, List.length_map]
  | .singleton vars => rfl
  | .other tp => rfl

/-- Some descriptions stand for as many parameter sets as they should. -/
lemma lengths_denoteAll (h : Heap κ α) :
    ∀ ds : List (Descr κ α), (denoteAll h ds).map List.length = countAll ds
  | [] => rfl
  | d :: ds => by
    rw [denoteAll, countAll, List.map_cons, length_denote h d, lengths_denoteAll h ds]

end

mutual

/-- **Every accepted description** yields the parameter sets that it stands for. -/
theorem enumerates_denote (h : Heap κ α) : ∀ d : Descr κ α, Accepted h d →
    Enumerates h (denote h d) (iterate (getEnumeratorFromDict d))
  | .cartesian vars, hd => enumerates_enumCartesian h vars hd
  | .cartesianExt enums, hd => by
    rw [denote, getEnumeratorFromDict, denoteAll_eq, getEnumerators_eq]
    exact enumerates_enumCartesianExt hd.1 (enumerates_denoteAll h enums hd.2)
  | .union enums, hd => by
    rw [denote, getEnumeratorFromDict, denoteAll_eq, getEnumerators_eq]
    exact enumerates_enumUnion (enumerates_denoteAll h enums hd)
  | .list list, hd => enumerates_enumList hd
  | .singleton vars, hd => enumerates_enumSingleton hd
  | .other tp, hd => hd.elim

/-- Each of some accepted descriptions yields the parameter sets that it stands for. -/
theorem enumerates_denoteAll (h : Heap κ α) : ∀ ds : List (Descr κ α), AllAccepted h ds →
    ∀ d ∈ ds, Enumerates h (denote h d) (iterate (getEnumeratorFromDict d))
  | [], _ => List.forall_mem_nil _
  | d :: ds, hds =>
    List.forall_mem_cons.mpr ⟨enumerates_denote h d hds.1, enumerates_denoteAll h ds hds.2⟩

end

/-- An accepted description has an enumerator. -/
lemma exists_enumerator {h : Heap κ α} {d : Descr κ α} (hd : Accepted h d) :
    ∃ g, getEnumeratorFromDict d = some g := by
  cases d with
  | other tp => exact hd.elim
  | _ => exact ⟨_, rfl⟩

/-- **Enumerators enumerate what their description stands for.** Listing an accepted description
succeeds, leaves the dicts that were there, and gives dicts with the values in `denote`, in order,
as many as `count` says; the choices behind `denote` are all combinations of list positions, each
once and with the first one varying slowest; and every dict has, in all later states and in the end,
the content that it has when it is yielded. -/
theorem enumerator_lists_denotation (h : Heap κ α) (d : Descr κ α) (hd : Accepted h d) :
    ∃ g addrs hf, getEnumeratorFromDict d = some g ∧ (g h).toList = (some addrs, hf) ∧ h <+: hf ∧
      List.Forall₂ (Holds hf) addrs (denote h d) ∧ addrs.length = count d ∧
      (∀ vars : AList fun _ : κ => List α, LexChoices (listed vars) (choices (listed vars))) ∧
      (∀ enums : List (Descr κ α),
        LexChoices (denoteAll h enums) (choices (denoteAll h enums))) ∧
      (g h).trace.map Prod.snd = addrs ∧
      (g h).trace.Pairwise (fun p q => p.2 < p.1.length ∧ q.1.read p.2 = p.1.read p.2) ∧
      ∀ p ∈ (g h).trace, p.2 < p.1.length ∧ hf.read p.2 = p.1.read p.2 := by
  obtain ⟨g, hg⟩ := exists_enumerator hd
  have hproduces := enumerates_denote h d hd h List.prefix_rfl
  rw [hg, iterate] at hproduces
  have hkeep : ∀ (s s' : Heap κ α) (a : Addr) (m : κ → Option α), s <+: s' → Holds s a m →
      Holds s' a m := fun s s' a m hs hm => hm.of_isPrefix hs
  obtain ⟨addrs, hf, hlist, hhf, hmeans⟩ :=
    hproduces.toList isPrefix_refl isPrefix_trans hkeep
  obtain ⟨hpair, hall, htrace⟩ := hproduces.trace isPrefix_refl isPrefix_trans hkeep
  have hboth : List.Forall₂ (fun p m => p.2 < p.1.length ∧ Holds p.1 p.2 m) (g h).trace
      (denote h d) := htrace.imp fun p m hm => ⟨hm.1, hm⟩
  have haddr := ((List.forall₂_and_left _ _).mp hboth).1
  refine ⟨g, addrs, hf, hg, hlist, hhf, hmeans, ?_, fun vars => lexChoices_choices _,
    fun enums => lexChoices_choices _, Outcome.map_snd_trace hlist, ?_, fun p hp => ?_⟩
  · rw [hmeans.length_eq, length_denote]
  · exact hpair.imp_of_mem fun hp _ hpq => ⟨haddr _ hp, read_of_isPrefix hpq (haddr _ hp)⟩
  · have hend := (hall p hp).2
    rw [hlist] at hend
    exact ⟨haddr p hp, read_of_isPrefix hend (haddr p hp)⟩

/-- The example of `_tests`: two empty dicts, joined with a variable `a`. -/
def testExample : Descr String ℕ :=
  .cartesianExt [.singleton 0,
    .cartesianExt [.cartesian (AList.singleton "a" [1, 2, 3, 4]), .singleton 1]]

/-- The enumerator of the example lists the four dicts that the test expects. -/
theorem enumerator_lists_denotation_test :
    ∃ g addrs hf, getEnumeratorFromDict testExample = some g ∧
      (g [∅, ∅]).toList = (some addrs, hf) ∧
      addrs.map (fun a => hf.values a "a") = [some 1, some 2, some 3, some 4] := by
  have haccepted : Accepted [∅, ∅] testExample := by
    simp [testExample, Accepted, AllAccepted]
  obtain ⟨g, addrs, hf, hg, hlist, -, hmeans, -⟩ :=
    enumerator_lists_denotation [∅, ∅] testExample haccepted
  refine ⟨g, addrs, hf, hg, hlist, ?_⟩
  have hvalues : addrs.map (fun a => hf.values a "a") =
      (denote [∅, ∅] testExample).map fun m => m "a" := by
    rw [← List.forall₂_eq_eq_eq, List.forall₂_map_left_iff, List.forall₂_map_right_iff]
    exact hmeans.imp fun a m hm => congrFun hm.2 "a"
  rw [hvalues]
  decide

end Enumerators

end MeshSim
