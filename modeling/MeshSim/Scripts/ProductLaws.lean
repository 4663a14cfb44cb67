import MeshSim.Scripts.Enumerators

/-!
# Laws of the product enumerators

The sequences of dicts that enumerators yield, as an algebra: a component of `enum_cartesian_ext`
that is such an enumerator itself may be replaced by its components, an empty dict as a component
makes no difference, a union as the first component distributes, and `enum_cartesian` is the product
of its variables (`product_laws`).

All of this comes down to `product`, which joins each parameter set of one sequence with each one of
another: it is what `enum_cartesian_ext` does with several components (`map_merge_append`), in
whatever way they are grouped.
-/

namespace MeshSim

namespace Enumerators

open Choices Generator

variable {κ α : Type}

/-! ### Products of sequences -/

/-- Each parameter set of one sequence joined with each one of another, which varies fastest. -/
def product (ms ms' : List (κ → Option α)) : List (κ → Option α) :=
  ms.flatMap fun m => ms'.map fun m' => merge [m, m']

/-- The parameter set without values. -/
def emptySet : κ → Option α := fun _ => none

/-- Merging can be done in two parts. -/
lemma merge_append (s t : List (κ → Option α)) : merge (s ++ t) = merge [merge s, merge t] := by
  funext k
  simp only [merge, List.findSome?_append, List.findSome?_cons, List.findSome?_nil]
  cases List.findSome? (fun m => m k) s <;> cases List.findSome? (fun m => m k) t <;> rfl

/-- The empty parameter set adds nothing. -/
lemma merge_emptySet (m : κ → Option α) : merge [m, emptySet] = m := by
  funext k
  simp only [merge, emptySet, List.findSome?_cons, List.findSome?_nil]
  cases m k <;> rfl

/-- **The components may be grouped**: the parameter sets of some components and of others behind
them are the products of both. -/
theorem map_merge_append (mss mss' : List (List (κ → Option α))) :
    (choices (mss ++ mss')).map merge =
      product ((choices mss).map merge) ((choices mss').map merge) := by
  simp only [product, choices_append, List.map_flatMap, List.flatMap_map, List.map_map,
    Function.comp_def, merge_append]

/-- A product with the empty parameter set. -/
lemma product_emptySet (ms : List (κ → Option α)) : product ms [emptySet] = ms := by
  simp only [product, List.map_singleton, merge_emptySet]
  exact List.flatMap_singleton' ms

/-- Nesting some components changes nothing. -/
lemma map_merge_nest (X Y Z : List (List (κ → Option α))) :
    (choices (X ++ [(choices Y).map merge] ++ Z)).map merge =
      (choices (X ++ Y ++ Z)).map merge := by
  rw [map_merge_append, map_merge_append, map_merge_singleton, map_merge_append (X ++ Y),
    map_merge_append X]

/-- The empty parameter set as a component changes nothing. -/
lemma map_merge_emptySet (X Z : List (List (κ → Option α))) :
    (choices (X ++ [[emptySet]] ++ Z)).map merge = (choices (X ++ Z)).map merge := by
  rw [map_merge_append, map_merge_append, map_merge_singleton, product_emptySet, map_merge_append]

/-- A union as the first component distributes. -/
lemma map_merge_union (U Z : List (List (κ → Option α))) :
    (choices (U.flatten :: Z)).map merge =
      (U.map fun ms => (choices (ms :: Z)).map merge).flatten := by
  rw [choices_flatten_cons, List.map_flatMap, List.flatMap_def]

variable [DecidableEq κ]

/-- Parameter sets with one value each, merged. -/
lemma merge_map_assign (t : List (κ × α)) : merge (t.map fun p => assign [p]) = assign t := by
  induction t with
  | nil => rfl
  | cons p t ih =>
    funext k
    have ih : List.findSome? (fun m => m k) (t.map fun p => assign [p]) = t.lookup k :=
      congrFun ih k
    rw [merge, List.map_cons, List.findSome?_cons, ih, assign_cons, assign_cons]
    by_cases hk : k = p.1
    · rw [hk, Function.update_self, Function.update_self]
    · rw [Function.update_of_ne hk, Function.update_of_ne hk]
      rfl

/-- The parameter sets of several variables are the products of those of one variable each. -/
lemma map_assign_listed (vars : AList fun _ : κ => List α) :
    (choices (listed vars)).map assign = (choices (vars.entries.map fun e =>
      (choices (listed (AList.singleton e.1 e.2))).map assign)).map merge := by
  have hsingle : (vars.entries.map fun e =>
      (choices (listed (AList.singleton e.1 e.2))).map assign) =
        (listed vars).map (List.map fun p => assign [p]) := by
    rw [listed, List.map_map]
    refine List.map_congr_left fun e _ => ?_
    have hlisted : listed (AList.singleton e.1 e.2) = [e.2.map fun v => (e.1, v)] := rfl
    rw [hlisted, choices_singleton, List.map_map]
    rfl
  rw [hsingle, choices_map, List.map_map]
  exact List.map_congr_left fun t _ => (merge_map_assign t).symm

/-! ### Sequences of parameter sets -/

/-- A sequence of parameter sets: a generator that yields them, whenever the dicts of a heap are
there. -/
structure ParamSeq (h₀ : Heap κ α) where
  /-- The generator. -/
  gen : Gen (Heap κ α) Addr
  /-- The parameter sets. -/
  sets : List (κ → Option α)
  /-- The generator yields the parameter sets. -/
  enumerates : Enumerates h₀ sets gen

namespace ParamSeq

variable {h₀ : Heap κ α}

/-- The dicts of a list. -/
def list (dicts : List Addr) (hdicts : ∀ a ∈ dicts, a < h₀.length) : ParamSeq h₀ where
  gen := enumList dicts
  sets := dicts.map h₀.values
  enumerates := enumerates_enumList hdicts

/-- A single dict. -/
def singleton (dict : Addr) (hdict : dict < h₀.length) : ParamSeq h₀ where
  gen := enumSingleton dict
  sets := [h₀.values dict]
  enumerates := enumerates_enumSingleton hdict

/-- The values of some variables. -/
def cartesian (vars : AList fun _ : κ => List α) (hvars : vars.entries ≠ []) : ParamSeq h₀ where
  gen := enumCartesian vars
  sets := (choices (listed vars)).map assign
  enumerates := enumerates_enumCartesian h₀ vars hvars

/-- The product of some sequences. -/
def cartesianExt (X : List (ParamSeq h₀)) (hX : X ≠ []) : ParamSeq h₀ where
  gen := enumCartesianExt (X.map gen)
  sets := (choices (X.map sets)).map merge
  enumerates := enumerates_enumCartesianExt hX fun s _ => s.enumerates

/-- The union of some sequences. -/
def union (U : List (ParamSeq h₀)) : ParamSeq h₀ where
  gen := enumUnion (U.map gen)
  sets := (U.map sets).flatten
  enumerates := enumerates_enumUnion fun s _ => s.enumerates

end ParamSeq

/-- The sequence of the dicts that a generator yields, unless it raises an exception. -/
def sequence (h : Heap κ α) (g : Gen (Heap κ α) Addr) : Option (List (κ → Option α)) :=
  (g h).toList.1.map fun addrs => addrs.map (g h).toList.2.values

/-- Two generators yield the same sequence of dicts. -/
def SameDicts (h : Heap κ α) (g g' : Gen (Heap κ α) Addr) : Prop :=
  ∃ ms, sequence h g = some ms ∧ sequence h g' = some ms

/-- The dicts that are yielded have the values of the parameter sets. -/
lemma ParamSeq.sequence_eq {h : Heap κ α} (s : ParamSeq h) : sequence h s.gen = some s.sets := by
  have hkeep : ∀ (h h' : Heap κ α) (a : Addr) (m : κ → Option α), h <+: h' → Holds h a m →
      Holds h' a m := fun _ _ _ _ hh hm => hm.of_isPrefix hh
  obtain ⟨addrs, hf, hlist, -, hmeans⟩ :=
    (s.enumerates h List.prefix_rfl).toList isPrefix_refl isPrefix_trans hkeep
  have hvalues : addrs.map hf.values = s.sets := by
    rw [← List.forall₂_eq_eq_eq, List.forall₂_map_left_iff]
    exact hmeans.imp fun a m hm => hm.2
  rw [sequence, hlist, Option.map_some, hvalues]

/-- Sequences of the same parameter sets. -/
lemma ParamSeq.sameDicts {h : Heap κ α} (s s' : ParamSeq h) (hsets : s.sets = s'.sets) :
    SameDicts h s.gen s'.gen := ⟨s'.sets, hsets ▸ s.sequence_eq, s'.sequence_eq⟩

/-- **The laws of the product enumerators.** For all sequences of parameter sets, which may assign
the same variables: components may be nested, the empty dict is neutral, a union as the first
component distributes, and the enumerator of some variables is the product of those of each of
them. -/
theorem product_laws (h : Heap κ α) :
    (∀ X Y Z : List (ParamSeq h), Y ≠ [] → SameDicts h
      (enumCartesianExt
        (X.map ParamSeq.gen ++ [enumCartesianExt (Y.map ParamSeq.gen)] ++ Z.map ParamSeq.gen))
      (enumCartesianExt (X.map ParamSeq.gen ++ Y.map ParamSeq.gen ++ Z.map ParamSeq.gen))) ∧
    (∀ (X Z : List (ParamSeq h)) (dict : Addr), X ++ Z ≠ [] → dict < h.length →
      h.read dict = ∅ → SameDicts h
        (enumCartesianExt (X.map ParamSeq.gen ++ [enumSingleton dict] ++ Z.map ParamSeq.gen))
        (enumCartesianExt (X.map ParamSeq.gen ++ Z.map ParamSeq.gen))) ∧
    (∀ U Z : List (ParamSeq h), SameDicts h
      (enumCartesianExt (enumUnion (U.map ParamSeq.gen) :: Z.map ParamSeq.gen))
      (enumUnion (U.map fun u => enumCartesianExt (u.gen :: Z.map ParamSeq.gen)))) ∧
    ∀ vars : AList fun _ : κ => List α, vars.entries ≠ [] → SameDicts h
      (enumCartesian vars)
      (enumCartesianExt (vars.entries.map fun e => enumCartesian (AList.singleton e.1 e.2))) := by
  refine ⟨fun X Y Z hY => ?_, fun X Z dict hXZ hdict hempty => ?_, fun U Z => ?_,
    fun vars hvars => ?_⟩
  · have hnest : X ++ [ParamSeq.cartesianExt Y hY] ++ Z ≠ [] := by simp
    have hflat : X ++ Y ++ Z ≠ [] := by simp [hY]
    have hsame := ParamSeq.sameDicts (.cartesianExt _ hnest) (.cartesianExt _ hflat) (by
      simp only [ParamSeq.cartesianExt, List.map_append, List.map_singleton]
      exact map_merge_nest _ _ _)
    simpa only [ParamSeq.cartesianExt, List.map_append, List.map_singleton] using hsame
  · have hone : X ++ [ParamSeq.singleton dict hdict] ++ Z ≠ [] := by simp
    have hvalues : h.values dict = emptySet := by
      funext k
      rw [Heap.values, hempty, AList.lookup_empty, emptySet]
    have hsame := ParamSeq.sameDicts (.cartesianExt _ hone) (.cartesianExt _ hXZ) (by
      simp only [ParamSeq.cartesianExt, ParamSeq.singleton, List.map_append, List.map_singleton,
        hvalues]
      exact map_merge_emptySet _ _)
    simpa only [ParamSeq.cartesianExt, ParamSeq.singleton, List.map_append, List.map_singleton]
      using hsame
  · have hsame := ParamSeq.sameDicts (.cartesianExt (.union U :: Z) (List.cons_ne_nil _ _))
      (.union (U.map fun u => .cartesianExt (u :: Z) (List.cons_ne_nil _ _))) (by
        simp only [ParamSeq.cartesianExt, ParamSeq.union, List.map_cons, List.map_map,
          Function.comp_def]
        rw [map_merge_union, List.map_map]
        rfl)
    simpa only [ParamSeq.cartesianExt, ParamSeq.union, List.map_cons, List.map_map,
      Function.comp_def] using hsame
  · have hentries : (vars.entries.map fun e =>
        (ParamSeq.cartesian (AList.singleton e.1 e.2) (List.cons_ne_nil _ _) : ParamSeq h)) ≠
          [] := by
      simpa using hvars
    have hsame := ParamSeq.sameDicts (.cartesian vars hvars) (.cartesianExt _ hentries) (by
        simp only [ParamSeq.cartesianExt, ParamSeq.cartesian, List.map_map, Function.comp_def]
        exact map_assign_listed vars)
    simpa only [ParamSeq.cartesianExt, ParamSeq.cartesian, List.map_map, Function.comp_def]
      using hsame

/-- Components that assign the same variable: nested, behind an empty dict, in a union, and two
variables of which each is a component. -/
theorem product_laws_overlap :
    SameDicts [∅, AList.singleton "a" 1, AList.singleton "a" 2]
        (enumCartesianExt [enumSingleton 0, enumCartesianExt [enumList [1, 2]], enumList [2, 1]])
        (enumCartesianExt [enumSingleton 0, enumList [1, 2], enumList [2, 1]]) ∧
      SameDicts [∅, AList.singleton "a" 1, AList.singleton "a" 2]
        (enumCartesianExt [enumList [1, 2], enumSingleton 0, enumList [2, 1]])
        (enumCartesianExt [enumList [1, 2], enumList [2, 1]]) ∧
      SameDicts [∅, AList.singleton "a" 1, AList.singleton "a" 2]
        (enumCartesianExt [enumUnion [enumSingleton 1, enumSingleton 2], enumList [2, 1]])
        (enumUnion [enumCartesianExt [enumSingleton 1, enumList [2, 1]],
          enumCartesianExt [enumSingleton 2, enumList [2, 1]]]) ∧
      SameDicts [∅, AList.singleton "a" 1, AList.singleton "a" 2]
        (enumCartesian ((AList.singleton "a" [1, 2]).insert "b" [3]))
        (enumCartesianExt [enumCartesian (AList.singleton "b" [3]),
          enumCartesian (AList.singleton "a" [1, 2])]) := by
  obtain ⟨hnest, hempty, hunion, hvars⟩ :=
    product_laws [∅, AList.singleton "a" 1, AList.singleton "a" 2]
  exact ⟨hnest [.singleton 0 (by decide)] [.list [1, 2] (by decide)] [.list [2, 1] (by decide)]
      (List.cons_ne_nil _ _),
    hempty [.list [1, 2] (by decide)] [.list [2, 1] (by decide)] 0 (List.cons_ne_nil _ _)
      (by decide) rfl,
    hunion [.singleton 1 (by decide), .singleton 2 (by decide)] [.list [2, 1] (by decide)],
    hvars ((AList.singleton "a" [1, 2]).insert "b" [3]) (List.cons_ne_nil _ _)⟩

end Enumerators

end MeshSim
