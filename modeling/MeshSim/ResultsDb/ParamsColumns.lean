import MeshSim.ResultsDb.ParamsTable

/-!
# What the parameter files define

The pairs of a name and a value in the files, and the columns that `get_params` makes of them: one
for each name, in alphabetical order, whose type fits all values of that name
(`getParams_eq_some_iff`, `sortedColumns_foldl`).  A file that is written for a parameter set gives
back the set, as long as the names are words and every value is a word but for white space around it
(`readPairs_paramsTxt`, `lookup_readVals`).
-/

namespace MeshSim

namespace ParamsTable

open PythonText

/-! ### The pairs in a file -/

/-- A loop that may raise an exception, over a list. -/
lemma mapM_eq_some_iff {α β : Type} {f : α → Option β} {l : List α} {r : List β} :
    l.mapM f = some r ↔ List.Forall₂ (fun x y => f x = some y) l r := by
  induction l generalizing r with
  | nil =>
    rw [List.mapM_nil, List.forall₂_nil_left_iff]
    exact ⟨fun h => (Option.some.inj h).symm, fun h => h ▸ rfl⟩
  | cons x l ih =>
    rw [List.mapM_cons, List.forall₂_cons_left_iff]
    constructor
    · intro h
      obtain ⟨y, hy, h⟩ := Option.bind_eq_some_iff.mp h
      obtain ⟨ys, hys, h⟩ := Option.bind_eq_some_iff.mp h
      exact ⟨y, ys, hy, ih.mp hys, (Option.some.inj h).symm⟩
    · rintro ⟨y, ys, hy, hys, rfl⟩
      rw [hy, ih.mpr hys]
      rfl

/-- What is on one side of a correspondence is on the other side as well. -/
lemma exists_mem_right {α β : Type} {R : α → β → Prop} {l : List α} {r : List β}
    (h : List.Forall₂ R l r) {x : α} (hx : x ∈ l) : ∃ y ∈ r, R x y := by
  obtain ⟨i, hi, rfl⟩ := List.getElem_of_mem hx
  exact ⟨_, List.getElem_mem (h.length_eq ▸ hi), h.get hi (h.length_eq ▸ hi)⟩

/-- The same from the other side. -/
lemma exists_mem_left {α β : Type} {R : α → β → Prop} {l : List α} {r : List β}
    (h : List.Forall₂ R l r) {y : β} (hy : y ∈ r) : ∃ x ∈ l, R x y := by
  obtain ⟨i, hi, rfl⟩ := List.getElem_of_mem hy
  exact ⟨_, List.getElem_mem (h.length_eq ▸ hi), h.get (h.length_eq ▸ hi) hi⟩

/-- The pairs in a file, if it can be read. -/
def pairsOf (fp : List Char) : List (List Char × List Char) := (readPairs fp).getD []

/-- The pairs in the files of some directories. -/
def allPairs (dirs : List (List Char × List Char)) : List (List Char × List Char) :=
  dirs.flatMap fun d => pairsOf d.2

/-- A file that can be read has its pairs. -/
lemma readPairs_of_isSome {fp : List Char} (h : (readPairs fp).isSome) :
    readPairs fp = some (pairsOf fp) := by
  obtain ⟨pairs, hpairs⟩ := Option.isSome_iff_exists.mp h
  rw [pairsOf, hpairs, Option.getD_some]

/-- A line gives two words. -/
lemma words_of_splitPair {l : List Char} {p : List Char × List Char} (h : splitPair l = some p) :
    Word p.1 ∧ Word p.2 := by
  have hwords : ∀ w ∈ split (strip l), Word w := fun w hw =>
    word_of_mem_splitFrom (fun _ hc => absurd hc List.not_mem_nil) hw
  rw [splitPair] at h
  split at h
  · rename_i k v hkv
    rw [hkv] at hwords
    obtain rfl := Option.some.inj h
    exact ⟨hwords k List.mem_cons_self, hwords v (List.mem_cons_of_mem _ List.mem_cons_self)⟩
  · cases h

/-- What is read are words. -/
lemma words_of_mem_pairsOf {fp : List Char} {p : List Char × List Char} (hp : p ∈ pairsOf fp) :
    Word p.1 ∧ Word p.2 := by
  rw [pairsOf] at hp
  cases hread : readPairs fp with
  | none =>
    rw [hread] at hp
    cases hp
  | some pairs =>
    rw [hread, Option.getD_some] at hp
    obtain ⟨l, -, hl⟩ := exists_mem_left (mapM_eq_some_iff.mp hread) hp
    exact words_of_splitPair hl

/-! ### The columns -/

/-- The names in some pairs. -/
def paramNames (pairs : List (List Char × List Char)) : List (List Char) :=
  (pairs.map Prod.fst).dedup

/-- The type that fits all values of a name. -/
def columnType (isInt isFloat : List Char → Bool) (pairs : List (List Char × List Char))
    (k : List Char) : ColumnType :=
  if ∀ p ∈ pairs, p.1 = k → isInt p.2 then .int
  else if ∀ p ∈ pairs, p.1 = k → isFloat p.2 then .real else .varchar

/-- The columns for some pairs. -/
def paramColumns (isInt isFloat : List Char → Bool) (pairs : List (List Char × List Char)) :
    List Column :=
  ((paramNames pairs).mergeSort fun a b => decide (a ≤ b)).map fun k =>
    (k, columnType isInt isFloat pairs k)

/-- The names of pairs. -/
lemma mem_paramNames {pairs : List (List Char × List Char)} {k : List Char} :
    k ∈ paramNames pairs ↔ ∃ w, (k, w) ∈ pairs := by
  rw [paramNames, List.mem_dedup, List.mem_map]
  constructor
  · rintro ⟨p, hp, rfl⟩
    exact ⟨p.2, hp⟩
  · rintro ⟨w, hw⟩
    exact ⟨(k, w), hw, rfl⟩

variable {isInt isFloat : List Char → Bool}

/-- The columns have the names of the pairs. -/
lemma mem_paramColumns {pairs : List (List Char × List Char)} {c : Column} :
    c ∈ paramColumns isInt isFloat pairs ↔
      c.1 ∈ paramNames pairs ∧ c.2 = columnType isInt isFloat pairs c.1 := by
  rw [paramColumns, List.mem_map]
  constructor
  · rintro ⟨k, hk, rfl⟩
    exact ⟨List.mem_mergeSort.mp hk, rfl⟩
  · rintro ⟨hk, hty⟩
    exact ⟨c.1, List.mem_mergeSort.mpr hk, Prod.ext rfl hty.symm⟩

/-- Sorting does not depend on the order. -/
lemma mergeSort_eq_of_perm {l l' : List (List Char)} (h : l.Perm l') :
    (l.mergeSort fun a b => decide (a ≤ b)) = l'.mergeSort fun a b => decide (a ≤ b) := by
  have hperm := ((List.mergeSort_perm l fun a b => decide (a ≤ b)).trans h).trans
    (List.mergeSort_perm l' fun a b => decide (a ≤ b)).symm
  exact hperm.eq_of_pairwise' (List.pairwise_mergeSort' (· ≤ ·) l)
    (List.pairwise_mergeSort' (· ≤ ·) l')

/-- The types of the columns do not depend on the order of the files. -/
lemma columnType_congr {pairs pairs' : List (List Char × List Char)} (h : pairs.Perm pairs') :
    columnType isInt isFloat pairs = columnType isInt isFloat pairs' := by
  funext k
  simp only [columnType, h.mem_iff]

/-- The columns do not depend on the order of the files. -/
lemma paramColumns_congr {pairs pairs' : List (List Char × List Char)} (h : pairs.Perm pairs') :
    paramColumns isInt isFloat pairs = paramColumns isInt isFloat pairs' := by
  have hty : columnType isInt isFloat pairs = columnType isInt isFloat pairs' := columnType_congr h
  have hnames : (paramNames pairs).Perm (paramNames pairs') := (h.map Prod.fst).dedup
  rw [paramColumns, paramColumns, hty, mergeSort_eq_of_perm hnames]

/-- A type is refined as the values are added. -/
lemma refineType_ite (hnum : ∀ t, isInt t → isFloat t) {P Q : Prop} [Decidable P] [Decidable Q]
    (hPQ : P → Q) (v : List Char) :
    refineType isInt isFloat (if P then .int else if Q then .real else .varchar) v =
      if P ∧ isInt v then .int else if Q ∧ isFloat v then .real else .varchar := by
  have hv := hnum v
  rw [refineType]
  by_cases hP : P
  · have hQ := hPQ hP
    by_cases hi : isInt v
    · simp [hP, hi]
    · by_cases hf : isFloat v <;> simp [hP, hQ, hi, hf]
  · by_cases hQ : Q
    · by_cases hf : isFloat v <;> simp [hP, hQ, hf]
    · simp [hP, hQ]

/-- One pair changes the type of its column only. -/
lemma columnType_concat (hnum : ∀ t, isInt t → isFloat t) (pairs : List (List Char × List Char))
    (p : List Char × List Char) (k : List Char) :
    columnType isInt isFloat (pairs ++ [p]) k =
      if p.1 = k then refineType isInt isFloat (columnType isInt isFloat pairs k) p.2
      else columnType isInt isFloat pairs k := by
  have hconcat : ∀ f : List Char → Bool, (∀ q ∈ pairs ++ [p], q.1 = k → f q.2) ↔
      (∀ q ∈ pairs, q.1 = k → f q.2) ∧ (p.1 = k → f p.2) := by
    intro f
    rw [List.forall_mem_append, List.forall_mem_singleton]
  have hall : (∀ q ∈ pairs, q.1 = k → isInt q.2) → ∀ q ∈ pairs, q.1 = k → isFloat q.2 :=
    fun h q hq hk => hnum _ (h q hq hk)
  rw [columnType, columnType, refineType_ite hnum hall]
  simp only [hconcat]
  by_cases hk : p.1 = k
  · simp only [hk, forall_const, if_true]
  · simp only [hk, IsEmpty.forall_iff, and_true, if_false]

/-- The names that have been seen. -/
lemma mem_foldl_addParam (pairs : List (List Char × List Char)) (k : List Char) :
    k ∈ pairs.foldl (addParam isInt isFloat) ∅ ↔ k ∈ paramNames pairs := by
  rw [mem_paramNames]
  induction pairs using List.reverseRecOn with
  | nil => simp
  | append_singleton pairs p ih =>
    rw [List.foldl_concat, addParam, AList.mem_insert, ih]
    constructor
    · rintro (rfl | ⟨w, hw⟩)
      · exact ⟨p.2, List.mem_append_right _ List.mem_cons_self⟩
      · exact ⟨w, List.mem_append_left _ hw⟩
    · rintro ⟨w, hw⟩
      rcases List.mem_append.mp hw with hw | hw
      · exact Or.inr ⟨w, hw⟩
      · exact Or.inl (congrArg Prod.fst (List.mem_singleton.mp hw))

/-- The types that have been determined. -/
lemma getD_foldl_addParam (hnum : ∀ t, isInt t → isFloat t)
    (pairs : List (List Char × List Char)) (k : List Char) :
    ((pairs.foldl (addParam isInt isFloat) ∅).lookup k).getD .int =
      columnType isInt isFloat pairs k := by
  induction pairs using List.reverseRecOn with
  | nil =>
    rw [columnType, if_pos fun _ hp => absurd hp List.not_mem_nil]
    rfl
  | append_singleton pairs p ih =>
    rw [List.foldl_concat, addParam, columnType_concat hnum]
    split
    · rename_i hk
      subst hk
      rw [AList.lookup_insert, Option.getD_some, ih]
    · rename_i hk
      rw [AList.lookup_insert_ne (Ne.symm hk), ih]

/-- **The columns that `get_params` finds** are those for the pairs. -/
theorem sortedColumns_foldl (hnum : ∀ t, isInt t → isFloat t)
    (pairs : List (List Char × List Char)) :
    sortedColumns (pairs.foldl (addParam isInt isFloat) ∅) = paramColumns isInt isFloat pairs := by
  have hkeys : (pairs.foldl (addParam isInt isFloat) ∅).keys.Perm (paramNames pairs) := by
    refine (List.perm_ext_iff_of_nodup (AList.keys_nodup _) (List.nodup_dedup _)).mpr fun k => ?_
    exact AList.mem_keys.symm.trans (mem_foldl_addParam pairs k)
  rw [sortedColumns, paramColumns, mergeSort_eq_of_perm hkeys]
  exact List.map_congr_left fun k _ => by rw [getD_foldl_addParam hnum]

/-- `get_params` succeeds when all files can be read. -/
theorem getParams_eq_some_iff {fps : List (List Char)}
    {params : AList fun _ : List Char => ColumnType} :
    getParams isInt isFloat fps = some params ↔
      (∀ fp ∈ fps, (readPairs fp).isSome) ∧
        params = (fps.flatMap pairsOf).foldl (addParam isInt isFloat) ∅ := by
  rw [getParams]
  generalize (∅ : AList fun _ : List Char => ColumnType) = start
  induction fps generalizing start with
  | nil =>
    rw [List.foldlM_nil]
    constructor
    · exact fun h => ⟨fun _ hfp => absurd hfp List.not_mem_nil, (Option.some.inj h).symm⟩
    · exact fun h => congrArg some h.2.symm
  | cons fp fps ih =>
    rw [List.foldlM_cons, List.forall_mem_cons, List.flatMap_cons, List.foldl_append]
    cases hread : readPairs fp with
    | none => simp
    | some pairs =>
      have hpairs : pairsOf fp = pairs := by rw [pairsOf, hread, Option.getD_some]
      rw [Option.map_some, hpairs]
      exact (ih _).trans ⟨fun h => ⟨⟨rfl, h.1⟩, h.2⟩, fun h => ⟨h.1.2, h.2⟩⟩

/-! ### Reading back the file of a parameter set -/

variable {V : Type} {str : V → List Char}

/-- The names of a parameter set are words, and its values are without line ends. -/
def Lines (str : V → List Char) (kv : ParamSet V) : Prop :=
  ∀ e ∈ kv.entries, Word e.1 ∧ OneLine (str e.2)

/-- The names and the values of a parameter set are words. -/
def Words (str : V → List Char) (kv : ParamSet V) : Prop :=
  ∀ e ∈ kv.entries, Word e.1 ∧ Word (str e.2)

/-- The items of a parameter set, in the order in which they are written. -/
def sortedItems (kv : ParamSet V) : List (Sigma fun _ : List Char => V) :=
  kv.entries.mergeSort fun a b => decide (a.1 ≤ b.1)

/-- The items are written in another order. -/
lemma mem_sortedItems {kv : ParamSet V} {e : Sigma fun _ : List Char => V} :
    e ∈ sortedItems kv ↔ e ∈ kv.entries := List.mem_mergeSort

/-- Words are without line ends. -/
lemma Words.lines {kv : ParamSet V} (hkv : Words str kv) : Lines str kv :=
  fun e he => ⟨(hkv e he).1, oneLine_of_word (hkv e he).2⟩

/-- A word is the only one in it. -/
lemma split_of_word {w : List Char} (hw : Word w) : split w = [w] := by
  have hwords : ∀ u ∈ [w], Word u := fun u hu => List.mem_singleton.mp hu ▸ hw
  have hjoin := split_join hwords
  rwa [List.intercalate_singleton] at hjoin

/-- A line is read as its name and its value, if the value is a word but for white space around. -/
lemma splitPair_paramLine {k : List Char} (hk : Word k) (v : List Char)
    (p : List Char × List Char) :
    splitPair (paramLine k v) = some p ↔ p.1 = k ∧ split v = [p.2] := by
  have hsplit : split (strip (paramLine k v)) = k :: split v := by
    rw [split_strip, paramLine, split, splitFrom_concat (by decide), ← split, split_word_append hk]
  rw [splitPair, hsplit]
  constructor
  · intro h
    split at h
    · rename_i k' w heq
      obtain ⟨rfl, hv⟩ := List.cons.inj heq
      obtain rfl := Option.some.inj h
      exact ⟨rfl, hv⟩
    · cases h
  · rintro ⟨rfl, hv⟩
    rw [hv]

/-- The file of a parameter set, line by line. -/
lemma readLines_paramsTxt {kv : ParamSet V} (hkv : Lines str kv) :
    readLines (paramsTxt str kv) = (sortedItems kv).map fun e => paramLine e.1 (str e.2) := by
  have hlines : ∀ l ∈ (sortedItems kv).map fun e =>
      e.1 ++ List.replicate (15 - e.1.length) ' ' ++ ' ' :: str e.2, OneLine l := by
    intro l hl
    obtain ⟨e, he, rfl⟩ := List.mem_map.mp hl
    obtain ⟨hk, hv⟩ := hkv e (mem_sortedItems.mp he)
    have hk := oneLine_of_word hk
    constructor <;> simp [hk.1, hk.2, hv.1, hv.2]
  have h := readLines_flatMap hlines
  rwa [List.flatMap_map, List.map_map] at h

/-- **Reading back a parameter set.** -/
theorem readPairs_paramsTxt {kv : ParamSet V} (hkv : Lines str kv)
    {pairs : List (List Char × List Char)} :
    readPairs (paramsTxt str kv) = some pairs ↔
      List.Forall₂ (fun e p => p.1 = e.1 ∧ split (str e.2) = [p.2]) (sortedItems kv) pairs := by
  rw [readPairs, readLines_paramsTxt hkv, mapM_eq_some_iff, List.forall₂_map_left_iff]
  constructor
  · intro h
    have hboth := (List.forall₂_and_left _ _).mpr ⟨fun e he => hkv e (mem_sortedItems.mp he), h⟩
    exact hboth.imp fun e p hp => (splitPair_paramLine hp.1.1 _ p).mp hp.2
  · intro h
    have hboth := (List.forall₂_and_left _ _).mpr ⟨fun e he => hkv e (mem_sortedItems.mp he), h⟩
    exact hboth.imp fun e p hp => (splitPair_paramLine hp.1.1 _ p).mpr hp.2

/-- A file can be read only if all its values are words, but for white space around. -/
lemma exists_split_of_readPairs {kv : ParamSet V} (hkv : Lines str kv)
    (h : (readPairs (paramsTxt str kv)).isSome) : ∀ e ∈ kv.entries, ∃ w, split (str e.2) = [w] := by
  intro e he
  have hall := (readPairs_paramsTxt hkv).mp (readPairs_of_isSome h)
  obtain ⟨p, -, -, hp⟩ := exists_mem_right hall (mem_sortedItems.mpr he)
  exact ⟨p.2, hp⟩

/-- The file of a parameter set of words can be read. -/
lemma isSome_readPairs {kv : ParamSet V} (hkv : Words str kv) :
    (readPairs (paramsTxt str kv)).isSome := by
  have hpairs : List.Forall₂ (fun e p => p.1 = e.1 ∧ split (str e.2) = [p.2]) (sortedItems kv)
      ((sortedItems kv).map fun e => (e.1, str e.2)) := by
    rw [List.forall₂_map_right_iff, List.forall₂_same]
    exact fun e he => ⟨rfl, split_of_word (hkv e (mem_sortedItems.mp he)).2⟩
  rw [(readPairs_paramsTxt hkv.lines).mpr hpairs, Option.isSome_some]

/-- The pairs of a parameter set. -/
lemma mem_pairsOf {kv : ParamSet V} (hkv : Lines str kv)
    (h : (readPairs (paramsTxt str kv)).isSome) {k w : List Char} :
    (k, w) ∈ pairsOf (paramsTxt str kv) ↔ ∃ v, kv.lookup k = some v ∧ split (str v) = [w] := by
  have hall := (readPairs_paramsTxt hkv).mp (readPairs_of_isSome h)
  constructor
  · intro hmem
    obtain ⟨e, he, hk, hw⟩ := exists_mem_left hall hmem
    obtain rfl : k = e.1 := hk
    exact ⟨e.2, AList.mem_lookup_iff.mpr (mem_sortedItems.mp he), hw⟩
  · rintro ⟨v, hv, hw⟩
    have he := mem_sortedItems.mpr (AList.mem_lookup_iff.mp hv)
    obtain ⟨⟨k', w'⟩, hp, hk, hw'⟩ := exists_mem_right hall he
    obtain rfl : k' = k := hk
    obtain ⟨rfl, -⟩ := List.cons.inj (hw.symm.trans hw')
    exact hp

/-- The last value of a key counts. -/
lemma lookup_foldl_insert (pairs : List (List Char × List Char))
    (vals : AList fun _ : List Char => List Char) (k : List Char) :
    (pairs.foldl (fun vals kv => vals.insert kv.1 kv.2) vals).lookup k =
      (((pairs.filter fun p => p.1 = k).getLast?).map Prod.snd).or (vals.lookup k) := by
  induction pairs using List.reverseRecOn with
  | nil => rfl
  | append_singleton pairs p ih =>
    rw [List.foldl_concat, List.filter_append]
    by_cases hk : p.1 = k
    · subst hk
      rw [AList.lookup_insert]
      simp
    · rw [AList.lookup_insert_ne (Ne.symm hk), ih]
      simp [hk]

/-- The values in a file. -/
lemma mem_pairsOf_of_readVals {fp k w : List Char} {vals : AList fun _ : List Char => List Char}
    (h : readVals fp = some vals) (hw : vals.lookup k = some w) : (k, w) ∈ pairsOf fp := by
  obtain ⟨pairs, hpairs, rfl⟩ := Option.map_eq_some_iff.mp h
  rw [lookup_foldl_insert, AList.lookup_empty, Option.or_none] at hw
  obtain ⟨p, hp, rfl⟩ := Option.map_eq_some_iff.mp hw
  obtain ⟨hmem, hk⟩ := List.mem_filter.mp (List.mem_of_getLast? hp)
  rw [pairsOf, hpairs, Option.getD_some, ← of_decide_eq_true hk]
  exact hmem

/-- The values that are read for a parameter set. -/
lemma lookup_readVals {kv : ParamSet V} (hkv : Lines str kv)
    {vals : AList fun _ : List Char => List Char} (h : readVals (paramsTxt str kv) = some vals)
    {k w : List Char} :
    vals.lookup k = some w ↔ ∃ v, kv.lookup k = some v ∧ split (str v) = [w] := by
  obtain ⟨pairs, hpairs, hfold⟩ := Option.map_eq_some_iff.mp h
  have hsome : (readPairs (paramsTxt str kv)).isSome := by rw [hpairs, Option.isSome_some]
  refine ⟨fun hw => (mem_pairsOf hkv hsome).mp (mem_pairsOf_of_readVals h hw), ?_⟩
  rintro ⟨v, hv, hw⟩
  have hmem := (mem_pairsOf hkv hsome).mpr ⟨v, hv, hw⟩
  cases hw' : vals.lookup k with
  | some w' =>
    obtain ⟨v', hv', hsplit⟩ := (mem_pairsOf hkv hsome).mp (mem_pairsOf_of_readVals h hw')
    obtain rfl := Option.some.inj (hv.symm.trans hv')
    rw [hw] at hsplit
    rw [(List.cons.inj hsplit).1]
  | none =>
    exfalso
    rw [pairsOf, hpairs, Option.getD_some] at hmem
    rw [← hfold, lookup_foldl_insert, AList.lookup_empty, Option.or_none, Option.map_eq_none_iff,
      List.getLast?_eq_none_iff, List.filter_eq_nil_iff] at hw'
    exact hw' _ hmem (decide_eq_true rfl)

/-- The values that are read for a parameter set of words. -/
lemma lookup_readVals_of_words {kv : ParamSet V} (hkv : Words str kv)
    {vals : AList fun _ : List Char => List Char} (h : readVals (paramsTxt str kv) = some vals)
    (k : List Char) : vals.lookup k = (kv.lookup k).map str := by
  refine Option.ext fun w => ?_
  rw [lookup_readVals hkv.lines h, Option.map_eq_some_iff]
  refine exists_congr fun v => and_congr_right fun hv => ?_
  rw [split_of_word (hkv _ (AList.mem_lookup_iff.mp hv)).2, List.cons.injEq]
  exact and_iff_left rfl

end ParamsTable

end MeshSim
