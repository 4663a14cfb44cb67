import MeshSim.ResultsDb.LetterDatabase
import MeshSim.ResultsDb.ParamsColumns

/-!
# Which parameter sets survive

Parameter sets that are staged and read into the database.  When SQLite takes the names and the
values in the files as they are written, the sets come back exactly if every name and every value is
one word and all sets define the same parameters (`survives_iff`).  Sets that define different
parameters do not, whatever SQLite does (`sameNames_of_createParamsTable`): for a parameter that its
file does not define, the insertion of a row stops with an exception.

The runs are followed through the directories in the order in which their rows are inserted: as long
as every file defines every column, each of them adds a row of the values in its file
(`exists_createParamsTable`).
-/

namespace MeshSim

namespace ParamsTable

open PythonText Sqlite

/-! ### Directories -/

/-- **The index of a directory** is read from its name. -/
lemma toInt_outdir {i : ℕ} (hi : i < 100000) :
    toInt ((outdir i).drop ((outdir i).length - 5)) = some (i : ℤ) := by
  have hlength : (format05d i).length = 5 := by
    rw [format05d, length_zeroPad (by norm_num; exact hi) (by decide)]
  have hdrop : ∀ s : List Char,
      (s ++ format05d i).drop ((s ++ format05d i).length - 5) = format05d i := by
    intro s
    rw [List.length_append, hlength, Nat.add_sub_cancel, List.drop_left]
  have hindex : (outdir i).drop ((outdir i).length - 5) = format05d i := hdrop _
  rw [hindex]
  exact toInt_zeroPad 5 i

/-- The name of a directory consists of letters, digits, a slash and an underscore. -/
lemma forall_mem_outdir {P : Char → Prop} (hname : ∀ c ∈ "run/params_".toList, P c)
    (hdigit : ∀ c : Char, c.isDigit → P c) {i : ℕ} : ∀ c ∈ outdir i, P c := by
  intro c hc
  rcases List.mem_append.mp hc with hc | hc
  · exact hname c hc
  · exact hdigit c (isDigit_of_mem_zeroPad hc)

/-- The name of a directory is a word. -/
lemma word_outdir (i : ℕ) : Word (outdir i) := by
  refine ⟨List.append_ne_nil_of_left_ne_nil (by decide) _, ?_⟩
  exact forall_mem_outdir (by simp [isSpace]) fun c hc => isSpace_of_isDigit hc

/-- The name of a directory does not end the literal that it is put in. -/
lemma quote_notMem_outdir (i : ℕ) : '\'' ∉ outdir i ∧ Char.ofNat 0 ∉ outdir i := by
  have hquote : ∀ c ∈ outdir i, c ≠ '\'' :=
    forall_mem_outdir (by simp) fun c hc => ne_of_isDigit hc (by decide)
  have hzero : ∀ c ∈ outdir i, c ≠ Char.ofNat 0 :=
    forall_mem_outdir (by simp) fun c hc => ne_of_isDigit hc (by decide)
  exact ⟨fun h => hquote _ h rfl, fun h => hzero _ h rfl⟩

/-! ### What SQLite has to take -/

variable {isInt isFloat : List Char → Bool} {sql : Sqlite}

/-- SQLite takes the names and the values in the files as they are written. -/
structure SqlSafe (isInt isFloat : List Char → Bool) (sql : Sqlite)
    (dirs : List (List Char × List Char)) : Prop where
  /-- The names can be names of columns. -/
  isName : ∀ k ∈ paramNames (allPairs dirs), sql.IsName k
  /-- The names are different, and not those of the first two columns. -/
  nodup : ((tableColumns (paramColumns isInt isFloat (allPairs dirs))).map
    fun c => columnKey c.1).Nodup
  /-- There are not too many columns. -/
  columns_le : (tableColumns (paramColumns isInt isFloat (allPairs dirs))).length ≤ sql.maxColumns
  /-- The statement that creates the table is not too long. -/
  create_le : (createCmd (paramColumns isInt isFloat (allPairs dirs))).length ≤ sql.maxLength
  /-- The values are literals of the types of their columns. -/
  literal : ∀ p ∈ allPairs dirs, ∃ x, sql.Literal (columnType isInt isFloat (allPairs dirs) p.1)
    (valueExpr (columnType isInt isFloat (allPairs dirs) p.1) p.2) x
  /-- The statements that insert rows are not too long. -/
  insert_le : ∀ d ∈ dirs, ∀ idx, toInt (d.1.drop (d.1.length - 5)) = some idx →
    ∀ value : List Char → List Char,
      (∀ c ∈ paramColumns isInt isFloat (allPairs dirs), (c.1, value c.1) ∈ pairsOf d.2) →
      (insertCmd idx d.1 ((paramColumns isInt isFloat (allPairs dirs)).map fun c =>
        valueExpr c.2 (value c.1))).length ≤ sql.maxLength

/-- The pairs do not depend on the order of the files, but for their own order. -/
lemma allPairs_perm {dirs dirs' : List (List Char × List Char)} (h : dirs.Perm dirs') :
    (allPairs dirs).Perm (allPairs dirs') := h.flatMap_right _

/-- The order of the files does not matter to SQLite. -/
lemma SqlSafe.of_perm {dirs dirs' : List (List Char × List Char)}
    (h : SqlSafe isInt isFloat sql dirs) (hperm : dirs.Perm dirs') :
    SqlSafe isInt isFloat sql dirs' := by
  have hpairs := allPairs_perm hperm
  have hcols : paramColumns isInt isFloat (allPairs dirs) =
      paramColumns isInt isFloat (allPairs dirs') := paramColumns_congr hpairs
  have hty : columnType isInt isFloat (allPairs dirs) = columnType isInt isFloat (allPairs dirs') :=
    columnType_congr hpairs
  constructor
  · intro k hk
    obtain ⟨w, hw⟩ := mem_paramNames.mp hk
    exact h.isName k (mem_paramNames.mpr ⟨w, hpairs.mem_iff.mpr hw⟩)
  · exact hcols ▸ h.nodup
  · exact hcols ▸ h.columns_le
  · exact hcols ▸ h.create_le
  · exact fun p hp => hty ▸ h.literal p (hpairs.mem_iff.mpr hp)
  · exact fun d hd => hcols ▸ h.insert_le d (hperm.mem_iff.mpr hd)

/-- What is stored for a literal is shown as it was. -/
lemma shows_of_literal {ty : ColumnType} {w : List Char} {x : Value sql.R}
    (h : sql.Literal ty (valueExpr ty w) x) : sql.shows x = some w := by
  generalize ht : valueExpr ty w = t at h
  cases h with
  | integer hmin hmax => exact congrArg some ht.symm
  | real hx => exact congrArg some ht.symm
  | text hquote hzero =>
    obtain ⟨-, h⟩ := List.cons.inj ht
    exact congrArg some (List.append_cancel_right h).symm

/-! ### Inserting the rows -/

/-- A file can be read, and defines all columns. -/
def Readable (cols : List Column) (d : List Char × List Char) : Prop :=
  ∃ vals, readVals d.2 = some vals ∧ ∀ c ∈ cols, (vals.lookup c.1).isSome

/-- A row holds what is read in a directory. -/
def RowOf (sql : Sqlite) (cols : List Column) (d : List Char × List Char)
    (row : List (Value sql.R)) : Prop :=
  ∃ idx vals values, toInt (d.1.drop (d.1.length - 5)) = some idx ∧ readVals d.2 = some vals ∧
    row = .integer idx :: .text d.1 :: values ∧
    List.Forall₂ (fun (c : Column) x => ∃ w, vals.lookup c.1 = some w ∧ sql.shows x = some w)
      cols values

/-- Inserting a row stops with an exception unless the file defines all columns. -/
lemma readable_of_insertRow {cols : List Column} {db db' : sql.Db} {d : List Char × List Char}
    (h : insertRow sql cols db d = some db') : Readable cols d := by
  obtain ⟨idx, -, h⟩ := Option.bind_eq_some_iff.mp h
  obtain ⟨vals, hvals, h⟩ := Option.bind_eq_some_iff.mp h
  obtain ⟨exprs, hexprs, -⟩ := Option.bind_eq_some_iff.mp h
  refine ⟨vals, hvals, fun c hc => ?_⟩
  obtain ⟨e, -, he⟩ := exists_mem_right (mapM_eq_some_iff.mp hexprs) hc
  obtain ⟨w, hw, -⟩ := Option.map_eq_some_iff.mp he
  exact Option.isSome_iff_exists.mpr ⟨w, hw⟩

/-- The same for all rows. -/
lemma readable_of_foldlM {cols : List Column} {ds : List (List Char × List Char)} {db db' : sql.Db}
    (h : ds.foldlM (insertRow sql cols) db = some db') : ∀ d ∈ ds, Readable cols d := by
  induction ds generalizing db with
  | nil => exact fun _ hd => absurd hd List.not_mem_nil
  | cons d ds ih =>
    rw [List.foldlM_cons] at h
    obtain ⟨db₁, h1, h⟩ := Option.bind_eq_some_iff.mp h
    exact List.forall_mem_cons.mpr ⟨readable_of_insertRow h1, ih h⟩

variable {dirs : List (List Char × List Char)}

/-- **Inserting one row.** -/
lemma exists_insertRow (hdoc : sql.Documented) (hsafe : SqlSafe isInt isFloat sql dirs)
    {d : List Char × List Char} (hd : d ∈ dirs) (hout : ∃ i < 100000, d.1 = outdir i)
    {db : sql.Db} {rows : List (List (Value sql.R))}
    (htable : sql.table db =
      some (tableColumns (paramColumns isInt isFloat (allPairs dirs)), rows))
    (hread : Readable (paramColumns isInt isFloat (allPairs dirs)) d) :
    ∃ db' row, insertRow sql (paramColumns isInt isFloat (allPairs dirs)) db d = some db' ∧
      sql.table db' =
        some (tableColumns (paramColumns isInt isFloat (allPairs dirs)), rows ++ [row]) ∧
      RowOf sql (paramColumns isInt isFloat (allPairs dirs)) d row := by
  obtain ⟨dirname, fp⟩ := d
  obtain ⟨i, hi, rfl⟩ : ∃ i < 100000, dirname = outdir i := hout
  obtain ⟨vals, hvals, hall⟩ := hread
  have hidx := toInt_outdir hi
  have hlen := hsafe.insert_le _ hd _ hidx
  have hmem : ∀ c ∈ paramColumns isInt isFloat (allPairs dirs),
      (c.1, (vals.lookup c.1).getD []) ∈ pairsOf fp := by
    intro c hc
    obtain ⟨w, hw⟩ := Option.isSome_iff_exists.mp (hall c hc)
    rw [hw]
    exact mem_pairsOf_of_readVals hvals hw
  have hlit : ∀ c ∈ paramColumns isInt isFloat (allPairs dirs), ∃ x, sql.Literal c.2
      (valueExpr c.2 ((vals.lookup c.1).getD [])) x := by
    intro c hc
    rw [(mem_paramColumns.mp hc).2]
    exact hsafe.literal _ (List.mem_flatMap.mpr ⟨_, hd, hmem c hc⟩)
  generalize hcols : paramColumns isInt isFloat (allPairs dirs) = cols at *
  have hne : Nonempty (Value sql.R) := ⟨.null⟩
  choose! value hvalue using hlit
  have hexprs : cols.mapM (fun c => (vals.lookup c.1).map (valueExpr c.2)) =
      some (cols.map fun c => valueExpr c.2 ((vals.lookup c.1).getD [])) := by
    rw [mapM_eq_some_iff, List.forall₂_map_right_iff, List.forall₂_same]
    intro c hc
    obtain ⟨w, hw⟩ := Option.isSome_iff_exists.mp (hall c hc)
    rw [hw, Option.map_some, Option.getD_some]
  have hzip : List.Forall₂ (fun (c : Column) (e : List Char × Value sql.R) =>
      sql.Literal c.2 e.1 e.2) cols
      ((cols.map fun c => valueExpr c.2 ((vals.lookup c.1).getD [])).zip (cols.map value)) := by
    rw [List.zip_map', List.forall₂_map_right_iff, List.forall₂_same]
    exact hvalue
  obtain ⟨hquote, hzero⟩ := quote_notMem_outdir i
  obtain ⟨db', hexec, htable'⟩ := hdoc.insert db cols rows i (outdir i) _ _ htable (by omega)
    (by omega) hquote hzero hzip (by rw [List.length_map, List.length_map])
    (hlen (fun k => (vals.lookup k).getD []) hmem)
  refine ⟨db', _, ?_, htable', i, vals, cols.map value, hidx, hvals, rfl, ?_⟩
  · simp only [insertRow, hidx, hvals, hexprs, Option.bind_eq_bind, Option.bind_some]
    exact hexec
  · rw [List.forall₂_map_right_iff, List.forall₂_same]
    intro c hc
    obtain ⟨w, hw⟩ := Option.isSome_iff_exists.mp (hall c hc)
    have hshow := shows_of_literal (hvalue c hc)
    rw [hw, Option.getD_some] at hshow
    exact ⟨w, hw, hshow⟩

/-- Inserting many rows. -/
lemma exists_foldlM_insertRow (hdoc : sql.Documented) (hsafe : SqlSafe isInt isFloat sql dirs)
    {ds : List (List Char × List Char)} (hds : ∀ d ∈ ds, d ∈ dirs)
    (hout : ∀ d ∈ ds, ∃ i < 100000, d.1 = outdir i)
    (hread : ∀ d ∈ ds, Readable (paramColumns isInt isFloat (allPairs dirs)) d)
    {db : sql.Db} {rows : List (List (Value sql.R))}
    (htable : sql.table db =
      some (tableColumns (paramColumns isInt isFloat (allPairs dirs)), rows)) :
    ∃ db' rows',
      ds.foldlM (insertRow sql (paramColumns isInt isFloat (allPairs dirs))) db = some db' ∧
      sql.table db' =
        some (tableColumns (paramColumns isInt isFloat (allPairs dirs)), rows ++ rows') ∧
      List.Forall₂ (RowOf sql (paramColumns isInt isFloat (allPairs dirs))) ds rows' := by
  induction ds generalizing db rows with
  | nil => exact ⟨db, [], rfl, by rw [htable, List.append_nil], List.Forall₂.nil⟩
  | cons d ds ih =>
    obtain ⟨hd, hds⟩ := List.forall_mem_cons.mp hds
    obtain ⟨hd', hout⟩ := List.forall_mem_cons.mp hout
    obtain ⟨hrd, hread⟩ := List.forall_mem_cons.mp hread
    obtain ⟨db₁, row, hins, htable₁, hrow⟩ := exists_insertRow hdoc hsafe hd hd' htable hrd
    obtain ⟨db', rows', hfold, htable', hrows⟩ := ih hds hout hread htable₁
    refine ⟨db', row :: rows', ?_, ?_, List.Forall₂.cons hrow hrows⟩
    · rw [List.foldlM_cons, hins]
      exact hfold
    · rw [htable', List.append_assoc, List.singleton_append]

/-! ### Creating the table -/

/-- All files are sorted into the table. -/
lemma getParams_dirs {params : AList fun _ : List Char => ColumnType} :
    getParams isInt isFloat (dirs.map Prod.snd) = some params ↔
      (∀ d ∈ dirs, (readPairs d.2).isSome) ∧
        params = (allPairs dirs).foldl (addParam isInt isFloat) ∅ := by
  rw [getParams_eq_some_iff, List.flatMap_map, List.forall_mem_map]
  rfl

/-- The table is created only when every file defines every column. -/
lemma readable_of_createParamsTable (hnum : ∀ t, isInt t → isFloat t) {db db' : sql.Db}
    (h : createParamsTable isInt isFloat sql db dirs = some db') :
    ∀ d ∈ dirs, Readable (paramColumns isInt isFloat (allPairs dirs)) d := by
  obtain ⟨params, hparams, h⟩ := Option.bind_eq_some_iff.mp h
  obtain ⟨db₁, -, h⟩ := Option.bind_eq_some_iff.mp h
  obtain ⟨-, rfl⟩ := getParams_dirs.mp hparams
  rw [sortedColumns_foldl hnum] at h
  exact fun d hd => readable_of_foldlM h d (List.mem_mergeSort.mpr hd)

/-- **The rows of the table.** -/
theorem exists_createParamsTable (hnum : ∀ t, isInt t → isFloat t) (hdoc : sql.Documented)
    (hsafe : SqlSafe isInt isFloat sql dirs) (hout : ∀ d ∈ dirs, ∃ i < 100000, d.1 = outdir i)
    (hread : ∀ d ∈ dirs, Readable (paramColumns isInt isFloat (allPairs dirs)) d) {db : sql.Db}
    (hdb : sql.table db = none) :
    ∃ db' rows, createParamsTable isInt isFloat sql db dirs = some db' ∧
      sql.table db' = some (tableColumns (paramColumns isInt isFloat (allPairs dirs)), rows) ∧
      List.Forall₂ (RowOf sql (paramColumns isInt isFloat (allPairs dirs)))
        (dirs.mergeSort fun a b => decide (a.1 ≤ b.1)) rows := by
  have hpairs : ∀ d ∈ dirs, (readPairs d.2).isSome := by
    intro d hd
    obtain ⟨vals, hvals, -⟩ := hread d hd
    obtain ⟨pairs, hpairs, -⟩ := Option.map_eq_some_iff.mp hvals
    exact Option.isSome_iff_exists.mpr ⟨pairs, hpairs⟩
  have hparams : getParams isInt isFloat (dirs.map Prod.snd) =
      some ((allPairs dirs).foldl (addParam isInt isFloat) ∅) := getParams_dirs.mpr ⟨hpairs, rfl⟩
  have hname : ∀ c ∈ paramColumns isInt isFloat (allPairs dirs), sql.IsName c.1 :=
    fun c hc => hsafe.isName _ (mem_paramColumns.mp hc).1
  obtain ⟨db₁, hcreate, htable₁⟩ := hdoc.create db _ hdb hname hsafe.nodup hsafe.columns_le
    hsafe.create_le
  have hmem : ∀ d ∈ dirs.mergeSort fun a b => decide (a.1 ≤ b.1), d ∈ dirs :=
    fun d hd => List.mem_mergeSort.mp hd
  obtain ⟨db', rows, hfold, htable', hrows⟩ := exists_foldlM_insertRow hdoc hsafe hmem
    (fun d hd => hout d (hmem d hd)) (fun d hd => hread d (hmem d hd)) htable₁
  refine ⟨db', rows, ?_, by rw [htable', List.nil_append], hrows⟩
  rw [createParamsTable, hparams, Option.bind_eq_bind, Option.bind_some]
  simp only [sortedColumns_foldl hnum]
  rw [hcreate, Option.bind_eq_bind, Option.bind_some, hfold]

/-! ### Rows and parameter sets -/

/-- The value of a column in a row. -/
def field {R : Type} (cols : List Column) (row : List (Value R)) (k : List Char) :
    Option (Value R) :=
  ((cols.map Prod.fst).zip row).lookup k

/-- A value in a row is in one of its columns. -/
lemma mem_of_field {R : Type} {cols : List Column} {row : List (Value R)} {k : List Char}
    {x : Value R} (h : field cols row k = some x) : (k, x) ∈ (cols.map Prod.fst).zip row := by
  obtain ⟨l₁, l₂, heq, -⟩ := List.lookup_eq_some_iff.mp h
  rw [heq]
  exact List.mem_append_right _ List.mem_cons_self

/-- The value of a column is the one at its place. -/
lemma exists_field {R : Type} {cols : List Column} {row : List (Value R)}
    {P : Column → Value R → Prop} (h : List.Forall₂ P cols row)
    (hnodup : (cols.map Prod.fst).Nodup) {c : Column} (hc : c ∈ cols) :
    ∃ x, field cols row c.1 = some x ∧ P c x := by
  induction h with
  | nil => exact absurd hc List.not_mem_nil
  | @cons c' x cols row hx hrest ih =>
    obtain ⟨hnot, hnodup⟩ := List.nodup_cons.mp hnodup
    rcases List.mem_cons.mp hc with rfl | hc
    · exact ⟨x, by rw [field, List.map_cons, List.zip_cons_cons, List.lookup_cons_self], hx⟩
    · obtain ⟨y, hy, hP⟩ := ih hnodup hc
      have hne : c.1 ≠ c'.1 := fun h => hnot (h ▸ List.mem_map_of_mem hc)
      refine ⟨y, ?_, hP⟩
      rw [field, List.map_cons, List.zip_cons_cons, List.lookup_cons, beq_eq_false_iff_ne.mpr hne]
      exact hy

/-- The first two columns come before the others. -/
lemma field_tableColumns {R : Type} {cols : List Column} {a b : Value R} {values : List (Value R)}
    {k : List Char} (hid : k ≠ idName) (hdir : k ≠ dirName) :
    field (tableColumns cols) (a :: b :: values) k = field cols values k := by
  rw [field, tableColumns, List.map_cons, List.map_cons, List.zip_cons_cons, List.zip_cons_cons,
    List.lookup_cons, beq_eq_false_iff_ne.mpr hid]
  dsimp only
  rw [List.lookup_cons, beq_eq_false_iff_ne.mpr hdir]
  rfl

/-- **The values in the table are words**, as are the names of their columns. -/
lemma word_of_field {d : List Char × List Char} {row : List (Value sql.R)}
    (hrow : RowOf sql (paramColumns isInt isFloat (allPairs dirs)) d row)
    (hword : Word d.1) {k w : List Char}
    (h : (field (tableColumns (paramColumns isInt isFloat (allPairs dirs))) row k).bind sql.shows =
      some w) : Word k ∧ Word w := by
  obtain ⟨idx, vals, values, -, hvals, rfl, hvalues⟩ := hrow
  obtain ⟨x, hx, hw⟩ := Option.bind_eq_some_iff.mp h
  have hmem := mem_of_field hx
  rw [tableColumns, List.map_cons, List.map_cons, List.zip_cons_cons, List.zip_cons_cons,
    List.mem_cons, List.mem_cons] at hmem
  rcases hmem with heq | heq | hmem
  · obtain ⟨rfl, rfl⟩ := Prod.mk.inj heq
    obtain rfl := Option.some.inj hw
    exact ⟨⟨by decide, by simp [idName, isSpace]⟩, word_formatLong idx⟩
  · obtain ⟨rfl, rfl⟩ := Prod.mk.inj heq
    obtain rfl := Option.some.inj hw
    exact ⟨⟨by decide, by simp [dirName, isSpace]⟩, hword⟩
  · rw [List.zip_map_left] at hmem
    obtain ⟨⟨c, y⟩, hc, heq⟩ := List.mem_map.mp hmem
    obtain ⟨rfl, rfl⟩ := Prod.mk.inj heq
    obtain ⟨w', hlookup, hshow⟩ := List.forall₂_zip hvalues hc
    obtain rfl := Option.some.inj (hw.symm.trans hshow)
    exact words_of_mem_pairsOf (mem_pairsOf_of_readVals hvals hlookup)

/-! ### Parameter sets -/

variable {V : Type} {str : V → List Char} {sets : List (ParamSet V)}

/-- All sets define the same parameters. -/
def SameNames (sets : List (ParamSet V)) : Prop :=
  ∀ kv ∈ sets, ∀ kv' ∈ sets, ∀ k, k ∈ kv → k ∈ kv'

/-- A row holds a parameter set: the index, the values of its parameters, and nothing for the
parameters that only other sets define. -/
def Holds (sql : Sqlite) (str : V → List Char) (sets : List (ParamSet V)) (cols : List Column)
    (kv : ParamSet V) (index : ℕ) (row : List (Value sql.R)) : Prop :=
  field cols row idName = some (.integer index) ∧
    ∀ kv' ∈ sets, ∀ k ∈ kv', (field cols row k).bind sql.shows = (kv.lookup k).map str

/-- The parameter sets survive: the table is created, and has one row for each set. -/
def Survives (isInt isFloat : List Char → Bool) (sql : Sqlite) (str : V → List Char) (db : sql.Db)
    (dirs : List (List Char × List Char)) (sets : List (ParamSet V)) : Prop :=
  ∃ db', createParamsTable isInt isFloat sql db dirs = some db' ∧
    ∃ cols rows, sql.table db' = some (cols, rows) ∧
      ∃ rows', rows'.Perm rows ∧ List.Forall₂
        (fun (p : ParamSet V × ℕ) row => Holds sql str sets cols p.1 p.2 row) sets.zipIdx rows'

/-- The directories that are staged. -/
lemma mem_stage {d : List Char × List Char} :
    d ∈ stage str sets ↔ ∃ kv i, (kv, i) ∈ sets.zipIdx ∧ d = (outdir i, paramsTxt str kv) := by
  rw [stage, List.mem_map]
  exact ⟨fun ⟨p, hp, hd⟩ => ⟨p.1, p.2, hp, hd.symm⟩, fun ⟨kv, i, hp, hd⟩ => ⟨(kv, i), hp, hd.symm⟩⟩

/-- Every set is staged. -/
lemma exists_mem_zipIdx {kv : ParamSet V} (hkv : kv ∈ sets) : ∃ i, (kv, i) ∈ sets.zipIdx := by
  obtain ⟨i, hi, rfl⟩ := List.getElem_of_mem hkv
  exact ⟨i, List.mem_zipIdx_iff_getElem?.mpr (List.getElem?_eq_getElem hi)⟩

/-- The parameters in the files are those of the sets. -/
lemma mem_paramNames_allPairs (hsets : ∀ kv ∈ sets, Lines str kv)
    (hperm : dirs.Perm (stage str sets)) (hread : ∀ d ∈ dirs, (readPairs d.2).isSome)
    {k : List Char} : k ∈ paramNames (allPairs dirs) ↔ ∃ kv ∈ sets, k ∈ kv := by
  rw [mem_paramNames]
  constructor
  · rintro ⟨w, hw⟩
    obtain ⟨d, hd, hw⟩ := List.mem_flatMap.mp hw
    obtain ⟨kv, i, hp, rfl⟩ := mem_stage.mp (hperm.mem_iff.mp hd)
    have hkv := (List.mem_zipIdx' hp).2 ▸ List.getElem_mem _
    obtain ⟨v, hv, -⟩ := (mem_pairsOf (hsets kv hkv) (hread _ hd)).mp hw
    exact ⟨kv, hkv, AList.lookup_isSome.mp (Option.isSome_iff_exists.mpr ⟨v, hv⟩)⟩
  · rintro ⟨kv, hkv, hk⟩
    obtain ⟨i, hp⟩ := exists_mem_zipIdx hkv
    have hd := hperm.mem_iff.mpr (mem_stage.mpr ⟨kv, i, hp, rfl⟩)
    obtain ⟨v, hv⟩ := Option.isSome_iff_exists.mp (AList.lookup_isSome.mpr hk)
    obtain ⟨w, hw⟩ := exists_split_of_readPairs (hsets kv hkv) (hread _ hd) _
      (AList.mem_lookup_iff.mp hv)
    have hpair := (mem_pairsOf (hsets kv hkv) (hread _ hd)).mpr ⟨v, hv, hw⟩
    exact ⟨w, List.mem_flatMap.mpr ⟨_, hd, hpair⟩⟩

/-- **Sets that define different parameters do not survive**, whatever SQLite does, and neither do
values with more or less than one word. -/
theorem sameNames_of_createParamsTable (hnum : ∀ t, isInt t → isFloat t)
    (hsets : ∀ kv ∈ sets, Lines str kv) (hperm : dirs.Perm (stage str sets)) {db db' : sql.Db}
    (h : createParamsTable isInt isFloat sql db dirs = some db') :
    SameNames sets ∧ ∀ kv ∈ sets, ∀ e ∈ kv.entries, ∃ w, split (str e.2) = [w] := by
  have hcols := readable_of_createParamsTable hnum h
  have hread : ∀ d ∈ dirs, (readPairs d.2).isSome := by
    obtain ⟨params, hparams, -⟩ := Option.bind_eq_some_iff.mp h
    exact (getParams_dirs.mp hparams).1
  constructor
  · intro kv hkv kv' hkv' k hk
    have hname := (mem_paramNames_allPairs hsets hperm hread).mpr ⟨kv, hkv, hk⟩
    obtain ⟨i, hp⟩ := exists_mem_zipIdx hkv'
    have hd := hperm.mem_iff.mpr (mem_stage.mpr ⟨kv', i, hp, rfl⟩)
    obtain ⟨vals, hvals, hall⟩ := hcols _ hd
    have hmem : (k, columnType isInt isFloat (allPairs dirs) k) ∈
        paramColumns isInt isFloat (allPairs dirs) := mem_paramColumns.mpr ⟨hname, rfl⟩
    obtain ⟨w, hw⟩ := Option.isSome_iff_exists.mp (hall _ hmem)
    obtain ⟨v, hv, -⟩ := (lookup_readVals (hsets kv' hkv') hvals).mp hw
    exact AList.lookup_isSome.mp (Option.isSome_iff_exists.mpr ⟨v, hv⟩)
  · intro kv hkv
    obtain ⟨i, hp⟩ := exists_mem_zipIdx hkv
    have hd := hperm.mem_iff.mpr (mem_stage.mpr ⟨kv, i, hp, rfl⟩)
    exact exists_split_of_readPairs (hsets kv hkv) (hread _ hd)

/-- Every file defines every column when the sets define the same parameters. -/
lemma readable_of_sameNames (hsets : ∀ kv ∈ sets, Words str kv) (hsame : SameNames sets)
    (hperm : dirs.Perm (stage str sets)) :
    ∀ d ∈ dirs, Readable (paramColumns isInt isFloat (allPairs dirs)) d := by
  have hlines : ∀ kv ∈ sets, Lines str kv := fun kv hkv => (hsets kv hkv).lines
  have hread : ∀ d ∈ dirs, (readPairs d.2).isSome := by
    intro d hd
    obtain ⟨kv, i, hp, rfl⟩ := mem_stage.mp (hperm.mem_iff.mp hd)
    exact isSome_readPairs (hsets kv ((List.mem_zipIdx' hp).2 ▸ List.getElem_mem _))
  intro d hd
  obtain ⟨kv, i, hp, rfl⟩ := mem_stage.mp (hperm.mem_iff.mp hd)
  have hkv : kv ∈ sets := (List.mem_zipIdx' hp).2 ▸ List.getElem_mem _
  obtain ⟨vals, hvals⟩ : ∃ vals, readVals (paramsTxt str kv) = some vals :=
    ⟨_, by rw [readVals, readPairs_of_isSome (hread _ hd), Option.map_some]⟩
  refine ⟨vals, hvals, fun c hc => ?_⟩
  obtain ⟨kv', hkv', hk⟩ :=
    (mem_paramNames_allPairs hlines hperm hread).mp (mem_paramColumns.mp hc).1
  rw [lookup_readVals_of_words (hsets kv hkv) hvals, Option.isSome_map]
  exact AList.lookup_isSome.mpr (hsame kv' hkv' kv hkv _ hk)

/-- The row of a set holds it. -/
lemma holds_of_rowOf (hsets : ∀ kv ∈ sets, Words str kv)
    (hperm : dirs.Perm (stage str sets)) (hsafe : SqlSafe isInt isFloat sql dirs) {kv : ParamSet V}
    {i : ℕ} (hp : (kv, i) ∈ sets.zipIdx) (hi : i < 100000) {row : List (Value sql.R)}
    (hrow : RowOf sql (paramColumns isInt isFloat (allPairs dirs)) (outdir i, paramsTxt str kv)
      row) :
    Holds sql str sets (tableColumns (paramColumns isInt isFloat (allPairs dirs))) kv i row := by
  obtain ⟨idx, vals, values, hidx, hvals, rfl, hvalues⟩ := hrow
  have hkv : kv ∈ sets := (List.mem_zipIdx' hp).2 ▸ List.getElem_mem _
  have hread : ∀ d ∈ dirs, (readPairs d.2).isSome := by
    intro d hd
    obtain ⟨kv', j, hq, rfl⟩ := mem_stage.mp (hperm.mem_iff.mp hd)
    exact isSome_readPairs (hsets kv' ((List.mem_zipIdx' hq).2 ▸ List.getElem_mem _))
  have hnodup :
      ((tableColumns (paramColumns isInt isFloat (allPairs dirs))).map Prod.fst).Nodup := by
    refine List.Nodup.of_map columnKey ?_
    rw [List.map_map]
    exact hsafe.nodup
  rw [tableColumns, List.map_cons, List.map_cons, List.nodup_cons, List.nodup_cons] at hnodup
  obtain ⟨hid, hdir, hnodup⟩ := hnodup
  constructor
  · obtain rfl := Option.some.inj (hidx.symm.trans (toInt_outdir hi))
    rw [field, tableColumns, List.map_cons, List.zip_cons_cons, List.lookup_cons_self]
  · intro kv' hkv' k hk
    have hname := (mem_paramNames_allPairs (fun kv hkv => (hsets kv hkv).lines) hperm hread).mpr
      ⟨kv', hkv', hk⟩
    have hmem : (k, columnType isInt isFloat (allPairs dirs) k) ∈
        paramColumns isInt isFloat (allPairs dirs) := mem_paramColumns.mpr ⟨hname, rfl⟩
    have hne : k ≠ idName := by
      rintro rfl
      exact hid (List.mem_cons_of_mem _ (List.mem_map.mpr ⟨_, hmem, rfl⟩))
    have hne' : k ≠ dirName := by
      rintro rfl
      exact hdir (List.mem_map.mpr ⟨_, hmem, rfl⟩)
    obtain ⟨x, hx, w, hw, hshow⟩ := exists_field hvalues hnodup hmem
    rw [field_tableColumns hne hne', hx, Option.bind_some, hshow, ← hw,
      lookup_readVals_of_words (hsets kv hkv) hvals]

/-- **Which parameter sets survive**, when SQLite takes the names and the values as they are. -/
theorem survives_iff (hnum : ∀ t, isInt t → isFloat t) (hdoc : sql.Documented)
    (hsize : sets.length ≤ 100000) (hperm : dirs.Perm (stage str sets)) {db : sql.Db}
    (hdb : sql.table db = none) (hsafe : SqlSafe isInt isFloat sql (stage str sets)) :
    Survives isInt isFloat sql str db dirs sets ↔
      (∀ kv ∈ sets, Words str kv) ∧ SameNames sets := by
  have hsafe := hsafe.of_perm hperm.symm
  have hindex : ∀ p ∈ sets.zipIdx, p.2 < 100000 := fun p hp =>
    (List.mem_zipIdx' hp).1.trans_le hsize
  have hout : ∀ d ∈ dirs, ∃ i < 100000, d.1 = outdir i := by
    intro d hd
    obtain ⟨kv, i, hp, rfl⟩ := mem_stage.mp (hperm.mem_iff.mp hd)
    exact ⟨i, hindex _ hp, rfl⟩
  constructor
  · rintro ⟨db', hcreate, cols, rows, htable, rows', hrows, hholds⟩
    have hread := readable_of_createParamsTable hnum hcreate
    obtain ⟨db₁, rows₁, hcreate₁, htable₁, hall⟩ :=
      exists_createParamsTable hnum hdoc hsafe hout hread hdb
    obtain rfl := Option.some.inj (hcreate.symm.trans hcreate₁)
    obtain ⟨rfl, rfl⟩ := Prod.mk.inj (Option.some.inj (htable.symm.trans htable₁))
    have hwords : ∀ kv ∈ sets, Words str kv := by
      intro kv hkv e he
      obtain ⟨i, hp⟩ := exists_mem_zipIdx hkv
      obtain ⟨row, hrow, -, hvalue⟩ := exists_mem_right hholds hp
      obtain ⟨d, hd, hd'⟩ := exists_mem_left hall (hrows.mem_iff.mp hrow)
      obtain ⟨j, -, hj⟩ := hout d (List.mem_mergeSort.mp hd)
      have hlookup : kv.lookup e.1 = some e.2 := AList.mem_lookup_iff.mpr he
      have hmem : e.1 ∈ kv := AList.lookup_isSome.mp (Option.isSome_iff_exists.mpr ⟨_, hlookup⟩)
      have hfield := hvalue kv hkv e.1 hmem
      rw [hlookup, Option.map_some] at hfield
      exact word_of_field hd' (hj ▸ word_outdir j) hfield
    exact ⟨hwords, (sameNames_of_createParamsTable hnum (fun kv hkv => (hwords kv hkv).lines) hperm
      hcreate).1⟩
  · rintro ⟨hwords, hsame⟩
    have hread : ∀ d ∈ dirs, Readable (paramColumns isInt isFloat (allPairs dirs)) d :=
      readable_of_sameNames hwords hsame hperm
    obtain ⟨db', rows, hcreate, htable, hall⟩ :=
      exists_createParamsTable hnum hdoc hsafe hout hread hdb
    refine ⟨db', hcreate, _, rows, htable, ?_⟩
    -- the rows are inserted in the order of the names, and are to be found in that of the sets
    have hsort : (stage str sets).Perm (dirs.mergeSort fun a b => decide (a.1 ≤ b.1)) :=
      hperm.symm.trans (List.mergeSort_perm _ _).symm
    obtain ⟨rows', hall', hrows⟩ := List.perm_comp_forall₂ hsort hall
    rw [stage, List.forall₂_map_left_iff] at hall'
    refine ⟨rows', hrows, ?_⟩
    have hboth := (List.forall₂_and_left _ _).mpr ⟨fun p hp => hp, hall'⟩
    exact hboth.imp fun p row h =>
      holds_of_rowOf hwords hperm hsafe h.1 (hindex _ h.1) h.2

/-- **Parameter sets in the results database.**  When SQLite takes the names and the values as they
are, the sets survive exactly if all names and values are words and all sets define the same
parameters.  Whatever SQLite does, names that are words and values without line ends survive only if
all sets define the same parameters and no value has more or less than one word. -/
theorem params_survive (hnum : ∀ t, isInt t → isFloat t) (hdoc : sql.Documented)
    (hsize : sets.length ≤ 100000) (hperm : dirs.Perm (stage str sets)) {db : sql.Db}
    (hdb : sql.table db = none) :
    (SqlSafe isInt isFloat sql (stage str sets) →
      (Survives isInt isFloat sql str db dirs sets ↔
        (∀ kv ∈ sets, Words str kv) ∧ SameNames sets)) ∧
      ((∀ kv ∈ sets, Lines str kv) → Survives isInt isFloat sql str db dirs sets →
        SameNames sets ∧ ∀ kv ∈ sets, ∀ e ∈ kv.entries, ∃ w, split (str e.2) = [w]) := by
  constructor
  · exact survives_iff hnum hdoc hsize hperm hdb
  · rintro hlines ⟨db', hcreate, -⟩
    exact sameNames_of_createParamsTable hnum hlines hperm hcreate

/-- A text that is an integer. -/
def isNumber (t : List Char) : Bool := (toInt t).isSome

/-- One parameter with a number is written with words. -/
lemma words_singleton (k : Char) (hk : k.isLower) (v : ℤ) :
    Words formatLong (AList.singleton [k] v) := by
  intro e he
  obtain rfl := List.mem_singleton.mp he
  refine ⟨⟨List.cons_ne_nil _ _, fun c hc => ?_⟩, word_formatLong v⟩
  rw [List.mem_singleton.mp hc]
  exact isSpace_of_isLower hk

/-- The file of one parameter. -/
lemma mem_pairsOf_singleton {k : Char} (hk : k.isLower) (v : ℤ) {p : List Char × List Char} :
    p ∈ pairsOf (paramsTxt formatLong (AList.singleton [k] v)) ↔ p = ([k], formatLong v) := by
  have hwords := words_singleton k hk v
  obtain ⟨k', w⟩ := p
  rw [mem_pairsOf hwords.lines (isSome_readPairs hwords), Prod.mk.injEq]
  constructor
  · rintro ⟨v', hv', hsplit⟩
    have hmem := List.mem_singleton.mp (AList.mem_lookup_iff.mp hv')
    obtain ⟨rfl, hv⟩ := Sigma.mk.inj hmem
    obtain rfl := eq_of_heq hv
    rw [split_of_word (word_formatLong v')] at hsplit
    exact ⟨rfl, (List.cons.inj hsplit).1.symm⟩
  · rintro ⟨rfl, rfl⟩
    refine ⟨v, AList.mem_lookup_iff.mpr (List.mem_singleton.mpr rfl), ?_⟩
    exact split_of_word (word_formatLong v)

/-- Two values of one parameter can be written as they are. -/
lemma sqlSafe_pair : SqlSafe isNumber isNumber letterSql
    (stage formatLong [AList.singleton ['a'] 1, AList.singleton ['a'] 2]) := by
  have hpairs : allPairs (stage formatLong [AList.singleton ['a'] 1, AList.singleton ['a'] 2]) =
      pairsOf (paramsTxt formatLong (AList.singleton ['a'] 1)) ++
        (pairsOf (paramsTxt formatLong (AList.singleton ['a'] 2)) ++ []) := rfl
  have hmem : ∀ p, p ∈ allPairs (stage formatLong
      [AList.singleton ['a'] 1, AList.singleton ['a'] 2]) ↔
        p = (['a'], formatLong 1) ∨ p = (['a'], formatLong 2) := by
    intro p
    rw [hpairs, List.append_nil, List.mem_append, mem_pairsOf_singleton (by decide),
      mem_pairsOf_singleton (by decide)]
  generalize hstage :
    stage formatLong [AList.singleton ['a'] 1, AList.singleton ['a'] 2] = dirs at *
  have hnames : paramNames (allPairs dirs) = [['a']] := by
    refine List.perm_singleton.mp ((List.perm_ext_iff_of_nodup (List.nodup_dedup _)
      (List.nodup_singleton _)).mpr fun k => ?_)
    rw [← paramNames, mem_paramNames, List.mem_singleton]
    constructor
    · rintro ⟨w, hw⟩
      rcases (hmem _).mp hw with h | h
      · exact (Prod.mk.inj h).1
      · exact (Prod.mk.inj h).1
    · rintro rfl
      exact ⟨_, (hmem _).mpr (Or.inl rfl)⟩
  have htype : ∀ k, columnType isNumber isNumber (allPairs dirs) k = .int := by
    intro k
    rw [columnType, if_pos]
    intro p hp _
    rcases (hmem p).mp hp with rfl | rfl
    · rw [isNumber, toInt_formatLong, Option.isSome_some]
    · rw [isNumber, toInt_formatLong, Option.isSome_some]
  have hcols : paramColumns isNumber isNumber (allPairs dirs) = [(['a'], .int)] := by
    rw [paramColumns, hnames, List.mergeSort_singleton, List.map_singleton, htype]
  constructor
  · intro k hk
    rw [hnames, List.mem_singleton] at hk
    exact ⟨'a', by decide, hk⟩
  · rw [hcols]
    decide
  · rw [hcols]
    decide
  · rw [hcols]
    decide
  · intro p hp
    rw [htype]
    rcases (hmem p).mp hp with rfl | rfl
    · exact ⟨_, Literal.integer (n := 1) (by decide) (by decide)⟩
    · exact ⟨_, Literal.integer (n := 2) (by decide) (by decide)⟩
  · intro d hd idx hidx value hvalue
    rw [hcols] at hvalue ⊢
    have hvalue := hvalue _ List.mem_cons_self
    rw [← hstage, mem_stage] at hd
    obtain ⟨kv, i, hp, rfl⟩ := hd
    have hp : (kv, i) = (AList.singleton ['a'] 1, 0) ∨ (kv, i) = (AList.singleton ['a'] 2, 1) := by
      simpa using hp
    rcases hp with hp | hp
    · obtain ⟨rfl, rfl⟩ := Prod.mk.inj hp
      obtain rfl := Option.some.inj (hidx.symm.trans (toInt_outdir (by decide)))
      have hv := (Prod.mk.inj ((mem_pairsOf_singleton (by decide) 1).mp hvalue)).2
      rw [List.map_singleton, hv]
      decide
    · obtain ⟨rfl, rfl⟩ := Prod.mk.inj hp
      obtain rfl := Option.some.inj (hidx.symm.trans (toInt_outdir (by decide)))
      have hv := (Prod.mk.inj ((mem_pairsOf_singleton (by decide) 2).mp hvalue)).2
      rw [List.map_singleton, hv]
      decide

/-- Two values of one parameter survive. -/
theorem params_survive_test :
    Survives isNumber isNumber letterSql formatLong (none : LetterDb)
      (stage formatLong [AList.singleton ['a'] 1, AList.singleton ['a'] 2])
      [AList.singleton ['a'] 1, AList.singleton ['a'] 2] := by
  have hwords : ∀ kv ∈ [AList.singleton ['a'] 1, AList.singleton ['a'] 2], Words formatLong kv := by
    rw [List.forall_mem_cons, List.forall_mem_singleton]
    exact ⟨words_singleton 'a' (by decide) 1, words_singleton 'a' (by decide) 2⟩
  have hsame : SameNames [AList.singleton ['a'] (1 : ℤ), AList.singleton ['a'] 2] := by
    intro kv hkv kv' hkv' k hk
    simp only [List.mem_cons, List.not_mem_nil, or_false] at hkv hkv'
    rcases hkv with rfl | rfl <;> rcases hkv' with rfl | rfl <;> exact hk
  exact ((params_survive (fun _ h => h) letterSql_documented (by decide) (List.Perm.refl _) rfl).1
    sqlSafe_pair).mpr ⟨hwords, hsame⟩

/-- Two sets with different parameters do not survive: the first file does not define `b`. -/
theorem params_survive_counterexample :
    ¬ Survives isNumber isNumber letterSql formatLong (none : LetterDb)
      (stage formatLong [AList.singleton ['a'] 1, AList.singleton ['b'] 2])
      [AList.singleton ['a'] 1, AList.singleton ['b'] 2] := by
  rintro ⟨db', hcreate, -⟩
  have hlines : ∀ kv ∈ [AList.singleton ['a'] 1, AList.singleton ['b'] 2], Lines formatLong kv := by
    rw [List.forall_mem_cons, List.forall_mem_singleton]
    exact ⟨(words_singleton 'a' (by decide) 1).lines, (words_singleton 'b' (by decide) 2).lines⟩
  have hsame := (sameNames_of_createParamsTable (fun _ h => h) hlines (List.Perm.refl _) hcreate).1
  have hmem : ['a'] ∈ AList.singleton ['b'] (2 : ℤ) :=
    hsame _ List.mem_cons_self _ (List.mem_cons_of_mem _ List.mem_cons_self) ['a'] (by decide)
  exact absurd hmem (by decide)

end ParamsTable

end MeshSim
