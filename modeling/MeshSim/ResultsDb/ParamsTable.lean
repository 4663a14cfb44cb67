import MeshSim.Foundation.PythonText

/-!
# The table of parameters

`gen_mk_target_and_conf` of `scripts/stagesim` writes the parameters of every simulation run to a
file `params.txt`; `create_params_table` of `scripts/createresultsdb` reads these files and stores
them in the table `params` of an SQLite database.

The values are of any type, with the text that `str` makes of them.  SQLite is a parameter: what it
makes of a statement, which is a text, is given by `Sqlite.execute`, and `Sqlite.Documented` says
what is relied on.  Whether a text is a number to `int()` and to `float()` is a parameter as well.
-/

namespace MeshSim

namespace ParamsTable

open PythonText

/-! ### Staging -/

/-- `"%05d" % n` -/
def format05d (n : ℕ) : List Char := zeroPad 5 n

/-- The directory of a run: `"run%sparams_%05d" % (os.sep, index)`. -/
def outdir (index : ℕ) : List Char := "run/params_".toList ++ format05d index

/-- `"%-15s %s\n" % (k, v)` -/
def paramLine (k v : List Char) : List Char :=
  k ++ List.replicate (15 - k.length) ' ' ++ ' ' :: v ++ ['\n']

/-- A set of parameters. -/
abbrev ParamSet (V : Type) := AList fun _ : List Char => V

variable {V : Type} (str : V → List Char)

/-- The file `params.txt` of a run. -/
def paramsTxt (kv : ParamSet V) : List Char :=
  (kv.entries.mergeSort fun a b => decide (a.1 ≤ b.1)).flatMap fun e => paramLine e.1 (str e.2)

/-- What `gen_mk_target_and_conf` leaves for some parameter sets: the directories of the runs, with
the files `params.txt` in them. -/
def stage (sets : List (ParamSet V)) : List (List Char × List Char) :=
  sets.zipIdx.map fun p => (outdir p.2, paramsTxt str p.1)

/-! ### The database -/

/-- The types of columns. -/
inductive ColumnType where
  /-- `'i'`. -/
  | int
  /-- `'f'`. -/
  | real
  /-- `'s'`. -/
  | varchar
deriving DecidableEq, Repr

/-- `typename`. -/
def ColumnType.typename : ColumnType → List Char
  | .int => "int".toList
  | .real => "real".toList
  | .varchar => "varchar(24)".toList

/-- A value in the database, where `R` are the real numbers. -/
inductive Value (R : Type) where
  /-- `NULL`. -/
  | null
  /-- An integer. -/
  | integer (n : ℤ)
  /-- A real number. -/
  | real (x : R)
  /-- A text. -/
  | text (t : List Char)

/-- A column, by its name and its type. -/
abbrev Column := List Char × ColumnType

/-- The name of the first column. -/
def idName : List Char := ['i', 'd']

/-- The name of the second column. -/
def dirName : List Char := ['d', 'i', 'r']

/-- The statement that creates the table, up to the columns of the parameters. -/
def createHead : List Char := "CREATE TABLE params (id int, dir varchar(24)".toList

/-- The statement that creates the table. -/
def createCmd (cols : List Column) : List Char :=
  createHead ++ cols.flatMap (fun c => ',' :: ' ' :: c.1 ++ ' ' :: c.2.typename) ++ [')']

/-- A value in a statement: texts are put between double quotes. -/
def valueExpr (ty : ColumnType) (v : List Char) : List Char :=
  match ty with
  | .varchar => '"' :: v ++ ['"']
  | _ => v

/-- The statement that inserts a row, up to its values. -/
def insertHead : List Char := "INSERT INTO params VALUES (".toList

/-- The statement that inserts a row. -/
def insertCmd (idx : ℤ) (dirname : List Char) (exprs : List (List Char)) : List Char :=
  insertHead ++ formatLong idx ++ ',' :: ' ' :: '\'' :: dirname ++ ['\''] ++
    exprs.flatMap (fun e => ',' :: ' ' :: e) ++ [')']

/-- A connection to an SQLite database. -/
structure Sqlite where
  /-- Real numbers. -/
  R : Type
  /-- The numbers that are stored as they are: they are not infinite, undefined or a negative
  zero. -/
  Storable : R → Prop
  /-- What Python shows of a number. -/
  repr : R → List Char
  /-- The state of the database. -/
  Db : Type
  /-- Executing a statement, which may fail. -/
  execute : Db → List Char → Option Db
  /-- The columns and the rows of the table `params`, if there is one. -/
  table : Db → Option (List Column × List (List (Value R)))
  /-- The names that may be used for columns without quoting them. -/
  IsName : List Char → Prop
  /-- The limit for the number of columns of a table. -/
  maxColumns : ℕ
  /-- The limit for the length of a statement. -/
  maxLength : ℕ

namespace Sqlite

variable (sql : Sqlite)

/-- What Python shows of a value, which is nothing for `NULL`. -/
def shows : Value sql.R → Option (List Char)
  | .null => none
  | .integer n => some (formatLong n)
  | .real x => some (sql.repr x)
  | .text t => some t

/-- The texts that are literals, for a column of some type, and the values that are stored. -/
inductive Literal : ColumnType → List Char → Value sql.R → Prop where
  /-- An integer of 64 bits. -/
  | integer {n : ℤ} (hmin : -2 ^ 63 ≤ n) (hmax : n < 2 ^ 63) :
    Literal .int (formatLong n) (.integer n)
  /-- A number. -/
  | real {x : sql.R} (hx : sql.Storable x) : Literal .real (sql.repr x) (.real x)
  /-- A text between double quotes, without double quotes or zero characters in it. -/
  | text {t : List Char} (hquote : '"' ∉ t) (hzero : Char.ofNat 0 ∉ t) :
    Literal .varchar ('"' :: t ++ ['"']) (.text t)

/-- The names of columns, which do not depend on the case of letters. -/
def columnKey (name : List Char) : List Char := name.map Char.toLower

/-- All columns of the table. -/
def tableColumns (cols : List Column) : List Column :=
  (idName, .int) :: (dirName, .varchar) :: cols

/-- What is relied on. -/
structure Documented : Prop where
  /-- Names are words. -/
  word : ∀ name, sql.IsName name → Word name
  /-- A table is created when its columns have different names. -/
  create : ∀ db cols, sql.table db = none → (∀ c ∈ cols, sql.IsName c.1) →
    ((tableColumns cols).map fun c => columnKey c.1).Nodup →
    (tableColumns cols).length ≤ sql.maxColumns → (createCmd cols).length ≤ sql.maxLength →
    ∃ db', sql.execute db (createCmd cols) = some db' ∧
      sql.table db' = some (tableColumns cols, [])
  /-- A row of literals is inserted when there is one for each column. -/
  insert : ∀ db cols rows idx dirname exprs values,
    sql.table db = some (tableColumns cols, rows) → -2 ^ 63 ≤ idx → idx < 2 ^ 63 →
    '\'' ∉ dirname → Char.ofNat 0 ∉ dirname →
    List.Forall₂ (fun (c : Column) (e : List Char × Value sql.R) => sql.Literal c.2 e.1 e.2) cols
      (exprs.zip values) → exprs.length = values.length →
    (insertCmd idx dirname exprs).length ≤ sql.maxLength →
    ∃ db', sql.execute db (insertCmd idx dirname exprs) = some db' ∧
      sql.table db' =
        some (tableColumns cols, rows ++ [.integer idx :: .text dirname :: values])

end Sqlite

/-! ### Reading the files -/

variable (isInt isFloat : List Char → Bool)

/-- `k, v = l.strip().split()`, which raises an exception when there are not two words. -/
def splitPair (l : List Char) : Option (List Char × List Char) :=
  match split (strip l) with
  | [k, v] => some (k, v)
  | _ => none

/-- The pairs in a file. -/
def readPairs (fp : List Char) : Option (List (List Char × List Char)) :=
  (readLines fp).mapM splitPair

/-- Determining the type: what is no integer may be a number, and what is no number is a text. -/
def refineType (ty : ColumnType) (v : List Char) : ColumnType :=
  let ty := if ty = .int ∧ isInt v = false then .real else ty
  if ty = .real ∧ isFloat v = false then .varchar else ty

/-- The loop over the lines of a file, in `get_params`. -/
def addParam (params : AList fun _ : List Char => ColumnType) (kv : List Char × List Char) :
    AList fun _ : List Char => ColumnType :=
  params.insert kv.1 (refineType isInt isFloat ((params.lookup kv.1).getD .int) kv.2)

/-- `get_params`, on the files in the order in which `glob` finds them. -/
def getParams (fps : List (List Char)) : Option (AList fun _ : List Char => ColumnType) :=
  fps.foldlM (fun params fp =>
    (readPairs fp).map fun pairs => pairs.foldl (addParam isInt isFloat) params) ∅

/-- The columns of the parameters, in the order of `sorted(params.keys())`. -/
def sortedColumns (params : AList fun _ : List Char => ColumnType) : List Column :=
  (params.keys.mergeSort fun a b => decide (a ≤ b)).map fun k => (k, (params.lookup k).getD .int)

/-- `vals`, of which the last one counts. -/
def readVals (fp : List Char) : Option (AList fun _ : List Char => List Char) :=
  (readPairs fp).map fun pairs => pairs.foldl (fun vals kv => vals.insert kv.1 kv.2) ∅

variable (sql : Sqlite)

/-- Adding the parameter set of one directory to the table.  A parameter that the file does not
define raises an exception. -/
def insertRow (cols : List Column) (db : sql.Db) (dir : List Char × List Char) :
    Option sql.Db := do
  let (dirname, fp) := dir
  let idx ← toInt (dirname.drop (dirname.length - 5))
  let vals ← readVals fp
  let exprs ← cols.mapM fun c => (vals.lookup c.1).map (valueExpr c.2)
  sql.execute db (insertCmd idx dirname exprs)

/-- `create_params_table`, on the directories in the order in which `glob` finds them. -/
def createParamsTable (db : sql.Db) (dirs : List (List Char × List Char)) : Option sql.Db := do
  let params ← getParams isInt isFloat (dirs.map Prod.snd)
  let cols := sortedColumns params
  let db ← sql.execute db (createCmd cols)
  (dirs.mergeSort fun a b => decide (a.1 ≤ b.1)).foldlM (insertRow sql cols) db

end ParamsTable

end MeshSim
