import MeshSim.ResultsDb.ParamsTable

/-!
# A database with letters as names

A database that executes the statements of `create_params_table`, for columns that are named by
single letters and hold integers and texts.  It does what is relied on of SQLite
(`letterSql_documented`).
-/

namespace MeshSim

namespace ParamsTable

open PythonText Sqlite

/-- The columns in the statement that creates the table, behind the first two. -/
def parseColumns : List Char → Option (List Column)
  | [')'] => some []
  | ',' :: ' ' :: k :: ' ' :: 'i' :: 'n' :: 't' :: cs =>
    (parseColumns cs).map fun cols => ([k], .int) :: cols
  | ',' :: ' ' :: k :: ' ' :: 'r' :: 'e' :: 'a' :: 'l' :: cs =>
    (parseColumns cs).map fun cols => ([k], .real) :: cols
  | ',' :: ' ' :: k :: ' ' :: 'v' :: 'a' :: 'r' :: 'c' :: 'h' :: 'a' :: 'r' :: '(' :: '2' :: '4' ::
      ')' :: cs =>
    (parseColumns cs).map fun cols => ([k], .varchar) :: cols
  | _ => none

/-- The values in a statement that inserts a row, behind the first two. -/
def parseValues : List Column → List Char → Option (List (Value Empty))
  | [], [')'] => some []
  | (_, .int) :: cols, ',' :: ' ' :: cs => do
    let n ← toInt (cs.takeWhile fun c => c ≠ ',' ∧ c ≠ ')')
    let values ← parseValues cols (cs.dropWhile fun c => c ≠ ',' ∧ c ≠ ')')
    some (.integer n :: values)
  | (_, .varchar) :: cols, ',' :: ' ' :: '"' :: cs => do
    let values ← parseValues cols ((cs.dropWhile fun c => c ≠ '"').drop 1)
    some (.text (cs.takeWhile fun c => c ≠ '"') :: values)
  | _, _ => none

/-- The state of the database: the columns and the rows of the table, if there is one. -/
abbrev LetterDb := Option (List Column × List (List (Value Empty)))

/-- Executing a statement: it creates the table, or inserts a row into it. -/
def LetterDb.execute : LetterDb → List Char → Option LetterDb
  | none, cmd =>
    (parseColumns (cmd.drop createHead.length)).map
      fun cols => some (tableColumns cols, [])
  | some (cols, rows), cmd => do
    let cs := cmd.drop insertHead.length
    let idx ← toInt (cs.takeWhile fun c => c ≠ ',')
    let cs := (cs.dropWhile fun c => c ≠ ',').drop 3
    let values ← parseValues (cols.drop 2) ((cs.dropWhile fun c => c ≠ '\'').drop 1)
    some (some (cols, rows ++ [.integer idx :: .text (cs.takeWhile fun c => c ≠ '\'') :: values]))

/-- The database, with the usual limits. -/
def letterSql : Sqlite where
  R := Empty
  Storable _ := False
  repr x := x.elim
  Db := LetterDb
  execute := LetterDb.execute
  table db := db
  IsName k := ∃ c : Char, c.isLower ∧ k = [c]
  maxColumns := 2000
  maxLength := 1000000

/-- Letters are no white space. -/
lemma isSpace_of_isLower {c : Char} (h : c.isLower) : isSpace c = false := by
  have hle : 97 ≤ c.toNat ∧ c.toNat ≤ 122 := by
    simp only [Char.isLower, Bool.and_eq_true, decide_eq_true_eq, ge_iff_le, UInt32.le_iff_toNat_le]
      at h
    exact h
  simp only [isSpace, Bool.or_eq_false_iff, Bool.and_eq_false_iff, decide_eq_false_iff_not,
    beq_eq_false_iff_ne]
  omega

/-- A column is read as it is written. -/
lemma parseColumns_cons (k : Char) (ty : ColumnType) (cs : List Char) :
    parseColumns (',' :: ' ' :: k :: ' ' :: (ty.typename ++ cs)) =
      (parseColumns cs).map fun cols => ([k], ty) :: cols := by
  cases ty with
  | int => rfl
  | real => rfl
  | varchar => rfl

/-- The columns are read as they are written. -/
lemma parseColumns_flatMap {cols : List Column} (hcols : ∀ c ∈ cols, letterSql.IsName c.1) :
    parseColumns (cols.flatMap (fun c => ',' :: ' ' :: c.1 ++ ' ' :: c.2.typename) ++ [')']) =
      some cols := by
  induction cols with
  | nil => rfl
  | cons c cols ih =>
    obtain ⟨⟨k, -, hk⟩, hcols⟩ := List.forall_mem_cons.mp hcols
    have hrest := ih hcols
    obtain ⟨name, ty⟩ := c
    obtain rfl : name = [k] := hk
    have hlist : (([k], ty) :: cols).flatMap (fun c => ',' :: ' ' :: c.1 ++ ' ' :: c.2.typename) ++
        [')'] = ',' :: ' ' :: k :: ' ' :: (ty.typename ++
          (cols.flatMap (fun c => ',' :: ' ' :: c.1 ++ ' ' :: c.2.typename) ++ [')'])) := by
      rw [List.flatMap_cons, List.append_assoc]
      rfl
    rw [hlist, parseColumns_cons, hrest, Option.map_some]

/-- Reading until a character that ends it. -/
lemma takeWhile_append_cons {p : Char → Bool} {w : List Char} (hw : ∀ c ∈ w, p c) {s : Char}
    (hs : p s = false) (rest : List Char) :
    (w ++ s :: rest).takeWhile p = w ∧ (w ++ s :: rest).dropWhile p = s :: rest := by
  rw [List.takeWhile_append_of_pos hw, List.dropWhile_append_of_pos hw,
    List.takeWhile_cons_of_neg (by rw [hs]; decide),
    List.dropWhile_cons_of_neg (by rw [hs]; decide), List.append_nil]
  exact ⟨rfl, rfl⟩

/-- A character of a number is no comma and no bracket. -/
lemma ne_of_mem_formatLong {n : ℤ} {c d : Char} (hc : c ∈ formatLong n) (hd : d.isDigit = false)
    (hminus : d ≠ '-') : c ≠ d := by
  have hdigits : ∀ c ∈ Nat.toDigits 10 n.natAbs, c ≠ d := fun c hc =>
    ne_of_isDigit (Nat.isDigit_of_mem_toDigits (by decide) (by decide) hc) hd
  rw [formatLong] at hc
  split at hc
  · rcases List.mem_cons.mp hc with rfl | hc
    · exact hminus.symm
    · exact hdigits c hc
  · exact hdigits c hc

/-- What follows a value starts with a comma or a bracket. -/
lemma exists_flatMap_eq (exprs : List (List Char)) :
    ∃ s rest, exprs.flatMap (fun e => ',' :: ' ' :: e) ++ [')'] = s :: rest ∧
      (s = ',' ∨ s = ')') := by
  cases exprs with
  | nil => exact ⟨')', [], rfl, Or.inr rfl⟩
  | cons e exprs => exact ⟨',', _, rfl, Or.inl rfl⟩

/-- A value is read as it is written. -/
lemma parseValues_cons {ty : ColumnType} {e : List Char} {x : Value letterSql.R}
    (hlit : letterSql.Literal ty e x) (k : List Char) {cols : List Column} {s : Char}
    (hs : s = ',' ∨ s = ')') {cs : List Char} {values : List (Value Empty)}
    (hvalues : parseValues cols (s :: cs) = some values) :
    parseValues ((k, ty) :: cols) (',' :: ' ' :: (e ++ s :: cs)) = some (x :: values) := by
  cases hlit with
  | @integer n hmin hmax =>
    have hn : ∀ c ∈ formatLong n, decide (c ≠ ',' ∧ c ≠ ')') := fun c hc =>
      decide_eq_true ⟨ne_of_mem_formatLong hc (by decide) (by decide),
        ne_of_mem_formatLong hc (by decide) (by decide)⟩
    have hend : decide (s ≠ ',' ∧ s ≠ ')') = false := by
      rcases hs with rfl | rfl <;> decide
    obtain ⟨htake, hdrop⟩ := takeWhile_append_cons hn hend cs
    simp only [parseValues, htake, hdrop, toInt_formatLong, hvalues, Option.bind_eq_bind,
      Option.bind_some]
    rfl
  | real hx => exact hx.elim
  | @text t hquote hzero =>
    have ht : ∀ c ∈ t, decide (c ≠ '"') := fun c hc => decide_eq_true fun h => hquote (h ▸ hc)
    obtain ⟨htake, hdrop⟩ := takeWhile_append_cons ht (s := '"') (by decide) (s :: cs)
    have hexpr : '"' :: t ++ ['"'] ++ s :: cs = '"' :: (t ++ '"' :: s :: cs) := by simp
    rw [hexpr]
    simp only [parseValues, htake, hdrop, List.drop_one, List.tail_cons, hvalues,
      Option.bind_eq_bind, Option.bind_some]
    rfl

/-- The values are read as they are written. -/
lemma parseValues_flatMap {cols : List Column} {exprs : List (List Char)}
    {values : List (Value Empty)} (hlen : exprs.length = values.length)
    (h : List.Forall₂ (fun (c : Column) (e : List Char × Value Empty) =>
      letterSql.Literal c.2 e.1 e.2) cols (exprs.zip values)) :
    parseValues cols (exprs.flatMap (fun e => ',' :: ' ' :: e) ++ [')']) = some values := by
  induction cols generalizing exprs values with
  | nil =>
    have hnil := List.forall₂_nil_left_iff.mp h
    cases exprs with
    | nil =>
      obtain rfl := List.length_eq_zero_iff.mp hlen.symm
      rfl
    | cons e exprs =>
      cases values with
      | nil => cases hlen
      | cons x values => cases hnil
  | cons c cols ih =>
    obtain ⟨p, rest, hlit, hrest, heq⟩ := List.forall₂_cons_left_iff.mp h
    cases exprs with
    | nil => cases heq
    | cons e exprs =>
      cases values with
      | nil => cases hlen
      | cons x values =>
        obtain ⟨rfl, rfl⟩ := List.cons.inj heq
        have hvalues := ih (Nat.succ.inj hlen) hrest
        obtain ⟨s, tail, htail, hs⟩ := exists_flatMap_eq exprs
        rw [htail] at hvalues
        have hlist : (e :: exprs).flatMap (fun e => ',' :: ' ' :: e) ++ [')'] =
            ',' :: ' ' :: (e ++ s :: tail) := by
          rw [← htail]
          simp
        rw [hlist]
        exact parseValues_cons hlit c.1 hs hvalues

/-- **The database does what is relied on.** -/
theorem letterSql_documented : letterSql.Documented := by
  constructor
  · rintro name ⟨c, hc, rfl⟩
    refine ⟨List.cons_ne_nil _ _, fun d hd => ?_⟩
    rw [List.mem_singleton.mp hd]
    exact isSpace_of_isLower hc
  · intro db cols hdb hname hnodup hcolumns hlength
    obtain rfl : db = none := hdb
    refine ⟨some (tableColumns cols, []), ?_, rfl⟩
    have hdrop : (createCmd cols).drop createHead.length =
        cols.flatMap (fun c => ',' :: ' ' :: c.1 ++ ' ' :: c.2.typename) ++ [')'] := by
      rw [createCmd, List.append_assoc, List.drop_left]
    change LetterDb.execute none (createCmd cols) = _
    rw [LetterDb.execute, hdrop, parseColumns_flatMap hname, Option.map_some]
    rfl
  · intro db cols rows idx dirname exprs values hdb hmin hmax hquote hzero hlit hlen hlength
    obtain rfl : db = some (tableColumns cols, rows) := hdb
    refine ⟨some (tableColumns cols, rows ++ [.integer idx :: .text dirname :: values]), ?_, rfl⟩
    have hdrop : (insertCmd idx dirname exprs).drop insertHead.length =
        formatLong idx ++ ',' :: (' ' :: '\'' :: (dirname ++ '\'' ::
          (exprs.flatMap (fun e => ',' :: ' ' :: e) ++ [')']))) := by
      rw [insertCmd]
      simp only [List.append_assoc, List.drop_left]
      simp
    have hidx : ∀ c ∈ formatLong idx, decide (c ≠ ',') := fun c hc =>
      decide_eq_true (ne_of_mem_formatLong hc (by decide) (by decide))
    have hdir : ∀ c ∈ dirname, decide (c ≠ '\'') := fun c hc =>
      decide_eq_true fun h => hquote (h ▸ hc)
    obtain ⟨htake, hdrop'⟩ := takeWhile_append_cons hidx (s := ',') (by decide)
      (' ' :: '\'' :: (dirname ++ '\'' :: (exprs.flatMap (fun e => ',' :: ' ' :: e) ++ [')'])))
    obtain ⟨htake', hdrop''⟩ := takeWhile_append_cons hdir (s := '\'') (by decide)
      (exprs.flatMap (fun e => ',' :: ' ' :: e) ++ [')'])
    have hvalues := parseValues_flatMap hlen hlit
    change LetterDb.execute (some (tableColumns cols, rows)) (insertCmd idx dirname exprs) = _
    simp only [LetterDb.execute, hdrop, htake, hdrop', toInt_formatLong, List.drop_succ_cons,
      List.drop_zero, htake', hdrop'', tableColumns, hvalues, Option.bind_eq_bind, Option.bind_some]
    rfl

end ParamsTable

end MeshSim
