import MeshSim.Apps.Wiring

/-!
# The headers of the trace files

`scripts/createresultsdb` reads the headers that `sim/apps_manager.cc` has written at the head of
the trace files: `readHeader` is `_read_header`, applied to the text of a file.

The reader takes the lines of exactly four words.  The line with the tags of the senders has as many
words behind the equals sign as the connect statement has senders, and the tags are printed as C
strings, up to a null character: the tags come back exactly when there is one sender and no null
character (`readHeader_traceFile_iff`); the two indices come back always.
-/

namespace MeshSim

open PythonText

/-! ### The reader -/

/-- The types of header variables, as far as a table has variables of the type. -/
inductive VarType where
  /-- `'i'`. -/
  | int
  /-- `'s'`. -/
  | text

/-- A value that `_read_header` returns, unless it is missing. -/
inductive HeaderValue where
  /-- A value of type `'i'`. -/
  | int (value : ℤ)
  /-- A value of type `'s'`. -/
  | text (value : List Char)
deriving DecidableEq

/-- The loop of `_read_header` over the lines of the file, from what `values_dict` holds. -/
def headerValues (values : List Char → Option (List Char)) :
    List (List Char) → List Char → Option (List Char)
  | [] => values
  | l :: ls =>
    if l.head? = some '#' then
      match split (strip l) with
      | [hash, name, equals, value] =>
        if hash = ['#'] ∧ equals = ['='] then
          headerValues (Function.update values name (some value)) ls
        else headerValues values ls
      | _ => headerValues values ls
    else values

/-- The value of a variable, which may be missing.  A value that is no integer where one is expected
ends the program. -/
def VarType.read (type : VarType) : Option (List Char) → Option (Option HeaderValue)
  | none => some none
  | some value =>
    match type with
    | .int => (toInt value).map fun n => some (.int n)
    | .text => some (some (.text value))

/-- `_read_header`. -/
def readHeader (text : List Char) (vars : List (List Char × VarType)) :
    Option (List (Option HeaderValue)) :=
  vars.mapM fun var => var.2.read (headerValues (fun _ => none) (readLines text) var.1)

/-- The variables of the tables `trace_app_rx` and `trace_app_pl`. -/
def traceAppVars : List (List Char × VarType) :=
  [(HeaderName.appConnectId, .int), (HeaderName.connectStmtId, .int), (HeaderName.tagsTx, .text),
    (HeaderName.tagRx, .text)]

/-! ### The lines of a header -/

/-- A line of a header, word by word. -/
lemma headerLine_eq_line (name : List Char) (values : List (List Char)) :
    headerLine name values = line (['#'] :: name :: ['='] :: values) := by
  have hvalues : ∀ (w : List Char) (vs : List (List Char)),
      List.intercalate [' '] (w :: vs) = w ++ vs.flatMap fun v => ' ' :: v := by
    intro w vs
    induction vs generalizing w with
    | nil => simp
    | cons v vs ih => rw [List.intercalate_cons_cons, ih, List.flatMap_cons]; simp
  rw [headerLine, line, hvalues]
  simp

/-- The fields of the lines of a header. -/
lemma noSpace_headerLine {name : List Char} {values : List (List Char)} (hname : Word name)
    (hvalues : ∀ v ∈ values, NoSpace v) : ∀ w ∈ ['#'] :: name :: ['='] :: values, NoSpace w := by
  have hhash : NoSpace ['#'] := by simp [NoSpace, isSpace]
  have hequals : NoSpace ['='] := by simp [NoSpace, isSpace]
  exact List.forall_mem_cons.mpr ⟨hhash, List.forall_mem_cons.mpr ⟨hname.not_space,
    List.forall_mem_cons.mpr ⟨hequals, hvalues⟩⟩⟩

/-- The names in a header are words. -/
lemma word_headerName : Word HeaderName.appConnectId ∧ Word HeaderName.connectStmtId ∧
    Word HeaderName.tagsTx ∧ Word HeaderName.tagRx := by
  refine ⟨⟨by decide, ?_⟩, ⟨by decide, ?_⟩, ⟨by decide, ?_⟩, ⟨by decide, ?_⟩⟩ <;>
    simp [HeaderName.appConnectId, HeaderName.connectStmtId, HeaderName.tagsTx, HeaderName.tagRx,
      isSpace]

/-- What the reader takes from a line: the only word behind the equals sign. -/
def soleWord (values : List (List Char)) : Option (List Char) :=
  match values.filter fun v => v ≠ [] with
  | [v] => some v
  | _ => none

/-- A value that is not empty is taken. -/
lemma soleWord_singleton {v : List Char} (hv : v ≠ []) : soleWord [v] = some v := by
  have hkeep : [v].filter (fun v => v ≠ []) = [v] :=
    List.filter_eq_self.mpr fun w hw => decide_eq_true (List.mem_singleton.mp hw ▸ hv)
  rw [soleWord, hkeep]

/-- What is taken stands on the line. -/
lemma mem_of_soleWord {values : List (List Char)} {v : List Char} (h : soleWord values = some v) :
    v ∈ values := by
  rw [soleWord] at h
  split at h
  · next heq =>
    cases h
    exact List.mem_of_mem_filter (heq ▸ List.mem_singleton_self v)
  · cases h

/-- **What a line of a header says.** It sets its variable to the only word behind the equals sign,
and is skipped when there is no word or there are several. -/
lemma headerValues_headerLine {name : List Char} (hname : Word name) {vs : List (List Char)}
    (hvs : ∀ v ∈ vs, NoSpace v) {values : List Char → Option (List Char)}
    (hnew : values name = none) (ls : List (List Char)) :
    headerValues values (headerLine name vs :: ls) =
      headerValues (Function.update values name (soleWord vs)) ls := by
  have hhead : (headerLine name vs).head? = some '#' := rfl
  have hwords : split (strip (headerLine name vs)) =
      ['#'] :: name :: ['='] :: vs.filter fun v => v ≠ [] := by
    rw [headerLine_eq_line, split_strip_line_filter (noSpace_headerLine hname hvs)]
    simp [hname.ne_nil]
  rw [headerValues, if_pos hhead, hwords, soleWord]
  rcases vs.filter (fun v => v ≠ []) with _ | ⟨v, _ | ⟨w, vs⟩⟩
  · rw [← hnew, Function.update_eq_self]
  · exact if_pos ⟨rfl, rfl⟩
  · rw [← hnew, Function.update_eq_self]

/-- Behind the header nothing is read. -/
lemma headerValues_readLines {rest : List Char} (hrest : rest.head? ≠ some '#')
    (values : List Char → Option (List Char)) : headerValues values (readLines rest) = values := by
  cases hlines : readLines rest with
  | nil => rfl
  | cons l ls =>
    rw [headerValues, if_neg]
    rw [head_of_readLines hlines]
    exact fun h => hrest (head_of_universalNewlines (by decide) h)

/-! ### What comes back -/

/-- A part of a tag has no white space. -/
lemma noSpace_cStr {s : List Char} (hs : Word s) : NoSpace (cStr s) :=
  fun c hc => hs.not_space c (List.takeWhile_subset _ hc)

/-- The tags as they are printed have no white space. -/
lemma noSpace_map_cStr {tags : List (List Char)} (htags : ∀ s ∈ tags, Word s) :
    ∀ v ∈ tags.map cStr, NoSpace v := by
  intro v hv
  obtain ⟨s, hs, rfl⟩ := List.mem_map.mp hv
  exact noSpace_cStr (htags s hs)

/-- An index has no white space. -/
lemma noSpace_formatLong (n : ℤ) : ∀ v ∈ [formatLong n], NoSpace v :=
  List.forall_mem_singleton.mpr (word_formatLong n).not_space

/-- The text of a file, line by line. -/
lemma readLines_writeHeader {senders : List (List Char)} {tagRx : List Char}
    (hsenders : ∀ s ∈ senders, Word s) (hrx : Word tagRx) (sindex connIndex : ℕ)
    (rest : List Char) :
    readLines (writeHeader sindex connIndex senders tagRx ++ rest) =
      headerLine HeaderName.appConnectId [formatLong sindex] ::
        headerLine HeaderName.connectStmtId [formatLong connIndex] ::
        headerLine HeaderName.tagsTx (senders.map cStr) ::
        headerLine HeaderName.tagRx [cStr tagRx] :: readLines rest := by
  obtain ⟨happ, hstmt, htx, hrxname⟩ := word_headerName
  have hlines := readLines_flatMap_append
    [List.intercalate [' '] (['#'] :: HeaderName.appConnectId :: ['='] :: [formatLong sindex]),
      List.intercalate [' '] (['#'] :: HeaderName.connectStmtId :: ['='] :: [formatLong connIndex]),
      List.intercalate [' '] (['#'] :: HeaderName.tagsTx :: ['='] :: senders.map cStr),
      List.intercalate [' '] (['#'] :: HeaderName.tagRx :: ['='] :: [cStr tagRx])] ?_ rest
  · simp only [writeHeader, headerLine_eq_line, line]
    simpa only [List.flatMap_cons, List.flatMap_nil, List.append_nil, List.map_cons, List.map_nil,
      List.append_assoc, List.cons_append, List.nil_append] using hlines
  · simp only [List.forall_mem_cons]
    refine ⟨?_, ?_, ?_, ?_, fun _ h => (List.not_mem_nil h).elim⟩
    · exact oneLine_join (noSpace_headerLine happ (noSpace_formatLong _))
    · exact oneLine_join (noSpace_headerLine hstmt (noSpace_formatLong _))
    · exact oneLine_join (noSpace_headerLine htx (noSpace_map_cStr hsenders))
    · exact oneLine_join (noSpace_headerLine hrxname (by simpa using noSpace_cStr hrx))

/-- The names in a header are different. -/
lemma headerName_ne : HeaderName.appConnectId ≠ HeaderName.tagRx ∧
    HeaderName.appConnectId ≠ HeaderName.tagsTx ∧
    HeaderName.appConnectId ≠ HeaderName.connectStmtId ∧
    HeaderName.connectStmtId ≠ HeaderName.tagRx ∧ HeaderName.connectStmtId ≠ HeaderName.tagsTx ∧
    HeaderName.tagsTx ≠ HeaderName.tagRx := by
  decide

/-- The values of the variables of a table. -/
lemma mapM_traceAppVars {values : List Char → Option (List Char)} {sindex connIndex : ℕ}
    (happ : values HeaderName.appConnectId = some (formatLong sindex))
    (hstmt : values HeaderName.connectStmtId = some (formatLong connIndex)) :
    traceAppVars.mapM (fun var => var.2.read (values var.1)) =
      some [some (.int sindex), some (.int connIndex),
        (values HeaderName.tagsTx).map HeaderValue.text,
        (values HeaderName.tagRx).map HeaderValue.text] := by
  simp only [traceAppVars, List.mapM_cons, List.mapM_nil, happ, hstmt, VarType.read,
    toInt_formatLong]
  cases values HeaderName.tagsTx <;> cases values HeaderName.tagRx <;> rfl

/-- **What comes back from a header**: the indices, and the tags that are printed as the only word
of their line. -/
theorem readHeader_writeHeader {senders : List (List Char)} {tagRx rest : List Char}
    (hsenders : ∀ s ∈ senders, Word s) (hrx : Word tagRx) (hrest : rest.head? ≠ some '#')
    (sindex connIndex : ℕ) :
    readHeader (writeHeader sindex connIndex senders tagRx ++ rest) traceAppVars =
      some [some (.int sindex), some (.int connIndex),
        (soleWord (senders.map cStr)).map HeaderValue.text,
        (soleWord [cStr tagRx]).map HeaderValue.text] := by
  obtain ⟨happ, hstmt, htx, hrxname⟩ := word_headerName
  obtain ⟨happRx, happTx, happStmt, hstmtRx, hstmtTx, htxRx⟩ := headerName_ne
  rw [readHeader, readLines_writeHeader hsenders hrx,
    headerValues_headerLine happ (noSpace_formatLong _) rfl,
    headerValues_headerLine hstmt (noSpace_formatLong _),
    headerValues_headerLine htx (noSpace_map_cStr hsenders),
    headerValues_headerLine hrxname (by simpa using noSpace_cStr hrx), headerValues_readLines hrest,
    mapM_traceAppVars]
  · rw [Function.update_of_ne htxRx, Function.update_self, Function.update_self]
  · rw [Function.update_of_ne happRx, Function.update_of_ne happTx, Function.update_of_ne happStmt,
      Function.update_self, soleWord_singleton (word_formatLong _).ne_nil]
  · rw [Function.update_of_ne hstmtRx, Function.update_of_ne hstmtTx, Function.update_self,
      soleWord_singleton (word_formatLong _).ne_nil]
  · rw [Function.update_of_ne htxRx.symm, Function.update_of_ne hstmtRx.symm,
      Function.update_of_ne happRx.symm]
  · rw [Function.update_of_ne hstmtTx.symm, Function.update_of_ne happTx.symm]
  · rw [Function.update_of_ne happStmt.symm]

/-- **When tags come back**: exactly when it is one, without a null character. -/
lemma soleWord_eq_join_iff (tags : List (List Char)) (htags : ∀ s ∈ tags, Word s) :
    soleWord (tags.map cStr) = some (List.intercalate [' '] tags) ↔
      tags.length = 1 ∧ ∀ s ∈ tags, '\x00' ∉ s := by
  rcases tags with _ | ⟨s, _ | ⟨s', tags⟩⟩
  · exact iff_of_false nofun fun h => absurd h.1 (by decide)
  · have hs : s ≠ [] := (htags s List.mem_cons_self).ne_nil
    rw [List.map_singleton, List.intercalate_singleton, List.forall_mem_singleton,
      ← cStr_eq_self_iff]
    refine ⟨fun h => ⟨rfl, ?_⟩, fun h => ?_⟩
    · exact (List.mem_singleton.mp (mem_of_soleWord h)).symm
    · rw [h.2, soleWord_singleton hs]
  · refine iff_of_false (fun h => ?_) fun h => absurd h.1 (by simp)
    have hspace := noSpace_map_cStr htags _ (mem_of_soleWord h) ' ' (by simp)
    exact absurd hspace (by decide)

/-- **When a header survives**: exactly when there is one sender and no null character in a tag. -/
lemma readHeader_writeHeader_iff {senders : List (List Char)} {tagRx : List Char}
    (hsenders : ∀ s ∈ senders, Word s) (hrx : Word tagRx) (rest : List Char)
    (hrest : rest.head? ≠ some '#')
    (sindex connIndex : ℕ) :
    readHeader (writeHeader sindex connIndex senders tagRx ++ rest) traceAppVars =
        some [some (.int sindex), some (.int connIndex),
          some (.text (List.intercalate [' '] senders)), some (.text tagRx)] ↔
      senders.length = 1 ∧ ∀ s ∈ tagRx :: senders, '\x00' ∉ s := by
  have htags := soleWord_eq_join_iff senders hsenders
  have htag := soleWord_eq_join_iff [tagRx] (by simpa using hrx)
  have hmap : ∀ (x : Option (List Char)) (v : List Char),
      x.map HeaderValue.text = some (.text v) ↔ x = some v := by
    simp
  rw [List.map_singleton, List.intercalate_singleton, List.forall_mem_singleton] at htag
  rw [readHeader_writeHeader hsenders hrx hrest, List.forall_mem_cons]
  simp only [Option.some.injEq, List.cons.injEq, true_and, and_true, hmap, htags, htag,
    List.length_singleton]
  exact and_assoc.trans (and_congr_right fun _ => and_comm)

/-! ### The files of a connect statement -/

namespace AppsManager

variable {A : AttributeTable} {M : AppsManager} {outDir : List Char} {connIndex sindex : ℕ}

/-- The files of a statement: each has the header of one of its receivers, or none at all. -/
lemma header_of_connectReceivers {senders : List (List Char)} {receivers : List (List Char × ℕ)}
    {r : AppsManager × ℕ × List TraceFile}
    (h : M.connectReceivers A outDir connIndex senders sindex receivers = some r) {t : TraceFile}
    (ht : t ∈ r.2.2) : t.header = [] ∨ ∃ index, ∃ x ∈ receivers,
      t.header = writeHeader index connIndex senders x.1 := by
  induction receivers generalizing M sindex r with
  | nil =>
    cases h
    exact (List.not_mem_nil ht).elim
  | cons x receivers ih =>
    obtain ⟨r₁, -, h₂⟩ := Option.bind_eq_some_iff.mp h
    obtain ⟨r₂, h₃, rfl⟩ := Option.map_eq_some_iff.mp h₂
    rcases List.mem_append.mp ht with ht | ht
    · rcases List.mem_append.mp ht with ht | ht
      · split at ht
        · right
          rcases List.mem_cons.mp ht with rfl | ht
          · exact ⟨r₁.2, x, List.mem_cons_self, rfl⟩
          · rw [List.mem_singleton.mp ht]
            exact ⟨r₁.2, x, List.mem_cons_self, rfl⟩
        · cases ht
      · split at ht
        · rw [List.mem_singleton.mp ht]
          exact Or.inl rfl
        · cases ht
    · refine (ih h₃ ht).imp_right ?_
      rintro ⟨index, y, hy, hheader⟩
      exact ⟨index, y, List.mem_cons_of_mem _ hy, hheader⟩

end AppsManager

/-- **When the header of a file survives.** The trace files of an accepted connect statement have
headers from which the index of the connection, the index of the statement, all tags of the senders
and the tag of the receiver come back if and only if the statement has exactly one sender and
neither its tag nor the tag of the receiver has a null character. -/
theorem readHeader_traceFile_iff {A : AttributeTable} {M : AppsManager} {outDir : List Char}
    {connIndex sindex : ℕ} {cfg : AppConnectionConfig} {r : AppsManager × ℕ × List TraceFile}
    (hok : M.createConns A outDir connIndex sindex cfg = .ok r)
    (hsenders : ∀ s ∈ cfg.senders, Word s) (hreceivers : ∀ s ∈ cfg.receivers, Word s)
    {t : TraceFile} (ht : t ∈ r.2.2) (hheader : t.header ≠ []) :
    ∃ index, ∃ tagRx ∈ cfg.receivers, t.header = writeHeader index connIndex cfg.senders tagRx ∧
      ∀ rest : List Char, rest.head? ≠ some '#' →
        (readHeader (t.header ++ rest) traceAppVars =
            some [some (.int index), some (.int connIndex),
              some (.text (List.intercalate [' '] cfg.senders)), some (.text tagRx)] ↔
          cfg.senders.length = 1 ∧ ∀ s ∈ tagRx :: cfg.senders, '\x00' ∉ s) := by
  rw [AppsManager.createConns] at hok
  split at hok
  · cases hok
  split at hok
  · cases hok
  rename_i r' hconn
  cases hok
  obtain ⟨index, x, hx, heq⟩ :=
    (AppsManager.header_of_connectReceivers hconn ht).resolve_left hheader
  have hmem := List.fst_mem_of_mem_zipIdx hx
  refine ⟨index, x.1, hmem, heq, fun rest hrest => ?_⟩
  rw [heq]
  exact readHeader_writeHeader_iff hsenders (hreceivers _ hmem) _ hrest index connIndex

/-- Two senders `a` and `b`, and an encoder `e`. -/
def twoSenders : AppsManager where
  records := fun tag =>
    if tag = ['a'] then AppRecord.ofType .streamingServer 1
    else if tag = ['b'] then AppRecord.ofType .streamingServer 2
    else if tag = ['e'] then AppRecord.ofType .rqEncoder 3
    else none
  attributes := fun _ => none

/-- The tags of the example are words. -/
lemma word_twoSenders : ∀ s ∈ [['a'], ['b'], ['e']], Word s := by
  intro s hs
  simp only [List.mem_cons, List.not_mem_nil, or_false] at hs
  rcases hs with rfl | rfl | rfl <;> exact ⟨by decide, by simp [isSpace]⟩

/-- A run that has written a header has a file with it. -/
lemma exists_traceFile {x : Except AppsError (AppsManager × ℕ × List TraceFile)} {h : List Char}
    {hs : List (List Char)}
    (hx : (x.toOption.map fun r => r.2.2.map TraceFile.header) = some (h :: hs)) :
    ∃ r, x = .ok r ∧ ∃ t ∈ r.2.2, t.header = h := by
  cases x with
  | error e => cases hx
  | ok r =>
    have hheaders : r.2.2.map TraceFile.header = h :: hs := Option.some.inj hx
    refine ⟨r, rfl, List.mem_map.mp ?_⟩
    rw [hheaders]
    exact List.mem_cons_self

/-- One sender comes back. -/
theorem readHeader_traceFile_iff_one :
    ∃ r, twoSenders.createConns AppsManager.lenient [] 0 0 ⟨[['a']], [['e']]⟩ = .ok r ∧
      ∃ t ∈ r.2.2, ∃ index, t.header = writeHeader index 0 [['a']] ['e'] ∧
        readHeader (t.header ++ ['7', ' ', '1', '\n']) traceAppVars =
          some [some (.int index), some (.int 0), some (.text ['a']), some (.text ['e'])] := by
  have hfiles : ((twoSenders.createConns AppsManager.lenient [] 0 0
      ⟨[['a']], [['e']]⟩).toOption.map fun r => r.2.2.map TraceFile.header) =
      some [writeHeader 1 0 [['a']] ['e'], writeHeader 1 0 [['a']] ['e']] := by
    decide +kernel
  obtain ⟨r, hr, t, ht, hheader⟩ := exists_traceFile hfiles
  have hne : t.header ≠ [] := by
    rw [hheader]
    exact List.cons_ne_nil _ _
  obtain ⟨index, tagRx, htag, heq, hread⟩ := readHeader_traceFile_iff hr
    (fun s hs => word_twoSenders s (List.mem_append_left [['b'], ['e']] hs))
    (fun s hs => word_twoSenders s (List.mem_append_right [['a'], ['b']] hs)) ht hne
  obtain rfl := List.mem_singleton.mp htag
  exact ⟨r, hr, t, ht, index, heq, (hread _ (by decide)).mpr (by decide)⟩

/-- **The tags of several senders are lost.** The statement `connect a b : e` is accepted, and the
tags of its senders come back as missing. -/
theorem not_readHeader_traceFile :
    ¬∀ (A : AttributeTable) (M : AppsManager) (outDir : List Char) (connIndex sindex : ℕ)
      (cfg : AppConnectionConfig) (r : AppsManager × ℕ × List TraceFile),
      M.createConns A outDir connIndex sindex cfg = .ok r → (∀ s ∈ cfg.senders, Word s) →
      (∀ s ∈ cfg.receivers, Word s) → ∀ t ∈ r.2.2, t.header ≠ [] →
      ∃ index, ∃ tagRx ∈ cfg.receivers, t.header = writeHeader index connIndex cfg.senders tagRx ∧
        ∀ rest : List Char, rest.head? ≠ some '#' →
          readHeader (t.header ++ rest) traceAppVars =
            some [some (.int index), some (.int connIndex),
              some (.text (List.intercalate [' '] cfg.senders)), some (.text tagRx)] := by
  intro h
  have hfiles : ((twoSenders.createConns AppsManager.lenient [] 0 0
      ⟨[['a'], ['b']], [['e']]⟩).toOption.map fun r => r.2.2.map TraceFile.header) =
      some [writeHeader 2 0 [['a'], ['b']] ['e'], writeHeader 2 0 [['a'], ['b']] ['e']] := by
    decide +kernel
  obtain ⟨r, hr, t, ht, hheader⟩ := exists_traceFile hfiles
  have hsenders : ∀ s ∈ [['a'], ['b']], Word s := fun s hs =>
    word_twoSenders s (List.mem_append_left [['e']] hs)
  have hreceivers : ∀ s ∈ [['e']], Word s := fun s hs =>
    word_twoSenders s (List.mem_append_right [['a'], ['b']] hs)
  obtain ⟨index, tagRx, htag, heq, hread⟩ := h _ _ _ _ _ _ r hr hsenders hreceivers t ht
    (by rw [hheader]; exact List.cons_ne_nil _ _)
  have hread := hread [] (by decide)
  rw [heq, readHeader_writeHeader_iff hsenders (hreceivers _ htag) _ (by decide)] at hread
  exact absurd hread.1 (by decide)

end MeshSim
