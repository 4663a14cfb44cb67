import MeshSim.Apps.TraceFiles
import MeshSim.ResultsDb.RxTables
import MeshSim.ResultsDb.TraceHeaders

/-!
# The tables of trace files

`_create_trace_app_table` of `scripts/createresultsdb` goes through the directories of the
simulation runs, and makes a row for every trace file; the function that fills
`trace_app_rx_samples` finds the files again by joining the table with the table of the runs.

A directory is a list of names and texts, in any order.  The order of the rows of a join is a
parameter, since SQL does not say what it is.

`rx_tables` follows the throughput of a receiver through the whole chain: from the connect
statements, by way of the trace file that `createApps` opens and the bytes that are counted in it,
to the row of the receiver in the results database.
-/

namespace MeshSim

open PythonText

/-! ### The tables -/

/-- A file in a directory: its name and its text. -/
abbrev File := List Char × List Char

/-- A row of the table `params`: `id` and `dir`. -/
abbrev ParamsRow := ℕ × List Char

/-- A row of `trace_app_rx` or `trace_app_pl`. -/
structure TraceRow where
  /-- `id`. -/
  id : ℕ
  /-- `params_id`. -/
  paramsId : ℕ
  /-- `filename`. -/
  filename : List Char
  /-- The variables of the header. -/
  vars : List (Option HeaderValue)
deriving DecidableEq

/-- The start of the pattern of file names: `trace-app-`, the kind of trace, and a hyphen. -/
def patternStart (kind : List Char) : List Char :=
  ['t', 'r', 'a', 'c', 'e', '-', 'a', 'p', 'p', '-'] ++ kind ++ ['-']

/-- `re.match(fn_pat, fn)`, where the pattern is the start, some digits and `\.txt`.  The match may
end in front of the end of the name. -/
def matchesPattern (kind fn : List Char) : Bool :=
  (patternStart kind).isPrefixOf fn &&
    let rest := fn.drop (patternStart kind).length
    rest.takeWhile Char.isDigit ≠ [] &&
      ['.', 't', 'x', 't'].isPrefixOf (rest.dropWhile Char.isDigit)

/-- The value that SQLite stores for a variable of a header. -/
def sqlValue : Option HeaderValue → Option (Option HeaderValue)
  | none => some none
  | some (.int n) => (sqlInteger n).map fun n => some (.int n)
  | some (.text s) => some (some (.text s))

/-- The values of the variables of a header, as they are stored. -/
def headerVars (text : List Char) : Option (List (Option HeaderValue)) :=
  (readHeader text traceAppVars).bind fun vars => vars.mapM sqlValue

/-- The row of a file. -/
def traceRow (index paramsId : ℕ) (f : File) : Option TraceRow :=
  (headerVars f.2).map fun vars =>
    { id := index, paramsId := paramsId, filename := f.1, vars := vars }

/-- The loop over the files of a directory, with the index behind it. -/
def insertFiles (kind : List Char) (paramsId : ℕ) : ℕ → List File → Option (ℕ × List TraceRow)
  | index, [] => some (index, [])
  | index, f :: files =>
    if matchesPattern kind f.1 then
      (traceRow index paramsId f).bind fun row =>
        (insertFiles kind paramsId (index + 1) files).map fun r => (r.1, row :: r.2)
    else insertFiles kind paramsId index files

/-- `sorted(os.listdir(dirname))`. -/
def sortedFiles (files : List File) : List File :=
  files.mergeSort fun a b => decide (a.1 ≤ b.1)

/-- The loop over the rows of `params`. -/
def insertRuns (kind : List Char) (listdir : List Char → List File) :
    ℕ → List ParamsRow → Option (List TraceRow)
  | _, [] => some []
  | index, (paramsId, dirname) :: rows =>
    (insertFiles kind paramsId index (sortedFiles (listdir dirname))).bind fun r =>
      (insertRuns kind listdir r.1 rows).map fun rows' => r.2 ++ rows'

/-- `_create_trace_app_table`. -/
def createTraceAppTable (kind : List Char) (listdir : List Char → List File)
    (rows : List ParamsRow) : Option (List TraceRow) :=
  insertRuns kind listdir 0 rows

/-- The join of a table of trace files with `params`: the id, the directory and the name of each
file, in some order. -/
def joinParams (table : List TraceRow) (rows : List ParamsRow) :
    List (ℕ × List Char × List Char) :=
  table.flatMap fun row =>
    (rows.filter fun p => row.paramsId = p.1).map fun p => (row.id, p.2, row.filename)

/-- Opening the files of a join. -/
def openFiles (listdir : List Char → List File) (files : List (ℕ × List Char × List Char)) :
    Option (List (ℕ × List Char)) :=
  files.mapM fun f =>
    ((listdir f.2.1).find? fun g => g.1 = f.2.2).map fun g => (f.1, g.2)

/-! ### The loops -/

/-- The trace files of a directory, in the order of their rows. -/
def matched (kind : List Char) (files : List File) : List File :=
  (sortedFiles files).filter fun f => matchesPattern kind f.1

/-- The trace files of all directories, in the order of their rows. -/
def allMatched (kind : List Char) (listdir : List Char → List File) (rows : List ParamsRow) :
    List (ℕ × File) :=
  rows.flatMap fun p => (matched kind (listdir p.2)).map fun f => (p.1, f)

/-- The rows of a directory whose headers can be read. -/
lemma insertFiles_eq {kind : List Char} {vars : File → List (Option HeaderValue)} (paramsId : ℕ)
    {files : List File} (index : ℕ)
    (hread : ∀ f ∈ files, matchesPattern kind f.1 → headerVars f.2 = some (vars f)) :
    insertFiles kind paramsId index files =
      some (index + (files.filter fun f => matchesPattern kind f.1).length,
        ((files.filter fun f => matchesPattern kind f.1).zipIdx index).map fun f =>
          { id := f.2, paramsId := paramsId, filename := f.1.1, vars := vars f.1 }) := by
  induction files generalizing index with
  | nil => rfl
  | cons f files ih =>
    obtain ⟨hf, hread⟩ := List.forall_mem_cons.mp hread
    by_cases hmatch : matchesPattern kind f.1 = true
    · rw [insertFiles, if_pos hmatch, traceRow, hf hmatch, Option.map_some, Option.bind_some,
        ih (index + 1) hread,
        List.filter_cons_of_pos (p := fun f : File => matchesPattern kind f.1) hmatch,
        Option.map_some, List.zipIdx_cons, List.map_cons, List.length_cons, Nat.add_right_comm,
        Nat.add_assoc]
    · rw [insertFiles, if_neg hmatch, ih index hread,
        List.filter_cons_of_neg (p := fun f : File => matchesPattern kind f.1) hmatch]

/-- The rows of all directories whose headers can be read: they are numbered one after the other. -/
lemma insertRuns_eq {kind : List Char} {vars : File → List (Option HeaderValue)}
    {listdir : List Char → List File} {rows : List ParamsRow} (index : ℕ)
    (hread : ∀ p ∈ rows, ∀ f ∈ listdir p.2, matchesPattern kind f.1 →
      headerVars f.2 = some (vars f)) :
    insertRuns kind listdir index rows =
      some (((allMatched kind listdir rows).zipIdx index).map fun f =>
        { id := f.2, paramsId := f.1.1, filename := f.1.2.1, vars := vars f.1.2 }) := by
  induction rows generalizing index with
  | nil => rfl
  | cons p rows ih =>
    obtain ⟨hp, hread⟩ := List.forall_mem_cons.mp hread
    have hsorted : ∀ f ∈ sortedFiles (listdir p.2), matchesPattern kind f.1 →
        headerVars f.2 = some (vars f) := by
      intro f hf
      exact hp f ((List.mergeSort_perm _ _).mem_iff.mp hf)
    have hmatched : (sortedFiles (listdir p.2)).filter (fun f => matchesPattern kind f.1) =
        matched kind (listdir p.2) := rfl
    have hsplit : allMatched kind listdir (p :: rows) =
        (matched kind (listdir p.2)).map (fun f => (p.1, f)) ++ allMatched kind listdir rows :=
      List.flatMap_cons
    rw [insertRuns, insertFiles_eq p.1 index hsorted, Option.bind_some, hmatched, ih _ hread,
      Option.map_some, hsplit, List.zipIdx_append, List.map_append, List.length_map,
      List.zipIdx_map, List.map_map]
    rfl

/-! ### The names of trace files -/

/-- The kind `rx`. -/
def rxKind : List Char := ['r', 'x']

/-- The name of a trace file in its directory. -/
def traceName (kind : List Char) (index : ℕ) : List Char :=
  patternStart kind ++ setw3 index ++ ['.', 't', 'x', 't']

/-- The name of a trace file is what its path has behind the output directory. -/
lemma drop_tracePath (outDir kind : List Char) (index : ℕ) :
    (tracePath outDir kind index).drop (outDir.length + 1) = traceName kind index := by
  have hpath : tracePath outDir kind index = (outDir ++ ['/']) ++ traceName kind index := by
    simp [tracePath, traceName, patternStart]
  have hlength : outDir.length + 1 = (outDir ++ ['/']).length := by
    rw [List.length_append]
    rfl
  rw [hpath, hlength, List.drop_left]

/-- The names of the files of a kind match its pattern. -/
lemma matchesPattern_traceName (kind : List Char) (index : ℕ) :
    matchesPattern kind (traceName kind index) = true := by
  have hdigits : ∀ c ∈ setw3 index, c.isDigit := fun c hc => isDigit_of_mem_zeroPad hc
  have hne : setw3 index ≠ [] := zeroPad_ne_nil 3 index
  have htake : (setw3 index ++ ['.', 't', 'x', 't']).takeWhile Char.isDigit = setw3 index := by
    rw [List.takeWhile_append_of_pos hdigits]
    exact List.append_nil _
  have hdrop : (setw3 index ++ ['.', 't', 'x', 't']).dropWhile Char.isDigit =
      ['.', 't', 'x', 't'] := by
    rw [List.dropWhile_append_of_pos hdigits]
    rfl
  have hrest : (traceName kind index).drop (patternStart kind).length =
      setw3 index ++ ['.', 't', 'x', 't'] := by
    rw [traceName, List.append_assoc, List.drop_left]
  have hprefix : (patternStart kind).isPrefixOf (traceName kind index) = true := by
    rw [List.isPrefixOf_iff_prefix, traceName, List.append_assoc]
    exact List.prefix_append _ _
  rw [matchesPattern, hprefix, hrest]
  dsimp only
  rw [htake, hdrop]
  simp [hne]

/-- The names of files of the other kinds do not match. -/
lemma not_matchesPattern_traceName (index : ℕ) :
    matchesPattern rxKind (traceName ['p', 'l'] index) = false ∧
      matchesPattern rxKind (traceName ['r', 'q', 'd', 'e', 'c'] index) = false := by
  refine ⟨?_, ?_⟩ <;>
    simp [matchesPattern, traceName, patternStart, rxKind, List.isPrefixOf]

/-! ### The runs of a set of simulations -/

/-- A simulation run. -/
structure SimRun where
  /-- `id` in the table `params`. -/
  paramsId : ℕ
  /-- `dir` in the table `params`. -/
  dir : List Char
  /-- The output directory, as the simulation calls it. -/
  outDir : List Char
  /-- The applications and connect statements. -/
  cfg : AppsCompleteConfig
  /-- The trace files that are opened. -/
  files : List TraceFile
  /-- The packets that the receiver with an index receives. -/
  arrivals : ℕ → List Arrival

namespace SimRun

/-- The receivers whose bytes are counted. -/
def receivers (run : SimRun) : List TracedReceiver :=
  run.cfg.tracedReceivers.filter fun t => (Records.get run.cfg.record t.tagRx).hasRxTrace

/-- The row of a run in the table `params`. -/
def paramsRow (run : SimRun) : ParamsRow := (run.paramsId, run.dir)

/-- The byte counts of a receiver. -/
def byteCounts (run : SimRun) (t : TracedReceiver) : List Char :=
  (AppRxCb.runByteCounts 0 (run.arrivals t.index)).2.flatMap ByteCount.text

/-- The text of the trace file of a receiver. -/
def text (run : SimRun) (t : TracedReceiver) : List Char :=
  writeHeader t.index t.statement t.senders t.tagRx ++ run.byteCounts t

/-- A run that has been made: the connections of its configuration are made, and the directory holds
the trace files with what has been written to them, and files that are not taken for trace files. -/
structure Recorded (A : AttributeTable) (addr2netdev : ℕ → Bool)
    (listdir : List Char → List File) (run : SimRun) : Prop where
  /-- The connections are made. -/
  created : ∃ M, AppsManager.createApps A addr2netdev run.outDir run.cfg = .ok (M, run.files)
  /-- The tags are words. -/
  words : ∀ c ∈ run.cfg.conn, (∀ s ∈ c.senders, Word s) ∧ ∀ s ∈ c.receivers, Word s
  /-- The indices are `int`s. -/
  indices : ∀ t ∈ run.receivers, t.index < 2 ^ 31 ∧ t.statement < 2 ^ 31
  /-- The logs can hold what is received. -/
  fits : ∀ t ∈ run.receivers, AppRxCb.Fits (run.arrivals t.index)
  /-- Time does not go backwards. -/
  sorted : ∀ t ∈ run.receivers, (run.arrivals t.index).Pairwise fun a b => a.1 ≤ b.1
  /-- There is one file of a name. -/
  names : ((listdir run.dir).map Prod.fst).Nodup
  /-- The files of the directory. -/
  listing : ∃ (written : List Char → List Char) (others : List File),
    (listdir run.dir).Perm (run.files.map (fun f =>
      (f.path.drop (run.outDir.length + 1), f.header ++ written f.path)) ++ others) ∧
    (∀ f ∈ others, matchesPattern rxKind f.1 = false) ∧
    ∀ t ∈ run.receivers, written (tracePath run.outDir rxKind t.index) = run.byteCounts t

variable {A : AttributeTable} {addr2netdev : ℕ → Bool} {listdir : List Char → List File}
  {run : SimRun}

/-- The file of a receiver. -/
def file (run : SimRun) (t : TracedReceiver) : File := (traceName rxKind t.index, run.text t)

/-- The files of one receiver that are taken for throughput traces. -/
lemma filter_files (outDir : List Char) (rec : Records) (written : List Char → List Char)
    (t : TracedReceiver) :
    ((t.files outDir rec).map fun f =>
      (f.path.drop (outDir.length + 1), f.header ++ written f.path)).filter
        (fun f => matchesPattern rxKind f.1) =
      if (rec.get t.tagRx).hasRxTrace then
        [(traceName rxKind t.index, writeHeader t.index t.statement t.senders t.tagRx ++
          written (tracePath outDir rxKind t.index))]
      else [] := by
  obtain ⟨hpl, hdec⟩ := not_matchesPattern_traceName t.index
  have hrx := matchesPattern_traceName rxKind t.index
  rw [rxKind] at hrx hpl hdec ⊢
  unfold TracedReceiver.files traceFiles
  split <;> split <;> simp [drop_tracePath, hrx, hpl, hdec]

/-- **The trace files of a directory** are the ones of the receivers whose bytes are counted. -/
lemma Recorded.matched_perm (h : run.Recorded A addr2netdev listdir) :
    (matched rxKind (listdir run.dir)).Perm (run.receivers.map run.file) := by
  obtain ⟨M, hM⟩ := h.created
  obtain ⟨written, others, hperm, hothers, hwritten⟩ := h.listing
  have hfiles : run.files =
      run.cfg.tracedReceivers.flatMap (TracedReceiver.files run.outDir run.cfg.record) :=
    AppsManager.traceFiles_createApps hM
  have hnone : others.filter (fun f => matchesPattern rxKind f.1) = [] :=
    List.filter_eq_nil_iff.mpr fun f hf => by rw [hothers f hf]; decide
  have hfilter := ((List.mergeSort_perm (listdir run.dir) fun a b => decide (a.1 ≤ b.1)).trans
    hperm).filter fun f => matchesPattern rxKind f.1
  rw [List.filter_append, hnone, List.append_nil] at hfilter
  refine hfilter.trans (List.Perm.of_eq ?_)
  rw [hfiles, List.map_flatMap, List.filter_flatMap]
  simp only [filter_files]
  have hall : ∀ ts : List TracedReceiver,
      (∀ t ∈ ts, (Records.get run.cfg.record t.tagRx).hasRxTrace = true →
        written (tracePath run.outDir rxKind t.index) = run.byteCounts t) →
      (ts.flatMap fun t => if (Records.get run.cfg.record t.tagRx).hasRxTrace then
        [(traceName rxKind t.index, writeHeader t.index t.statement t.senders t.tagRx ++
          written (tracePath run.outDir rxKind t.index))] else []) =
      (ts.filter fun t => (Records.get run.cfg.record t.tagRx).hasRxTrace).map run.file := by
    intro ts hts
    induction ts with
    | nil => rfl
    | cons t ts ih =>
      obtain ⟨ht, hts⟩ := List.forall_mem_cons.mp hts
      rw [List.flatMap_cons, ih hts, List.filter_cons]
      split
      · rename_i hrx
        rw [ht hrx]
        rfl
      · rfl
  exact hall _ fun t ht hrx => hwritten t (List.mem_filter.mpr ⟨ht, hrx⟩)

/-- The files of the receivers are in the directory. -/
lemma Recorded.file_mem (h : run.Recorded A addr2netdev listdir) {t : TracedReceiver}
    (ht : t ∈ run.receivers) : run.file t ∈ listdir run.dir := by
  have hmem : run.file t ∈ matched rxKind (listdir run.dir) :=
    h.matched_perm.mem_iff.mpr (List.mem_map_of_mem ht)
  exact (List.mergeSort_perm _ _).mem_iff.mp (List.mem_of_mem_filter hmem)

/-- The file of a receiver is found by its name. -/
lemma Recorded.find?_file (h : run.Recorded A addr2netdev listdir) {t : TracedReceiver}
    (ht : t ∈ run.receivers) :
    (listdir run.dir).find? (fun g => g.1 = traceName rxKind t.index) = some (run.file t) := by
  have hmem := h.file_mem ht
  have hsome : ((listdir run.dir).find? fun g => g.1 = traceName rxKind t.index).isSome :=
    List.find?_isSome.mpr ⟨run.file t, hmem, decide_eq_true rfl⟩
  obtain ⟨g, hg⟩ := Option.isSome_iff_exists.mp hsome
  have hname : g.1 = traceName rxKind t.index := by simpa using List.find?_some hg
  rw [hg, List.inj_on_of_nodup_map h.names (List.mem_of_find?_eq_some hg) hmem hname]

/-- The tags of a receiver are words. -/
lemma Recorded.word_tags (h : run.Recorded A addr2netdev listdir) {t : TracedReceiver}
    (ht : t ∈ run.receivers) : (∀ s ∈ t.senders, Word s) ∧ Word t.tagRx := by
  have hmem : (t.statement, t.senders, t.tagRx) ∈
      run.cfg.tracedReceivers.map fun t => (t.statement, t.senders, t.tagRx) :=
    List.mem_map_of_mem (List.mem_of_mem_filter ht)
  rw [AppsCompleteConfig.tracedReceivers, AppsManager.map_tracedByAll] at hmem
  obtain ⟨c, hc, hmem⟩ := List.mem_flatMap.mp hmem
  obtain ⟨tagRx, htag, heq⟩ := List.mem_map.mp hmem
  obtain ⟨-, hsenders, hrx⟩ : c.2 = t.statement ∧ c.1.senders = t.senders ∧ tagRx = t.tagRx := by
    simpa using heq
  obtain ⟨hwords, hwords'⟩ := h.words c.1 (List.fst_mem_of_mem_zipIdx hc)
  rw [← hsenders, ← hrx]
  exact ⟨hwords, hwords' tagRx htag⟩

/-- The byte counts do not start with a comment. -/
lemma Recorded.head_byteCounts (h : run.Recorded A addr2netdev listdir) {t : TracedReceiver}
    (ht : t ∈ run.receivers) : (run.byteCounts t).head? ≠ some '#' := by
  rw [byteCounts, AppRxCb.runByteCounts_eq (h.fits t ht)]
  cases AppRxCb.counts 0 (run.arrivals t.index) with
  | nil => exact nofun
  | cons c counts =>
    obtain ⟨hne, hhead⟩ := c.head_text
    rwa [List.flatMap_cons, List.head?_append_of_ne_nil _ hne]

end SimRun

/-- What the table says about a receiver: the index of the connection, the index of the statement,
and the tags of the senders and of the receiver, as far as they come back from the header. -/
def TracedReceiver.vars (t : TracedReceiver) : List (Option HeaderValue) :=
  [some (.int t.index), some (.int t.statement),
    (soleWord (t.senders.map cStr)).map HeaderValue.text,
    (soleWord [cStr t.tagRx]).map HeaderValue.text]

/-- The variables of a receiver with all of its tags. -/
def TracedReceiver.fullVars (t : TracedReceiver) : List (Option HeaderValue) :=
  [some (.int t.index), some (.int t.statement),
    some (.text (List.intercalate [' '] t.senders)), some (.text t.tagRx)]

/-- The variables of a receiver can be stored. -/
lemma TracedReceiver.mapM_sqlValue {t : TracedReceiver} (hindex : t.index < 2 ^ 31)
    (hstatement : t.statement < 2 ^ 31) : t.vars.mapM sqlValue = some t.vars := by
  have hint : ∀ {n : ℕ}, n < 2 ^ 31 → sqlValue (some (.int n)) = some (some (.int n)) := by
    intro n hn
    rw [sqlValue, sqlInteger_of_range (by omega), Option.map_some]
  have htext : ∀ x : Option (List Char),
      sqlValue (x.map HeaderValue.text) = some (x.map HeaderValue.text) := by
    rintro (_ | v) <;> rfl
  simp only [vars, List.mapM_cons, List.mapM_nil, hint hindex, hint hstatement, htext]
  rfl

namespace SimRun

variable {A : AttributeTable} {addr2netdev : ℕ → Bool} {listdir : List Char → List File}
  {run : SimRun}

/-- **The header of a trace file** comes back. -/
lemma Recorded.headerVars_text (h : run.Recorded A addr2netdev listdir) {t : TracedReceiver}
    (ht : t ∈ run.receivers) : headerVars (run.text t) = some t.vars := by
  obtain ⟨hsenders, hrx⟩ := h.word_tags ht
  obtain ⟨hindex, hstatement⟩ := h.indices t ht
  rw [headerVars, text, readHeader_writeHeader hsenders hrx (h.head_byteCounts ht),
    Option.bind_some]
  exact TracedReceiver.mapM_sqlValue hindex hstatement

/-- All tags are in the table exactly when there is one sender, and no null character in a tag. -/
lemma Recorded.vars_eq_fullVars_iff (h : run.Recorded A addr2netdev listdir) {t : TracedReceiver}
    (ht : t ∈ run.receivers) :
    t.vars = t.fullVars ↔ t.senders.length = 1 ∧ ∀ s ∈ t.tagRx :: t.senders, '\x00' ∉ s := by
  obtain ⟨hsenders, hrx⟩ := h.word_tags ht
  have hiff := readHeader_writeHeader_iff hsenders hrx [] (by decide) t.index t.statement
  rwa [readHeader_writeHeader hsenders hrx (by decide), Option.some.injEq] at hiff

/-- The comment lines of a trace file. -/
def headerLines (t : TracedReceiver) : List (List Char) :=
  [(HeaderName.appConnectId, [formatLong t.index]),
    (HeaderName.connectStmtId, [formatLong t.statement]),
    (HeaderName.tagsTx, t.senders.map cStr), (HeaderName.tagRx, [cStr t.tagRx])].map fun l =>
      List.intercalate [' '] (['#'] :: l.1 :: ['='] :: l.2)

/-- The log of a receiver, with an id. -/
def rxLog (run : SimRun) (t : TracedReceiver) (id : ℕ) : RxLog where
  id := id
  header := headerLines t
  arrivals := run.arrivals t.index

/-- The text of a log. -/
lemma text_rxLog (run : SimRun) (t : TracedReceiver) (id : ℕ) :
    (run.rxLog t id).text = run.text t := by
  rw [RxLog.text, text, byteCounts]
  congr 1
  simp only [rxLog, headerLines, writeHeader, headerLine_eq_line, line, List.map_cons, List.map_nil,
    List.flatMap_cons, List.flatMap_nil, List.append_nil, List.append_assoc]

/-- The log of a receiver is written while packets are received. -/
lemma Recorded.written (h : run.Recorded A addr2netdev listdir) {t : TracedReceiver}
    (ht : t ∈ run.receivers) (id : ℕ) : (run.rxLog t id).Written := by
  obtain ⟨hsenders, hrx⟩ := h.word_tags ht
  obtain ⟨happ, hstmt, htx, hrxname⟩ := word_headerName
  refine ⟨?_, h.fits t ht, h.sorted t ht⟩
  have hcomment : ∀ {name : List Char} {values : List (List Char)}, Word name →
      (∀ v ∈ values, NoSpace v) →
      OneLine (List.intercalate [' '] (['#'] :: name :: ['='] :: values)) ∧
        (List.intercalate [' '] (['#'] :: name :: ['='] :: values)).head? = some '#' := by
    intro name values hname hvalues
    refine ⟨oneLine_join (noSpace_headerLine hname hvalues), ?_⟩
    rw [List.intercalate_cons_cons]
    rfl
  simp only [rxLog, headerLines, List.map_cons, List.map_nil, List.forall_mem_cons]
  refine ⟨?_, ?_, ?_, ?_, fun _ hl => (List.not_mem_nil hl).elim⟩
  · exact hcomment happ (noSpace_formatLong _)
  · exact hcomment hstmt (noSpace_formatLong _)
  · exact hcomment htx (noSpace_map_cStr hsenders)
  · exact hcomment hrxname (by simpa using noSpace_cStr hrx)

end SimRun

/-! ### The tables of all runs -/

/-- The receivers of some runs whose bytes are counted. -/
def receiversOf (runs : List SimRun) : List (SimRun × TracedReceiver) :=
  runs.flatMap fun run => run.receivers.map fun t => (run, t)

/-- The row of a receiver in `trace_app_rx`, when it has a number. -/
def rxRow (x : (SimRun × TracedReceiver) × ℕ) : TraceRow where
  id := x.2
  paramsId := x.1.1.paramsId
  filename := traceName rxKind x.1.2.index
  vars := x.1.2.vars

/-- The log of a receiver, when it has a number. -/
def rxLog (x : (SimRun × TracedReceiver) × ℕ) : RxLog := x.1.1.rxLog x.1.2 x.2

/-- The file of a receiver in the join of `trace_app_rx` and `params`. -/
def rxFile (x : (SimRun × TracedReceiver) × ℕ) : ℕ × List Char × List Char :=
  (x.2, x.1.1.dir, traceName rxKind x.1.2.index)

/-- A list that has the elements of an image in some order is the image of a list in that order. -/
lemma exists_perm_of_perm_map {α β : Type} {f : α → β} {l : List β} {m : List α}
    (h : l.Perm (m.map f)) : ∃ x : List α, x.Perm m ∧ l = x.map f := by
  have hcomp : Relation.Comp (fun l x => l = List.map f x) List.Perm l m :=
    (congrFun (congrFun (List.eq_map_comp_perm f) l) m).mpr h
  obtain ⟨x, heq, hperm⟩ := hcomp
  exact ⟨x, hperm, heq⟩

section Runs

variable {A : AttributeTable} {addr2netdev : ℕ → Bool} {listdir : List Char → List File}
  {runs : List SimRun}

/-- A receiver is one of its run. -/
lemma mem_receiversOf {e : SimRun × TracedReceiver} :
    e ∈ receiversOf runs ↔ e.1 ∈ runs ∧ e.2 ∈ e.1.receivers := by
  obtain ⟨run, t⟩ := e
  simp only [receiversOf, List.mem_flatMap, List.mem_map, Prod.mk.injEq]
  constructor
  · rintro ⟨run, hrun, t, ht, rfl, rfl⟩
    exact ⟨hrun, ht⟩
  · rintro ⟨hrun, ht⟩
    exact ⟨run, hrun, t, ht, rfl, rfl⟩

/-- The trace files that are found are those of the receivers, in some order. -/
lemma exists_allMatched (hruns : ∀ run ∈ runs, run.Recorded A addr2netdev listdir) :
    ∃ E : List (SimRun × TracedReceiver), E.Perm (receiversOf runs) ∧
      allMatched rxKind listdir (runs.map SimRun.paramsRow) =
        E.map fun e => (e.1.paramsId, e.1.file e.2) := by
  have hfound : (allMatched rxKind listdir (runs.map SimRun.paramsRow)).Perm
      ((receiversOf runs).map fun e => (e.1.paramsId, e.1.file e.2)) := by
    rw [allMatched, List.flatMap_map, receiversOf, List.map_flatMap]
    refine List.Perm.flatMap_left runs fun run hrun => ?_
    rw [List.map_map]
    have hperm := (hruns run hrun).matched_perm.map fun f => (run.paramsId, f)
    rwa [List.map_map] at hperm
  exact exists_perm_of_perm_map hfound

/-- **The table `trace_app_rx`** has a row for every receiver. -/
lemma exists_createTraceAppTable (hruns : ∀ run ∈ runs, run.Recorded A addr2netdev listdir) :
    ∃ E : List (SimRun × TracedReceiver), E.Perm (receiversOf runs) ∧
      createTraceAppTable rxKind listdir (runs.map SimRun.paramsRow) =
        some (E.zipIdx.map rxRow) := by
  obtain ⟨E, hperm, hE⟩ := exists_allMatched hruns
  have hvars : ∀ e ∈ E, headerVars (e.1.text e.2) = some e.2.vars := by
    intro e he
    obtain ⟨hrun, ht⟩ := mem_receiversOf.mp (hperm.mem_iff.mp he)
    exact (hruns e.1 hrun).headerVars_text ht
  have hread : ∀ p ∈ runs.map SimRun.paramsRow, ∀ f ∈ listdir p.2, matchesPattern rxKind f.1 →
      headerVars f.2 = some ((headerVars f.2).getD []) := by
    intro p hp f hf hmatch
    obtain ⟨run, hrun, rfl⟩ := List.mem_map.mp hp
    have hmem : f ∈ matched rxKind (listdir run.dir) :=
      List.mem_filter.mpr ⟨(List.mergeSort_perm _ _).mem_iff.mpr hf, hmatch⟩
    obtain ⟨t, ht, rfl⟩ := List.mem_map.mp ((hruns run hrun).matched_perm.mem_iff.mp hmem)
    rw [SimRun.file, (hruns run hrun).headerVars_text ht]
    rfl
  refine ⟨E, hperm, ?_⟩
  rw [createTraceAppTable, insertRuns_eq 0 hread, hE, List.zipIdx_map, List.map_map]
  congr 1
  refine List.map_congr_left fun x hx => ?_
  simp only [Function.comp_apply, Prod.map_fst, Prod.map_snd, SimRun.file, rxRow,
    hvars x.1 (List.fst_mem_of_mem_zipIdx hx), id_eq, Option.getD_some]

/-- The row of a run is found by its id. -/
lemma filter_paramsRow (hids : (runs.map SimRun.paramsId).Nodup) {run : SimRun}
    (hmem : run ∈ runs) :
    (runs.map SimRun.paramsRow).filter (fun p => run.paramsId = p.1) = [run.paramsRow] := by
  induction runs with
  | nil => cases hmem
  | cons head runs ih =>
    rw [List.map_cons, List.nodup_cons] at hids
    rw [List.map_cons]
    rcases List.mem_cons.mp hmem with rfl | hmem
    · have hnone : (runs.map SimRun.paramsRow).filter (fun p => run.paramsId = p.1) = [] := by
        refine List.filter_eq_nil_iff.mpr fun p hp => ?_
        obtain ⟨other, hother, rfl⟩ := List.mem_map.mp hp
        simp only [decide_eq_true_eq]
        exact fun heq => hids.1 (List.mem_map.mpr ⟨other, hother, heq.symm⟩)
      have hself : decide (run.paramsId = run.paramsRow.1) = true := decide_eq_true rfl
      rw [List.filter_cons_of_pos (p := fun p : ParamsRow => run.paramsId = p.1) hself, hnone]
    · have hother : ¬decide (run.paramsId = head.paramsRow.1) = true := fun heq =>
        hids.1 (List.mem_map.mpr ⟨run, hmem, of_decide_eq_true heq⟩)
      rw [List.filter_cons_of_neg (p := fun p : ParamsRow => run.paramsId = p.1) hother,
        ih hids.2 hmem]

/-- **The join** finds the file of every row. -/
lemma joinParams_rxRow (hids : (runs.map SimRun.paramsId).Nodup)
    {X : List ((SimRun × TracedReceiver) × ℕ)} (hX : ∀ x ∈ X, x.1.1 ∈ runs) :
    joinParams (X.map rxRow) (runs.map SimRun.paramsRow) = X.map rxFile := by
  induction X with
  | nil => rfl
  | cons x X ih =>
    obtain ⟨hx, hX⟩ := List.forall_mem_cons.mp hX
    have hfilter : (runs.map SimRun.paramsRow).filter (fun p => (rxRow x).paramsId = p.1) =
        [x.1.1.paramsRow] := filter_paramsRow hids hx
    rw [joinParams] at ih ⊢
    rw [List.map_cons, List.flatMap_cons, hfilter, ih hX]
    rfl

/-- The files of the receivers are opened. -/
lemma openFiles_rxFile (hruns : ∀ run ∈ runs, run.Recorded A addr2netdev listdir)
    {X : List ((SimRun × TracedReceiver) × ℕ)} (hX : ∀ x ∈ X, x.1 ∈ receiversOf runs) :
    openFiles listdir (X.map rxFile) =
      some ((X.map rxLog).map fun log => (log.id, log.text)) := by
  induction X with
  | nil => rfl
  | cons x X ih =>
    obtain ⟨hx, hX⟩ := List.forall_mem_cons.mp hX
    obtain ⟨hrun, ht⟩ := mem_receiversOf.mp hx
    have hfind := (hruns x.1.1 hrun).find?_file ht
    rw [openFiles] at ih ⊢
    rw [List.map_cons, List.mapM_cons, ih hX, rxFile, hfind, List.map_cons, List.map_cons]
    rw [rxLog, SimRun.text_rxLog]
    rfl

variable {R : Type} [Zero R] [Mul R] [Div R] [IntCast R] [OfNat R 8] [OfNat R 8000000]
  (std : List ℤ → R)
  (orderByTime : List RateBins.Sample → List RateBins.Sample)

/-- **Throughput, from the connect statements to the results database.**  Let some simulation runs
with different ids be made.  Then `trace_app_rx` has one row for each receiver of each run whose
bytes are counted, with the indices and tags that come back from the header of its file, all of them
exactly when there is one sender and no null character in a tag, and `trace_app_rx_summaries` has
the row of the packets that this receiver has received under the id of that row, in whatever order
the join lists the files. -/
theorem rx_tables (hids : (runs.map SimRun.paramsId).Nodup)
    (hruns : ∀ run ∈ runs, run.Recorded A addr2netdev listdir)
    (hperm : ∀ samples, (orderByTime samples).Perm samples)
    (hsorted : ∀ samples, (orderByTime samples).Pairwise fun a b => a.1 ≤ b.1) :
    ∃ E : List (SimRun × TracedReceiver), E.Perm (receiversOf runs) ∧
      createTraceAppTable rxKind listdir (runs.map SimRun.paramsRow) =
        some (E.zipIdx.map rxRow) ∧
      (∀ e ∈ E, e.2.vars = e.2.fullVars ↔
        e.2.senders.length = 1 ∧ ∀ s ∈ e.2.tagRx :: e.2.senders, '\x00' ∉ s) ∧
      ∀ files, files.Perm (joinParams (E.zipIdx.map rxRow) (runs.map SimRun.paramsRow)) →
        ∃ texts samples rows, openFiles listdir files = some texts ∧
          createTraceAppRxSamplesTable texts = some samples ∧
          createTraceAppRxSummariesTable std orderByTime samples
            ((E.zipIdx.map rxRow).map TraceRow.id) = some rows ∧
          List.Forall₂ (fun x row => (rxLog x).SummedUp std row) E.zipIdx rows := by
  obtain ⟨E, hE, htable⟩ := exists_createTraceAppTable hruns
  have hmem : ∀ x ∈ E.zipIdx, x.1 ∈ receiversOf runs := fun x hx =>
    hE.mem_iff.mp (List.fst_mem_of_mem_zipIdx hx)
  have hvars : ∀ e ∈ E, e.2.vars = e.2.fullVars ↔
      e.2.senders.length = 1 ∧ ∀ s ∈ e.2.tagRx :: e.2.senders, '\x00' ∉ s := by
    intro e he
    obtain ⟨hrun, ht⟩ := mem_receiversOf.mp (hE.mem_iff.mp he)
    exact (hruns e.1 hrun).vars_eq_fullVars_iff ht
  refine ⟨E, hE, htable, hvars, fun files hfiles => ?_⟩
  rw [joinParams_rxRow hids fun x hx => (mem_receiversOf.mp (hmem x hx)).1] at hfiles
  obtain ⟨X, hX, rfl⟩ := exists_perm_of_perm_map hfiles
  have hmemX : ∀ x ∈ X, x.1 ∈ receiversOf runs := fun x hx => hmem x (hX.mem_iff.mp hx)
  have hlogs : ∀ log ∈ X.map rxLog, log.Written := by
    intro log hlog
    obtain ⟨x, hx, rfl⟩ := List.mem_map.mp hlog
    obtain ⟨hrun, ht⟩ := mem_receiversOf.mp (hmemX x hx)
    exact (hruns x.1.1 hrun).written ht x.2
  have hnodup : ((X.map rxLog).map RxLog.id).Nodup := by
    have hnumbers : (E.zipIdx.map Prod.snd).Nodup := by
      rw [List.zipIdx_map_snd]
      exact List.nodup_range'
    rw [List.map_map]
    exact (hX.map Prod.snd).nodup_iff.mpr hnumbers
  have hsub : E.zipIdx.map rxLog ⊆ X.map rxLog := (hX.map rxLog).symm.subset
  obtain ⟨rows, hrows, hall⟩ := exists_summaries std hperm hsorted hnodup hlogs hsub
  have hnumbers : (E.zipIdx.map rxRow).map TraceRow.id = (E.zipIdx.map rxLog).map RxLog.id := by
    rw [List.map_map, List.map_map]
    rfl
  refine ⟨_, _, rows, openFiles_rxFile hruns hmemX, createTraceAppRxSamplesTable_text hlogs, ?_, ?_⟩
  · rw [hnumbers]
    exact hrows
  · exact List.forall₂_map_left_iff.mp hall

end Runs

/-- What a run writes to a trace file. -/
def SimRun.written (run : SimRun) (path : List Char) : List Char :=
  ((run.receivers.find? fun t => tracePath run.outDir rxKind t.index = path).map
    run.byteCounts).getD []

/-- A run of the coded transfer, with what its receivers receive. -/
def codedRun (paramsId : ℕ) (dir : List Char) (arrivals : ℕ → List Arrival) : SimRun where
  paramsId := paramsId
  dir := dir
  outDir := ['o']
  cfg := AppsManager.codedTransfer
  files := ((AppsManager.createApps AppsManager.lenient (fun _ => true) ['o']
    AppsManager.codedTransfer).toOption.map Prod.snd).getD []
  arrivals := arrivals

/-- The encoder has received three packets. -/
def deliveredRun : SimRun :=
  codedRun 1 ['a'] fun i => if i = 1 then [(0, 1000), (2000000, 500), (2000001, 20)] else []

/-- Nothing has been received. -/
def silentRun : SimRun := codedRun 0 ['b'] fun _ => []

/-- The directories of the two runs. -/
def listTwo (dir : List Char) : List File :=
  (([deliveredRun, silentRun].find? fun run => run.dir = dir).map fun run =>
    run.files.map fun f => (f.path.drop 2, f.header ++ run.written f.path)).getD []

/-- The tags of the coded transfer are words. -/
lemma word_codedTransfer : ∀ c ∈ AppsManager.codedTransfer.conn,
    (∀ s ∈ c.senders, Word s) ∧ ∀ s ∈ c.receivers, Word s := by
  have hword : ∀ s ∈ [['f'], ['e'], ['d'], ['c'], ['g']], Word s := by
    intro s hs
    simp only [List.mem_cons, List.not_mem_nil, or_false] at hs
    rcases hs with rfl | rfl | rfl | rfl | rfl <;> exact ⟨by decide, by simp [isSpace]⟩
  have htags : ∀ c ∈ AppsManager.codedTransfer.conn,
      c.senders ⊆ [['f'], ['e'], ['d'], ['c'], ['g']] ∧
        c.receivers ⊆ [['f'], ['e'], ['d'], ['c'], ['g']] := by
    decide
  intro c hc
  obtain ⟨hsenders, hreceivers⟩ := htags c hc
  exact ⟨fun s hs => hword s (hsenders hs), fun s hs => hword s (hreceivers hs)⟩

/-- The two runs have been made. -/
lemma recorded_two : ∀ run ∈ [deliveredRun, silentRun],
    run.Recorded AppsManager.lenient (fun _ => true) listTwo := by
  have hcreated : ∀ run ∈ [deliveredRun, silentRun], ∃ M,
      AppsManager.createApps AppsManager.lenient (fun _ => true) run.outDir run.cfg =
        .ok (M, run.files) := by
    obtain ⟨r, hr⟩ := AppsManager.exists_codedTransfer
    intro run hrun
    simp only [List.mem_cons, List.not_mem_nil, or_false] at hrun
    rcases hrun with rfl | rfl
    all_goals
      refine ⟨r.1, ?_⟩
      simp only [deliveredRun, silentRun, codedRun, hr]
      rfl
  have hindices : ∀ run ∈ [deliveredRun, silentRun], ∀ t ∈ run.receivers,
      t.index < 2 ^ 31 ∧ t.statement < 2 ^ 31 := by
    decide +kernel
  have hfits : ∀ run ∈ [deliveredRun, silentRun], ∀ t ∈ run.receivers,
      (∀ arrival ∈ run.arrivals t.index, arrival.1 < 2 ^ 63) ∧
        AppRxCb.bytes (run.arrivals t.index) < 2 ^ 63 := by
    decide +kernel
  have hsorted : ∀ run ∈ [deliveredRun, silentRun], ∀ t ∈ run.receivers,
      (run.arrivals t.index).Pairwise fun a b => a.1 ≤ b.1 := by
    decide +kernel
  have hnames : ∀ run ∈ [deliveredRun, silentRun], ((listTwo run.dir).map Prod.fst).Nodup := by
    decide +kernel
  have hlisting : ∀ run ∈ [deliveredRun, silentRun], listTwo run.dir = run.files.map fun f =>
      (f.path.drop (run.outDir.length + 1), f.header ++ run.written f.path) := by
    decide +kernel
  have hwritten : ∀ run ∈ [deliveredRun, silentRun], ∀ t ∈ run.receivers,
      run.written (tracePath run.outDir rxKind t.index) = run.byteCounts t := by
    decide +kernel
  have hcfg : ∀ run ∈ [deliveredRun, silentRun], run.cfg = AppsManager.codedTransfer := by
    intro run hrun
    simp only [List.mem_cons, List.not_mem_nil, or_false] at hrun
    rcases hrun with rfl | rfl <;> rfl
  intro run hrun
  exact
    { created := hcreated run hrun
      words := by
        rw [hcfg run hrun]
        exact word_codedTransfer
      indices := hindices run hrun
      fits := fun t ht => ⟨(hfits run hrun t ht).1, (hfits run hrun t ht).2⟩
      sorted := hsorted run hrun
      names := hnames run hrun
      listing := ⟨run.written, [], by rw [hlisting run hrun, List.append_nil],
        fun f hf => absurd hf List.not_mem_nil, hwritten run hrun⟩ }

/-- The tables of the two runs. -/
theorem rx_tables_two :
    ∃ E : List (SimRun × TracedReceiver), E.Perm (receiversOf [deliveredRun, silentRun]) ∧
      createTraceAppTable rxKind listTwo ([deliveredRun, silentRun].map SimRun.paramsRow) =
        some (E.zipIdx.map rxRow) ∧
      (∀ e ∈ E, e.2.vars = e.2.fullVars ↔
        e.2.senders.length = 1 ∧ ∀ s ∈ e.2.tagRx :: e.2.senders, '\x00' ∉ s) ∧
      ∀ files, files.Perm (joinParams (E.zipIdx.map rxRow)
          ([deliveredRun, silentRun].map SimRun.paramsRow)) →
        ∃ texts samples rows, openFiles listTwo files = some texts ∧
          createTraceAppRxSamplesTable texts = some samples ∧
          createTraceAppRxSummariesTable (fun _ => (0 : ℚ)) sortByTime samples
            ((E.zipIdx.map rxRow).map TraceRow.id) = some rows ∧
          List.Forall₂ (fun x row => (rxLog x).SummedUp (fun _ => (0 : ℚ)) row) E.zipIdx rows :=
  rx_tables (fun _ => (0 : ℚ)) sortByTime (by decide) recorded_two perm_sortByTime
    pairwise_sortByTime

end MeshSim
