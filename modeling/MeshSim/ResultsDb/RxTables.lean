import MeshSim.LossMonitor.ByteCounts
import MeshSim.ResultsDb.PlTables
import MeshSim.ResultsDb.RateBins

/-!
# The throughput tables

`scripts/createresultsdb`: the functions that read the byte counts of the applications into the
table `trace_app_rx_samples` and sum them up in `trace_app_rx_summaries`.

The table `trace_app_rx` enters as the list of its ids, with the text of the file of each.  A Python
exception, and an integer that leaves the 64 bits of SQLite, have no result.  Parameters are the
floating-point numbers with their operations, the standard deviation, and the order in which
`ORDER BY time` lists the samples.
-/

namespace MeshSim

open PythonText

/-- A row of `trace_app_rx_samples`. -/
structure RxSample where
  /-- `trace_app_rx_id`. -/
  traceAppRxId : ℕ
  /-- `time` and `bytes_recv`. -/
  sample : RateBins.Sample
deriving DecidableEq, Repr

/-- A row of `trace_app_rx_summaries`. -/
structure RxSummary (R : Type) where
  /-- `trace_app_rx_id`. -/
  traceAppRxId : ℕ
  /-- `max_bytes_recv`. -/
  maxBytesRecv : Option ℤ
  /-- `min_bytes_recv`. -/
  minBytesRecv : Option ℤ
  /-- `max_time_recv`. -/
  maxTimeRecv : Option ℤ
  /-- `min_time_recv`. -/
  minTimeRecv : Option ℤ
  /-- `rate_bps`. -/
  rateBps : R
  /-- `rate_stddev_bps`. -/
  rateStddevBps : Option R
deriving DecidableEq, Repr

/-! ### The samples -/

/-- The body of the loop over the lines of a file: the row inserted, if any. -/
def rxSampleOfLine (idx : ℕ) (l : List Char) : Option (Option RxSample) :=
  if l = [] then none
  else if l.head? = some '#' then some none
  else
    match split (strip l) with
    | [time, bytesRecv] => do
      let time ← toInt time
      let bytesRecv ← toInt bytesRecv
      let time ← sqlInteger time
      let bytesRecv ← sqlInteger bytesRecv
      some (some { traceAppRxId := idx, sample := (time, bytesRecv) })
    | _ => none

/-- The loop over the lines of a file. -/
def rxSamplesOfLines (idx : ℕ) : List (List Char) → Option (List RxSample)
  | [] => some []
  | l :: ls =>
    match rxSampleOfLine idx l with
    | none => none
    | some row => (rxSamplesOfLines idx ls).map fun rows => row.toList ++ rows

/-- `create_trace_app_rx_samples_table`. -/
def createTraceAppRxSamplesTable : List (ℕ × List Char) → Option (List RxSample)
  | [] => some []
  | (idx, text) :: files =>
    match rxSamplesOfLines idx (readLines text) with
    | none => none
    | some rows => (createTraceAppRxSamplesTable files).map fun rows' => rows ++ rows'

/-! ### The summaries -/

section Summaries

variable {R : Type} [Zero R] [Mul R] [Div R] [IntCast R] [OfNat R 8] [OfNat R 8000000]
  (std : List ℤ → R) (orderByTime : List RateBins.Sample → List RateBins.Sample)

/-- The samples of an id. -/
def samplesOf (samples : List RxSample) (j : ℕ) : List RateBins.Sample :=
  (samples.filter fun r => r.traceAppRxId = j).map RxSample.sample

/-- `rate_stddev`. -/
def rateStddev (rows : List RateBins.Sample) (minTime maxTime : ℤ) : Option (Option R) :=
  if minTime < maxTime - 2000000 then RateBins.getRateStddev std (orderByTime rows) else some none

/-- The body of the loop over the ids of `trace_app_rx`: the row inserted. -/
def rxSummaryOf (samples : List RxSample) (j : ℕ) : Option (RxSummary R) :=
  let rows := samplesOf samples j
  match (rows.map Prod.snd).max?, (rows.map Prod.snd).min?, (rows.map Prod.fst).max?,
    (rows.map Prod.fst).min? with
  | some maxBytes, some minBytes, some maxTime, some minTime =>
    (rateStddev std orderByTime rows minTime maxTime).map fun stddev =>
      { traceAppRxId := j
        maxBytesRecv := some maxBytes
        minBytesRecv := some minBytes
        maxTimeRecv := some maxTime
        minTimeRecv := some minTime
        rateBps := if minTime < maxTime then
          ((maxBytes - minBytes : ℤ) : R) * 8000000 / ((maxTime - minTime : ℤ) : R) else 0
        rateStddevBps := stddev }
  | _, _, _, _ =>
    some
      { traceAppRxId := j
        maxBytesRecv := none
        minBytesRecv := none
        maxTimeRecv := none
        minTimeRecv := none
        rateBps := 0
        rateStddevBps := none }

/-- `create_trace_app_rx_summaries_table`, for the ids of `trace_app_rx`. -/
def createTraceAppRxSummariesTable (samples : List RxSample) (ids : List ℕ) :
    Option (List (RxSummary R)) :=
  ids.mapM (rxSummaryOf std orderByTime samples)

end Summaries

/-! ### Reading back the logs -/

/-- A log file of an application, its id in the table `trace_app_rx`, and the packets that have been
received. -/
structure RxLog where
  /-- `id`. -/
  id : ℕ
  /-- The comment lines at its head, without line ends. -/
  header : List (List Char)
  /-- The packets. -/
  arrivals : List Arrival

namespace RxLog

/-- The text of a log file. -/
def text (log : RxLog) : List Char :=
  (log.header.flatMap fun l => l ++ ['\n']) ++
    (AppRxCb.runByteCounts 0 log.arrivals).2.flatMap ByteCount.text

/-- A log whose header is one, and whose packets are received in the order of time and fit the
log. -/
structure Written (log : RxLog) : Prop where
  /-- The comment lines are comments, each on a line of its own. -/
  header_comment : ∀ l ∈ log.header, OneLine l ∧ l.head? = some '#'
  /-- The times and the number of bytes are `long int`s. -/
  fits : AppRxCb.Fits log.arrivals
  /-- Time does not go backwards. -/
  sorted : log.arrivals.Pairwise fun a b => a.1 ≤ b.1

/-- The samples of a log. -/
def samples (log : RxLog) : List RxSample :=
  (AppRxCb.counts 0 log.arrivals).map fun c => { traceAppRxId := log.id, sample := c }

end RxLog

/-- A line of a log is a line of two words. -/
lemma ByteCount.text_eq_line (c : ByteCount) :
    c.text = line [formatLong c.1, formatLong c.2] := by
  rw [ByteCount.text, line, List.intercalate_cons_cons]
  simp

/-- The words of a line of a log. -/
lemma ByteCount.word_words (c : ByteCount) :
    ∀ w ∈ [formatLong c.1, formatLong c.2], Word w := by
  simp [word_formatLong]

/-- A printed number has no hash sign. -/
lemma hash_not_mem_formatLong (n : ℤ) : '#' ∉ formatLong n := by
  have hdigits : '#' ∉ Nat.toDigits 10 n.natAbs := by
    intro hmem
    have hdigit : '#'.isDigit := Nat.isDigit_of_mem_toDigits (by decide) (by decide) hmem
    exact absurd hdigit (by decide)
  unfold formatLong
  split
  · rw [List.mem_cons, not_or]
    exact ⟨by decide, hdigits⟩
  · exact hdigits

/-- A line of a log is no comment. -/
lemma ByteCount.head_text (c : ByteCount) : c.text ≠ [] ∧ c.text.head? ≠ some '#' := by
  cases hdigits : formatLong c.1 with
  | nil => exact absurd hdigits (word_formatLong c.1).ne_nil
  | cons d ds =>
    have hne : d ≠ '#' := by
      rintro rfl
      exact hash_not_mem_formatLong c.1 (by rw [hdigits]; exact List.mem_cons_self)
    rw [ByteCount.text, hdigits]
    exact ⟨List.cons_ne_nil _ _, fun h => hne (Option.some.inj h)⟩

/-- **A line of a log** is read as the row it stands for. -/
lemma rxSampleOfLine_text (idx : ℕ) {c : ByteCount} (htime : -2 ^ 63 ≤ c.1 ∧ c.1 < 2 ^ 63)
    (hbytes : -2 ^ 63 ≤ c.2 ∧ c.2 < 2 ^ 63) :
    rxSampleOfLine idx c.text = some (some { traceAppRxId := idx, sample := c }) := by
  rw [rxSampleOfLine, if_neg c.head_text.1, if_neg c.head_text.2, c.text_eq_line,
    split_strip_line c.word_words]
  simp only [toInt_formatLong, Option.bind_eq_bind, Option.bind_some,
    sqlInteger_of_range htime, sqlInteger_of_range hbytes]

/-- Comment lines are skipped. -/
lemma rxSamplesOfLines_header (idx : ℕ) {header ls : List (List Char)}
    (hheader : ∀ l ∈ header, l.head? = some '#') :
    rxSamplesOfLines idx ((header.map fun l => l ++ ['\n']) ++ ls) = rxSamplesOfLines idx ls := by
  induction header with
  | nil => rfl
  | cons l header ih =>
    obtain ⟨hl, hheader⟩ := List.forall_mem_cons.mp hheader
    have hhead : (l ++ ['\n']).head? = some '#' := by
      rw [List.head?_append, hl]
      rfl
    have hne : l ++ ['\n'] ≠ [] := List.append_ne_nil_of_right_ne_nil _ (List.cons_ne_nil _ _)
    rw [List.map_cons, List.cons_append, rxSamplesOfLines, rxSampleOfLine, if_neg hne,
      if_pos hhead]
    simp [ih hheader]

/-- Every line of a log is a row. -/
lemma rxSamplesOfLines_text (idx : ℕ) {lines : List ByteCount}
    (hrange : ∀ c ∈ lines, (-2 ^ 63 ≤ c.1 ∧ c.1 < 2 ^ 63) ∧ (-2 ^ 63 ≤ c.2 ∧ c.2 < 2 ^ 63)) :
    rxSamplesOfLines idx (lines.map ByteCount.text) =
      some (lines.map fun c => { traceAppRxId := idx, sample := c }) := by
  induction lines with
  | nil => rfl
  | cons c lines ih =>
    obtain ⟨hc, hlines⟩ := List.forall_mem_cons.mp hrange
    rw [List.map_cons, rxSamplesOfLines, rxSampleOfLine_text idx hc.1 hc.2, ih hlines]
    rfl

namespace RxLog

/-- The numbers in the lines of a log are 64-bit integers. -/
lemma Written.range {log : RxLog} (hlog : log.Written) {c : ByteCount}
    (hc : c ∈ AppRxCb.counts 0 log.arrivals) :
    (-2 ^ 63 ≤ c.1 ∧ c.1 < 2 ^ 63) ∧ (-2 ^ 63 ≤ c.2 ∧ c.2 < 2 ^ 63) := by
  obtain ⟨⟨arrival, harrival, heq⟩, hlo, hhi⟩ := AppRxCb.mem_counts hc
  have htime := hlog.fits.times arrival harrival
  have hbytes := hlog.fits.bytes
  exact ⟨by omega, by omega⟩

/-- The lines that Python finds in a log. -/
lemma Written.readLines_text {log : RxLog} (hlog : log.Written) :
    readLines log.text = (log.header.map fun l => l ++ ['\n']) ++
      (AppRxCb.counts 0 log.arrivals).map ByteCount.text := by
  have htext : (AppRxCb.counts 0 log.arrivals).map ByteCount.text =
      ((AppRxCb.counts 0 log.arrivals).map fun c =>
        List.intercalate [' '] [formatLong c.1, formatLong c.2]).map fun l => l ++ ['\n'] := by
    rw [List.map_map]
    exact List.map_congr_left fun c _ => c.text_eq_line
  have hflat : log.text = (log.header ++ (AppRxCb.counts 0 log.arrivals).map fun c =>
      List.intercalate [' '] [formatLong c.1, formatLong c.2]).flatMap fun l => l ++ ['\n'] := by
    rw [RxLog.text, AppRxCb.runByteCounts_eq hlog.fits, List.flatMap_append, List.flatMap_map]
    congr 1
    exact congrArg (List.flatMap · (AppRxCb.counts 0 log.arrivals))
      (funext ByteCount.text_eq_line)
  rw [hflat, readLines_flatMap, List.map_append, htext]
  intro l hl
  rcases List.mem_append.mp hl with hl | hl
  · exact (hlog.header_comment l hl).1
  · obtain ⟨c, -, rfl⟩ := List.mem_map.mp hl
    exact oneLine_intercalate c.word_words

end RxLog

/-- **Reading back the logs.** The samples table holds a row for every packet received. -/
theorem createTraceAppRxSamplesTable_text {logs : List RxLog} (hlogs : ∀ log ∈ logs, log.Written) :
    createTraceAppRxSamplesTable (logs.map fun log => (log.id, log.text)) =
      some (logs.flatMap RxLog.samples) := by
  induction logs with
  | nil => rfl
  | cons log logs ih =>
    obtain ⟨hlog, hlogs⟩ := List.forall_mem_cons.mp hlogs
    rw [List.map_cons, createTraceAppRxSamplesTable, hlog.readLines_text,
      rxSamplesOfLines_header _ fun l hl => (hlog.header_comment l hl).2,
      rxSamplesOfLines_text _ fun c hc => hlog.range hc, ih hlogs]
    rfl

/-- The rows of one log among those of several. -/
lemma samplesOf_flatMap {logs : List RxLog} (hids : (logs.map RxLog.id).Nodup) {log : RxLog}
    (hmem : log ∈ logs) :
    samplesOf (logs.flatMap RxLog.samples) log.id = AppRxCb.counts 0 log.arrivals := by
  have hself : ∀ log : RxLog, samplesOf log.samples log.id = AppRxCb.counts 0 log.arrivals := by
    intro log
    have hall : log.samples.filter (fun r => r.traceAppRxId = log.id) = log.samples := by
      refine List.filter_eq_self.mpr fun r hr => ?_
      obtain ⟨c, -, rfl⟩ := List.mem_map.mp hr
      exact decide_eq_true rfl
    rw [samplesOf, hall, RxLog.samples, List.map_map]
    exact List.map_id _
  have hother : ∀ other : RxLog, other.id ≠ log.id → samplesOf other.samples log.id = [] := by
    intro other hne
    rw [samplesOf, List.map_eq_nil_iff]
    refine List.filter_eq_nil_iff.mpr fun r hr => ?_
    obtain ⟨c, -, rfl⟩ := List.mem_map.mp hr
    simpa using hne
  induction logs with
  | nil => cases hmem
  | cons head logs ih =>
    rw [List.map_cons, List.nodup_cons] at hids
    have hsplit : samplesOf ((head :: logs).flatMap RxLog.samples) log.id =
        samplesOf head.samples log.id ++ samplesOf (logs.flatMap RxLog.samples) log.id := by
      rw [samplesOf, List.flatMap_cons, List.filter_append, List.map_append]
      rfl
    rw [hsplit]
    rcases List.mem_cons.mp hmem with rfl | hmem
    · have hnone : samplesOf (logs.flatMap RxLog.samples) log.id = [] := by
        rw [samplesOf, List.map_eq_nil_iff, List.filter_flatMap, List.flatMap_eq_nil_iff]
        intro other hmem
        have hne : other.id ≠ log.id := fun heq => hids.1 (List.mem_map.mpr ⟨other, hmem, heq⟩)
        exact List.map_eq_nil_iff.mp (hother other hne)
      rw [hself log, hnone, List.append_nil]
    · have hne : head.id ≠ log.id := fun heq => hids.1 (List.mem_map.mpr ⟨log, hmem, heq.symm⟩)
      rw [hother head hne, List.nil_append, ih hids.2 hmem]

/-! ### Summing up a log -/

/-- The largest number of a list that does not decrease is the last one. -/
lemma max?_of_pairwise {l : List ℤ} {x : ℤ} (hl : l.Pairwise (· ≤ ·)) (hx : l.getLast? = some x) :
    l.max? = some x := by
  obtain ⟨before, rfl⟩ := List.getLast?_eq_some_iff.mp hx
  rw [List.max?_eq_some_iff]
  refine ⟨List.mem_append_right _ List.mem_cons_self, fun y hy => ?_⟩
  rcases List.mem_append.mp hy with hy | hy
  · exact (List.pairwise_append.mp hl).2.2 y hy x List.mem_cons_self
  · exact (List.mem_singleton.mp hy).le

/-- The smallest number of a list that does not decrease is the first one. -/
lemma min?_of_pairwise {l : List ℤ} {x : ℤ} (hl : l.Pairwise (· ≤ ·)) (hx : l.head? = some x) :
    l.min? = some x := by
  obtain ⟨rest, rfl⟩ := List.head?_eq_some_iff.mp hx
  rw [List.min?_eq_some_iff]
  refine ⟨List.mem_cons_self, fun y hy => ?_⟩
  rcases List.mem_cons.mp hy with rfl | hy
  · exact le_rfl
  · exact (List.pairwise_cons.mp hl).1 y hy

/-- The bytes received until a time. -/
def bytesUntil (arrivals : List Arrival) (t : ℤ) : ℕ :=
  AppRxCb.bytes (arrivals.filter fun a => (a.1 : ℤ) ≤ t)

/-- The bytes received in the `i`-th second before a time. -/
def bytesInSecond (arrivals : List Arrival) (t : ℤ) (i : ℕ) : ℕ :=
  AppRxCb.bytes (arrivals.filter fun a =>
    t - (i + 1 : ℕ) * 1000000 < (a.1 : ℤ) ∧ (a.1 : ℤ) ≤ t - i * 1000000)

/-- The bytes in a second are the ones until its end and not until its start. -/
lemma bytesUntil_sub (arrivals : List Arrival) (t : ℤ) (i : ℕ) :
    (bytesUntil arrivals (t - i * 1000000) : ℤ) - bytesUntil arrivals (t - (i + 1 : ℕ) * 1000000) =
      bytesInSecond arrivals t i := by
  unfold bytesUntil bytesInSecond
  induction arrivals with
  | nil => rfl
  | cons a arrivals ih =>
    push_cast at ih ⊢
    by_cases hend : (a.1 : ℤ) ≤ t - i * 1000000
    · by_cases hstart : (a.1 : ℤ) ≤ t - (i + 1) * 1000000
      · rw [List.filter_cons_of_pos (by simpa using hend),
          List.filter_cons_of_pos (by simpa using hstart),
          List.filter_cons_of_neg (by simp; omega), AppRxCb.bytes_cons, AppRxCb.bytes_cons]
        push_cast
        linarith
      · rw [List.filter_cons_of_pos (by simpa using hend),
          List.filter_cons_of_neg (by simpa using hstart),
          List.filter_cons_of_pos (by simp; omega), AppRxCb.bytes_cons, AppRxCb.bytes_cons]
        push_cast
        linarith
    · rw [List.filter_cons_of_neg (by simpa using hend),
        List.filter_cons_of_neg (by simp; omega),
        List.filter_cons_of_neg (by simp; omega)]
      exact ih

/-- The lines until a time are the ones of the packets until then. -/
lemma filter_counts (t : ℤ) (count : ℕ) {arrivals : List Arrival}
    (hsorted : arrivals.Pairwise fun a b => a.1 ≤ b.1) :
    (AppRxCb.counts count arrivals).filter (fun c => c.1 ≤ t) =
      AppRxCb.counts count (arrivals.filter fun a => (a.1 : ℤ) ≤ t) := by
  induction arrivals generalizing count with
  | nil => rfl
  | cons a arrivals ih =>
    obtain ⟨hfirst, hsorted⟩ := List.pairwise_cons.mp hsorted
    by_cases hle : (a.1 : ℤ) ≤ t
    · rw [AppRxCb.counts, List.filter_cons_of_pos (by simpa using hle),
        List.filter_cons_of_pos (by simpa using hle), AppRxCb.counts, ih _ hsorted]
    · have hlater : arrivals.filter (fun b => (b.1 : ℤ) ≤ t) = [] := by
        refine List.filter_eq_nil_iff.mpr fun b hb => ?_
        have hab := hfirst b hb
        simp only [decide_eq_true_eq]
        omega
      rw [AppRxCb.counts, List.filter_cons_of_neg (by simpa using hle),
        List.filter_cons_of_neg (by simpa using hle), ih _ hsorted, hlater]
      rfl

/-- The last line until a time has the bytes received until then. -/
lemma lastUntil_counts {arrivals : List Arrival} (hsorted : arrivals.Pairwise fun a b => a.1 ≤ b.1)
    {t : ℤ} {s : RateBins.Sample}
    (hs : RateBins.lastUntil (AppRxCb.counts 0 arrivals) t = some s) :
    s.2 = bytesUntil arrivals t := by
  rw [RateBins.lastUntil, filter_counts t 0 hsorted] at hs
  rw [bytesUntil]
  rcases List.eq_nil_or_concat (arrivals.filter fun a => (a.1 : ℤ) ≤ t) with
    hnil | ⟨before, last, heq⟩
  · rw [hnil] at hs
    cases hs
  · rw [List.concat_eq_append] at heq
    rw [heq, AppRxCb.getLast_counts] at hs
    rw [heq, ← Option.some.inj hs, Nat.zero_add]

section PerSecond

variable {arrivals : List Arrival} {first last : Arrival}

/-- The first line has the size of the first packet. -/
lemma head_counts (hfirst : arrivals.head? = some first) :
    (AppRxCb.counts 0 arrivals).head? = some ((first.1 : ℤ), (first.2 : ℤ)) := by
  obtain ⟨rest, rfl⟩ := List.head?_eq_some_iff.mp hfirst
  rw [AppRxCb.counts, Nat.zero_add]
  rfl

/-- The last line has all bytes. -/
lemma last_counts (hlast : arrivals.getLast? = some last) :
    (AppRxCb.counts 0 arrivals).getLast? =
      some ((last.1 : ℤ), (AppRxCb.bytes arrivals : ℤ)) := by
  obtain ⟨before, rfl⟩ := List.getLast?_eq_some_iff.mp hlast
  rw [AppRxCb.getLast_counts, Nat.zero_add]

/-- The times of the lines do not decrease. -/
lemma pairwise_fst_counts (hsorted : arrivals.Pairwise fun a b => a.1 ≤ b.1) :
    (AppRxCb.counts 0 arrivals).Pairwise fun a b => a.1 ≤ b.1 := by
  rw [← List.pairwise_map (f := Prod.fst) (R := fun a b => a ≤ b), AppRxCb.map_fst_counts,
    List.pairwise_map]
  exact hsorted.imp fun hle => Int.ofNat_le.mpr hle

/-- **The seconds.** The numbers of bytes between the boundaries are those received in the full
seconds before the last packet. -/
theorem byteCounts_counts (hsorted : arrivals.Pairwise fun a b => a.1 ≤ b.1)
    (hfirst : arrivals.head? = some first) (hlast : arrivals.getLast? = some last) :
    ∃ cum, RateBins.byteCountsCum (AppRxCb.counts 0 arrivals) = some cum ∧
      cum.length = (last.1 - first.1) / 1000000 + 1 ∧
      RateBins.byteCounts cum = (List.range ((last.1 - first.1) / 1000000)).map fun i =>
        (bytesInSecond arrivals last.1 i : ℤ) := by
  have hhead := head_counts hfirst
  have hend := last_counts hlast
  have hne : AppRxCb.counts 0 arrivals ≠ [] := by
    intro hnil
    rw [hnil] at hhead
    cases hhead
  have htime : ((AppRxCb.counts 0 arrivals).getLast hne).1 = last.1 := by
    rw [List.getLast?_eq_some_getLast hne] at hend
    rw [Option.some.inj hend]
  obtain ⟨cum, hcum, hbehind, hbins⟩ := RateBins.rateBins_spec hne
  rw [htime] at hbehind hbins
  have hfirstmem := List.mem_of_mem_head? (Option.mem_def.mpr hhead)
  have hlastmem := List.mem_of_getLast? hend
  -- there is a boundary for every full second
  have hlast_lt := hbehind _ hlastmem
  have hfirst_lt := hbehind _ hfirstmem
  dsimp only at hlast_lt hfirst_lt
  have hfirst_le : ∀ c ∈ AppRxCb.counts 0 arrivals, (first.1 : ℤ) ≤ c.1 := by
    obtain ⟨rest, hrest⟩ := List.head?_eq_some_iff.mp hhead
    have hpair := pairwise_fst_counts hsorted
    rw [hrest] at hpair ⊢
    intro c hc
    rcases List.mem_cons.mp hc with rfl | hc
    · exact le_rfl
    · exact (List.pairwise_cons.mp hpair).1 c hc
  have hlength : cum.length = (last.1 - first.1) / 1000000 + 1 := by
    obtain ⟨s, hs, -⟩ := hbins (cum.length - 1) (by omega)
    obtain ⟨hmem, hle⟩ := RateBins.mem_of_lastUntil hs
    have hs' := hfirst_le s hmem
    omega
  refine ⟨cum, hcum, hlength, ?_⟩
  have hat : ∀ k < cum.length, cum.getD k 0 = bytesUntil arrivals (last.1 - k * 1000000) := by
    intro k hk
    obtain ⟨s, hs, heq⟩ := hbins k hk
    rw [List.getD_eq_getElem?_getD, heq]
    exact lastUntil_counts hsorted hs
  rw [RateBins.byteCounts, hlength, Nat.add_sub_cancel]
  refine List.map_congr_left fun i hi => ?_
  have hi := List.mem_range.mp hi
  rw [hat i (by omega), hat (i + 1) (by omega)]
  exact bytesUntil_sub arrivals last.1 i

end PerSecond

/-! ### The tables of a set of logs -/

section Tables

variable {R : Type} [Zero R] [Mul R] [Div R] [IntCast R] [OfNat R 8] [OfNat R 8000000]
  (std : List ℤ → R) (orderByTime : List RateBins.Sample → List RateBins.Sample)

/-- What the row of a log in the table `trace_app_rx_summaries` says, when there are packets. -/
structure RxLog.Measured (log : RxLog) (first last : Arrival) (row : RxSummary R) : Prop where
  /-- The numbers of bytes are all bytes, and the ones of the first packet. -/
  bytes : row.maxBytesRecv = some (AppRxCb.bytes log.arrivals : ℤ) ∧
    row.minBytesRecv = some (first.2 : ℤ)
  /-- The times are the ones of the last and of the first packet. -/
  times : row.maxTimeRecv = some (last.1 : ℤ) ∧ row.minTimeRecv = some (first.1 : ℤ)
  /-- The rate is the one of all packets but the first, in bits per second for times in
  microseconds. -/
  rate : row.rateBps = if first.1 < last.1 then
    ((AppRxCb.bytes log.arrivals - first.2 : ℤ) : R) * 8000000 / ((last.1 - first.1 : ℤ) : R) else 0
  /-- There is a standard deviation when there are more than two seconds. -/
  stddev_isSome : row.rateStddevBps.isSome ↔ first.1 + 2000000 < last.1
  /-- When no two packets are received at one time, it is the one of the full seconds before the
  last packet. -/
  stddev : (log.arrivals.Pairwise fun a b => a.1 < b.1) → first.1 + 2000000 < last.1 →
    row.rateStddevBps = some (8 * std ((List.range ((last.1 - first.1) / 1000000)).map fun i =>
      (bytesInSecond log.arrivals last.1 i : ℤ)))

/-- What the row of a log in the table `trace_app_rx_summaries` says. -/
structure RxLog.SummedUp (log : RxLog) (row : RxSummary R) : Prop where
  /-- The id. -/
  id : row.traceAppRxId = log.id
  /-- Without a packet there are no numbers, and the rate is zero. -/
  silent : log.arrivals = [] → row.maxBytesRecv = none ∧ row.minBytesRecv = none ∧
    row.maxTimeRecv = none ∧ row.minTimeRecv = none ∧ row.rateBps = 0 ∧ row.rateStddevBps = none
  /-- With packets there are the numbers. -/
  measured : ∀ first last, log.arrivals.head? = some first → log.arrivals.getLast? = some last →
    log.Measured std first last row

variable {std orderByTime}

variable (std) in
omit [Zero R] [Div R] [IntCast R] [OfNat R 8000000] in
/-- More than two seconds have a standard deviation, in every order by time. -/
lemma getRateStddev_of_perm {arrivals : List Arrival} {first last : Arrival}
    (hfirst : arrivals.head? = some first) (hlast : arrivals.getLast? = some last)
    {samples : List RateBins.Sample} (hperm : samples.Perm (AppRxCb.counts 0 arrivals))
    (hsorted : samples.Pairwise fun a b => a.1 ≤ b.1) (hlong : first.1 + 2000000 < last.1) :
    ∃ cum, RateBins.byteCountsCum samples = some cum ∧
      RateBins.getRateStddev std samples = some (some (8 * std (RateBins.byteCounts cum))) := by
  have hfirstmem : ((first.1 : ℤ), (first.2 : ℤ)) ∈ samples :=
    hperm.mem_iff.mpr (List.mem_of_mem_head? (Option.mem_def.mpr (head_counts hfirst)))
  have hlastmem : ((last.1 : ℤ), (AppRxCb.bytes arrivals : ℤ)) ∈ samples :=
    hperm.mem_iff.mpr (List.mem_of_getLast? (last_counts hlast))
  have hne : samples ≠ [] := List.ne_nil_of_mem hfirstmem
  -- the last sample in the order is not in front of the last packet
  have hend : (last.1 : ℤ) ≤ (samples.getLast hne).1 := by
    have hsplit := List.dropLast_append_getLast hne
    rw [← hsplit] at hsorted hlastmem
    rcases List.mem_append.mp hlastmem with hmem | hmem
    · exact (List.pairwise_append.mp hsorted).2.2 _ hmem _ List.mem_cons_self
    · rw [← List.mem_singleton.mp hmem]
  obtain ⟨cum, hcum, hbehind, -⟩ := RateBins.rateBins_spec hne
  have hstart := hbehind _ hfirstmem
  refine ⟨cum, hcum, ?_⟩
  dsimp only at hstart
  rw [RateBins.getRateStddev, hcum, Option.map_some, if_neg (by omega)]

omit [Zero R] in
/-- When no two packets are received at one time, there is one order by time. -/
lemma orderByTime_counts {arrivals : List Arrival}
    (hperm : ∀ samples, (orderByTime samples).Perm samples)
    (hsorted : ∀ samples, (orderByTime samples).Pairwise fun a b => a.1 ≤ b.1)
    (hstrict : arrivals.Pairwise fun a b => a.1 < b.1) :
    orderByTime (AppRxCb.counts 0 arrivals) = AppRxCb.counts 0 arrivals := by
  have htimes : ((AppRxCb.counts 0 arrivals).map Prod.fst).Nodup := by
    rw [AppRxCb.map_fst_counts, List.nodup_iff_pairwise_ne, List.pairwise_map]
    exact hstrict.imp fun hlt heq => absurd (Int.ofNat.inj heq) hlt.ne
  refine List.Perm.eq_of_pairwise ?_ (hsorted _)
    (pairwise_fst_counts (hstrict.imp fun hlt => hlt.le)) (hperm _)
  intro a b ha hb hab hba
  exact List.inj_on_of_nodup_map htimes ((hperm _).mem_iff.mp ha) hb (le_antisymm hab hba)

/-- The row of a log with packets. -/
def RxLog.summaryRow (log : RxLog) (first last : Arrival) (stddev : Option R) : RxSummary R where
  traceAppRxId := log.id
  maxBytesRecv := some (AppRxCb.bytes log.arrivals : ℤ)
  minBytesRecv := some (first.2 : ℤ)
  maxTimeRecv := some (last.1 : ℤ)
  minTimeRecv := some (first.1 : ℤ)
  rateBps := if (first.1 : ℤ) < last.1 then
    ((AppRxCb.bytes log.arrivals - first.2 : ℤ) : R) * 8000000 / ((last.1 - first.1 : ℤ) : R) else 0
  rateStddevBps := stddev

/-- The row inserted, up to the standard deviation. -/
lemma rxSummaryOf_eq {log : RxLog} (hlog : log.Written) {samples : List RxSample}
    (hsamples : samplesOf samples log.id = AppRxCb.counts 0 log.arrivals) {first last : Arrival}
    (hfirst : log.arrivals.head? = some first) (hlast : log.arrivals.getLast? = some last) :
    rxSummaryOf std orderByTime samples log.id =
      (rateStddev std orderByTime (AppRxCb.counts 0 log.arrivals) first.1 last.1).map
        (log.summaryRow first last) := by
  have hhead := head_counts hfirst
  have hend := last_counts hlast
  have hbytes : ((AppRxCb.counts 0 log.arrivals).map Prod.snd).Pairwise (· ≤ ·) :=
    List.pairwise_map.mpr (AppRxCb.pairwise_counts 0 log.arrivals)
  have htimes : ((AppRxCb.counts 0 log.arrivals).map Prod.fst).Pairwise (· ≤ ·) :=
    List.pairwise_map.mpr (pairwise_fst_counts hlog.sorted)
  have hmaxBytes := max?_of_pairwise hbytes (x := AppRxCb.bytes log.arrivals) (by
    rw [List.getLast?_map, hend]
    rfl)
  have hminBytes := min?_of_pairwise hbytes (x := first.2) (by
    rw [List.head?_map, hhead]
    rfl)
  have hmaxTime := max?_of_pairwise htimes (x := last.1) (by
    rw [List.getLast?_map, hend]
    rfl)
  have hminTime := min?_of_pairwise htimes (x := first.1) (by
    rw [List.head?_map, hhead]
    rfl)
  rw [rxSummaryOf, hsamples]
  simp only [hmaxBytes, hminBytes, hmaxTime, hminTime]
  rfl

variable (std) in
/-- **Summing up a log.** -/
lemma summedUp_of_samplesOf
    (hperm : ∀ samples, (orderByTime samples).Perm samples)
    (hsorted : ∀ samples, (orderByTime samples).Pairwise fun a b => a.1 ≤ b.1)
    {log : RxLog} (hlog : log.Written) {samples : List RxSample}
    (hsamples : samplesOf samples log.id = AppRxCb.counts 0 log.arrivals) :
    ∃ row, rxSummaryOf std orderByTime samples log.id = some row ∧
      log.SummedUp std row := by
  rcases List.eq_nil_or_concat log.arrivals with hnil | ⟨before, last, heq⟩
  · -- the aggregates of no rows are `NULL`
    have hempty : samplesOf samples log.id = [] := by
      rw [hsamples, hnil]
      rfl
    refine ⟨⟨log.id, none, none, none, none, 0, none⟩, ?_, rfl,
      fun _ => ⟨rfl, rfl, rfl, rfl, rfl, rfl⟩, fun first last hfirst => ?_⟩
    · rw [rxSummaryOf, hempty]
      rfl
    · rw [hnil] at hfirst
      cases hfirst
  · rw [List.concat_eq_append] at heq
    have hne : log.arrivals ≠ [] := by
      rw [heq]
      exact List.concat_ne_nil _ _
    obtain ⟨first, hfirst⟩ : ∃ first, log.arrivals.head? = some first :=
      ⟨log.arrivals.head hne, List.head?_eq_some_head hne⟩
    have hlast : log.arrivals.getLast? = some last := by
      rw [heq]
      exact List.getLast?_concat
    have hmeasured : ∀ stddev : Option R, (stddev.isSome ↔ first.1 + 2000000 < last.1) →
        ((log.arrivals.Pairwise fun a b => a.1 < b.1) → first.1 + 2000000 < last.1 →
          stddev = some (8 * std ((List.range ((last.1 - first.1) / 1000000)).map fun i =>
            (bytesInSecond log.arrivals last.1 i : ℤ)))) →
        log.SummedUp std (log.summaryRow first last stddev) := by
      intro stddev hsome hexact
      refine ⟨rfl, fun hnil => absurd hnil hne, fun first' last' hfirst' hlast' => ?_⟩
      obtain rfl : first = first' := Option.some.inj (hfirst.symm.trans hfirst')
      obtain rfl : last = last' := Option.some.inj (hlast.symm.trans hlast')
      exact ⟨⟨rfl, rfl⟩, ⟨rfl, rfl⟩, if_congr Nat.cast_lt rfl rfl, hsome, hexact⟩
    rw [rxSummaryOf_eq hlog hsamples hfirst hlast]
    by_cases hlong : first.1 + 2000000 < last.1
    · obtain ⟨cum, hcum, hstddev⟩ := getRateStddev_of_perm std hfirst hlast
        (hperm (AppRxCb.counts 0 log.arrivals)) (hsorted (AppRxCb.counts 0 log.arrivals)) hlong
      refine ⟨_, ?_, hmeasured (some (8 * std (RateBins.byteCounts cum)))
        (iff_of_true rfl hlong) fun hstrict _ => ?_⟩
      · rw [rateStddev, if_pos (by omega), hstddev, Option.map_some]
      · obtain ⟨cum', hcum', -, hseconds⟩ := byteCounts_counts hlog.sorted hfirst hlast
        rw [orderByTime_counts hperm hsorted hstrict, hcum'] at hcum
        rw [← Option.some.inj hcum, hseconds]
    · refine ⟨_, ?_, hmeasured none (iff_of_false (by simp) hlong)
        fun _ hlong' => absurd hlong' hlong⟩
      rw [rateStddev, if_neg (by omega), Option.map_some]

variable (std) in
/-- The rows of some of the logs. -/
lemma exists_summaries (hperm : ∀ samples, (orderByTime samples).Perm samples)
    (hsorted : ∀ samples, (orderByTime samples).Pairwise fun a b => a.1 ≤ b.1)
    {logs : List RxLog} (hids : (logs.map RxLog.id).Nodup) (hlogs : ∀ log ∈ logs, log.Written)
    {part : List RxLog} (hsub : part ⊆ logs) :
    ∃ rows, createTraceAppRxSummariesTable std orderByTime (logs.flatMap RxLog.samples)
        (part.map RxLog.id) = some rows ∧
      List.Forall₂ (RxLog.SummedUp std) part rows := by
  induction part with
  | nil => exact ⟨[], rfl, .nil⟩
  | cons log part ih =>
    obtain ⟨hmem, hsub⟩ := List.cons_subset.mp hsub
    obtain ⟨rows, hrows, hall⟩ := ih hsub
    obtain ⟨row, hrow, hsummed⟩ := summedUp_of_samplesOf std hperm hsorted
      (hlogs log hmem) (samplesOf_flatMap hids hmem)
    refine ⟨row :: rows, ?_, .cons hsummed hall⟩
    rw [createTraceAppRxSummariesTable] at hrows ⊢
    rw [List.map_cons, List.mapM_cons, hrow, hrows]
    rfl

/-- **Throughput accounting.** Let the logs of the applications be written while packets are
received, in the order of time.  `createresultsdb` reads them without an error, and has a row for
each log: the numbers of bytes, the times and the rate are the ones of the packets received, and the
standard deviation of the rate is the one over the full seconds. -/
theorem rx_accounting (hperm : ∀ samples, (orderByTime samples).Perm samples)
    (hsorted : ∀ samples, (orderByTime samples).Pairwise fun a b => a.1 ≤ b.1)
    {logs : List RxLog} (hids : (logs.map RxLog.id).Nodup) (hlogs : ∀ log ∈ logs, log.Written) :
    ∃ samples rows,
      createTraceAppRxSamplesTable (logs.map fun log => (log.id, log.text)) = some samples ∧
      createTraceAppRxSummariesTable std orderByTime samples (logs.map RxLog.id) = some rows ∧
      List.Forall₂ (RxLog.SummedUp std) logs rows := by
  obtain ⟨rows, hrows, hall⟩ :=
    exists_summaries std hperm hsorted hids hlogs (List.Subset.refl logs)
  exact ⟨_, rows, createTraceAppRxSamplesTable_text hlogs, hrows, hall⟩

end Tables

/-- Two logs: four packets at full seconds, and none. -/
def twoLogs : List RxLog :=
  [{ id := 0
     header := ["# app_connect_id = 0".toList]
     arrivals := [(0, 100), (1000000, 50), (2000000, 50), (3000000, 50)] },
   { id := 1
     header := ["# app_connect_id = 1".toList]
     arrivals := [] }]

/-- The logs can be written. -/
lemma written_twoLogs : ∀ log ∈ twoLogs, log.Written := by
  intro log hlog
  simp only [twoLogs, List.mem_cons, List.not_mem_nil, or_false] at hlog
  rcases hlog with rfl | rfl
  · refine ⟨?_, ⟨by decide, by decide⟩, by decide⟩
    simp only [List.mem_singleton, forall_eq]
    exact ⟨⟨by decide, by decide⟩, by decide⟩
  · refine ⟨?_, ⟨by decide, by decide⟩, by decide⟩
    simp only [List.mem_singleton, forall_eq]
    exact ⟨⟨by decide, by decide⟩, by decide⟩

/-- Samples sorted by time, behind each other when the times are equal. -/
def sortByTime (samples : List RateBins.Sample) : List RateBins.Sample :=
  samples.mergeSort fun a b => decide (a.1 ≤ b.1)

/-- No sample is lost. -/
lemma perm_sortByTime (samples : List RateBins.Sample) : (sortByTime samples).Perm samples :=
  List.mergeSort_perm samples _

/-- The samples are in the order of time. -/
lemma pairwise_sortByTime (samples : List RateBins.Sample) :
    (sortByTime samples).Pairwise fun a b => a.1 ≤ b.1 := by
  have hsorted : (sortByTime samples).Pairwise fun a b => decide (a.1 ≤ b.1) = true :=
    List.pairwise_mergeSort
      (fun a b c hab hbc => decide_eq_true ((of_decide_eq_true hab).trans (of_decide_eq_true hbc)))
      (fun a b => by simpa using le_total a.1 b.1) samples
  exact hsorted.imp of_decide_eq_true

/-- The two logs, in which the bytes of the full seconds are equal, so that the deviation is 0. -/
theorem rx_accounting_two :
    ∃ samples rows,
      createTraceAppRxSamplesTable (twoLogs.map fun log => (log.id, log.text)) = some samples ∧
      createTraceAppRxSummariesTable (fun _ => (0 : ℚ)) sortByTime samples
        (twoLogs.map RxLog.id) = some rows ∧
      List.Forall₂ (RxLog.SummedUp fun _ => (0 : ℚ)) twoLogs rows :=
  rx_accounting perm_sortByTime pairwise_sortByTime (by decide) written_twoLogs

end MeshSim
