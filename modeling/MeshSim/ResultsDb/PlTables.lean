import MeshSim.Foundation.PythonText
import MeshSim.LossMonitor.Replay

/-!
# The packet loss tables

`scripts/createresultsdb`: the functions that read the packet loss logs into the table
`trace_app_pl_samples` and sum them up in `trace_app_pl_summaries`, and the text of the logs as
`sim/app_rx_cb.cc` writes it.

The table `trace_app_pl` enters as the list of its ids, with the text of the file of each.  A Python
exception, and an integer that leaves the 64 bits of SQLite, have no result.
-/

namespace MeshSim

open PythonText

/-! ### The text of a log -/

namespace EvName

/-- The first word of a `lost_range` line. -/
def lostRange : List Char :=
  ['l', 'o', 's', 't', '_', 'r', 'a', 'n', 'g', 'e']

/-- The first word of a `dup` line. -/
def dup : List Char := ['d', 'u', 'p']

/-- The first word of a `large_reorder` line. -/
def largeReorder : List Char :=
  ['l', 'a', 'r', 'g', 'e', '_', 'r', 'e', 'o', 'r', 'd', 'e',
    'r']

/-- The first word of a `largest_seqno_processed` line. -/
def largestSeqnoProcessed : List Char :=
  ['l', 'a', 'r', 'g', 'e', 's', 't', '_', 's', 'e', 'q', 'n',
    'o', '_', 'p', 'r', 'o', 'c', 'e', 's', 's', 'e', 'd']

end EvName

/-- A line of the log as `fprintf` writes it. -/
def LogLine.text : LogLine → List Char
  | .lostRange first last =>
    EvName.lostRange ++ (' ' :: formatLong first) ++ (' ' :: formatLong last) ++ ['\n']
  | .dup seqno => EvName.dup ++ (' ' :: formatLong seqno) ++ ['\n']
  | .largeReorder seqno largest =>
    EvName.largeReorder ++ (' ' :: formatLong seqno) ++ (' ' :: formatLong largest) ++ ['\n']
  | .largestSeqnoProcessed seqno =>
    EvName.largestSeqnoProcessed ++ (' ' :: formatLong seqno) ++ ['\n']

/-- A log file, and its id in the table `trace_app_pl`. -/
structure PlLog where
  /-- `id`. -/
  id : ℕ
  /-- The comment lines at its head, without line ends. -/
  header : List (List Char)
  /-- The lines logged. -/
  lines : List LogLine

/-- The text of a log file. -/
def PlLog.text (log : PlLog) : List Char :=
  (log.header.flatMap fun l => l ++ ['\n']) ++ log.lines.flatMap LogLine.text

/-! ### The tables -/

/-- A row of `trace_app_pl_samples`. -/
structure PlSample where
  /-- `trace_app_pl_id`. -/
  traceAppPlId : ℕ
  /-- `evtype`. -/
  evtype : Option ℕ
  /-- `seqno`. -/
  seqno : Option ℤ
  /-- `seqno2`. -/
  seqno2 : Option ℤ
deriving DecidableEq, Repr

/-- A row of `trace_app_pl_summaries`. -/
structure PlSummary where
  /-- `trace_app_pl_id`. -/
  traceAppPlId : ℕ
  /-- `loss_ev_count`. -/
  lossEvCount : ℕ
  /-- `loss_pkt_count`. -/
  lossPktCount : ℤ
  /-- `dup_count`. -/
  dupCount : ℕ
  /-- `large_reorder_count`. -/
  largeReorderCount : ℕ
  /-- `largest_seqno`. -/
  largestSeqno : Option ℤ
deriving DecidableEq, Repr

/-- A 64-bit integer of SQLite. -/
def sqlInteger (x : ℤ) : Option ℤ := if -2 ^ 63 ≤ x ∧ x < 2 ^ 63 then some x else none

/-- `int(l[i])`, as it enters the table. -/
def intField (l : List (List Char)) (i : ℕ) : Option ℤ := (l[i]?.bind toInt).bind sqlInteger

/-- The body of the loop over the lines of a file: the row inserted, if any. -/
def sampleOfLine (idx : ℕ) (l : List Char) : Option (Option PlSample) :=
  if l = [] ∨ l.head? = some '#' then some none
  else
    match split (strip l) with
    | [] => none
    | word :: words =>
      let l := word :: words
      if word = EvName.lostRange then do
        let seqno ← intField l 1
        let seqno2 ← intField l 2
        some (some { traceAppPlId := idx, evtype := some 0, seqno := some seqno
                     seqno2 := some seqno2 })
      else if word = EvName.dup then do
        let seqno ← intField l 1
        some (some { traceAppPlId := idx, evtype := some 1, seqno := some seqno, seqno2 := none })
      else if word = EvName.largeReorder then do
        let seqno ← intField l 1
        let seqno2 ← intField l 2
        some (some { traceAppPlId := idx, evtype := some 2, seqno := some seqno
                     seqno2 := some seqno2 })
      else if word = EvName.largestSeqnoProcessed then do
        let seqno ← intField l 1
        some (some { traceAppPlId := idx, evtype := some 3, seqno := some seqno, seqno2 := none })
      else some (some { traceAppPlId := idx, evtype := none, seqno := none, seqno2 := none })

/-- The loop over the lines of a file. -/
def samplesOfLines (idx : ℕ) : List (List Char) → Option (List PlSample)
  | [] => some []
  | l :: ls =>
    match sampleOfLine idx l with
    | none => none
    | some row => (samplesOfLines idx ls).map fun rows => row.toList ++ rows

/-- `create_trace_app_pl_samples_table`. -/
def createTraceAppPlSamplesTable : List (ℕ × List Char) → Option (List PlSample)
  | [] => some []
  | (idx, text) :: files =>
    match samplesOfLines idx (readLines text) with
    | none => none
    | some rows => (createTraceAppPlSamplesTable files).map fun rows' => rows ++ rows'

/-- `evcounts[ev]`. -/
def evcounts (rows : List PlSample) (ev : ℕ) : ℕ := rows.countP fun r => r.evtype = some ev

/-- `coalesce(sum(seqno2 - seqno + 1), 0)`, behind a partial sum; the sum leaves out `NULL`. -/
def sumLosses (sum : ℤ) : List PlSample → Option ℤ
  | [] => some sum
  | r :: rows =>
    match r.seqno, r.seqno2 with
    | some seqno, some seqno2 => do
      let d ← sqlInteger (seqno2 - seqno)
      let d ← sqlInteger (d + 1)
      let sum ← sqlInteger (sum + d)
      sumLosses sum rows
    | _, _ => sumLosses sum rows

/-- The body of the loop over the ids of `trace_app_pl`: the row inserted, if any. -/
def summaryOf (samples : List PlSample) (j : ℕ) : Option (Option PlSummary) :=
  let rows := samples.filter fun r => r.traceAppPlId = j
  -- an `evtype` that is `NULL` is no index of `evcounts`
  if rows.any fun r => r.evtype.all fun ev => 4 ≤ ev then none
  else
    match sumLosses 0 (rows.filter fun r => r.evtype = some 0) with
    | none => none
    | some lossPktCount =>
      match (rows.filter fun r => r.evtype = some 3).map PlSample.seqno with
      | [] => some none
      | [largestSeqno] =>
        if evcounts rows 3 = 1 then
          some (some
            { traceAppPlId := j
              lossEvCount := evcounts rows 0
              lossPktCount := lossPktCount
              dupCount := evcounts rows 1
              largeReorderCount := evcounts rows 2
              largestSeqno := largestSeqno })
        else some none
      | _ => none

/-- `create_trace_app_pl_summaries_table`, for the ids of `trace_app_pl`. -/
def createTraceAppPlSummariesTable (samples : List PlSample) : List ℕ → Option (List PlSummary)
  | [] => some []
  | j :: js =>
    match summaryOf samples j with
    | none => none
    | some row =>
      (createTraceAppPlSummariesTable samples js).map fun rows => row.toList ++ rows

/-! ### Reading back a log -/

/-- The words of a line. -/
def LogLine.words : LogLine → List (List Char)
  | .lostRange first last => [EvName.lostRange, formatLong first, formatLong last]
  | .dup seqno => [EvName.dup, formatLong seqno]
  | .largeReorder seqno largest => [EvName.largeReorder, formatLong seqno, formatLong largest]
  | .largestSeqnoProcessed seqno => [EvName.largestSeqnoProcessed, formatLong seqno]

/-- The numbers of a line. -/
def LogLine.numbers : LogLine → List ℤ
  | .lostRange first last => [first, last]
  | .dup seqno => [seqno]
  | .largeReorder seqno largest => [seqno, largest]
  | .largestSeqnoProcessed seqno => [seqno]

/-- The row of a line. -/
def LogLine.sample (idx : ℕ) : LogLine → PlSample
  | .lostRange first last =>
    { traceAppPlId := idx, evtype := some 0, seqno := some first, seqno2 := some last }
  | .dup seqno => { traceAppPlId := idx, evtype := some 1, seqno := some seqno, seqno2 := none }
  | .largeReorder seqno largest =>
    { traceAppPlId := idx, evtype := some 2, seqno := some seqno, seqno2 := some largest }
  | .largestSeqnoProcessed seqno =>
    { traceAppPlId := idx, evtype := some 3, seqno := some seqno, seqno2 := none }

/-- The first words are words. -/
lemma word_evName :
    Word EvName.lostRange ∧ Word EvName.dup ∧ Word EvName.largeReorder ∧
      Word EvName.largestSeqnoProcessed := by
  refine ⟨⟨List.cons_ne_nil _ _, ?_⟩, ⟨List.cons_ne_nil _ _, ?_⟩, ⟨List.cons_ne_nil _ _, ?_⟩,
    ⟨List.cons_ne_nil _ _, ?_⟩⟩
  · simp [EvName.lostRange, isSpace]
  · simp [EvName.dup, isSpace]
  · simp [EvName.largeReorder, isSpace]
  · simp [EvName.largestSeqnoProcessed, isSpace]

/-- The words of a line are words. -/
lemma LogLine.word_words (l : LogLine) : ∀ w ∈ l.words, Word w := by
  obtain ⟨hlost, hdup, hreorder, hlargest⟩ := word_evName
  cases l <;>
    simp only [LogLine.words, List.forall_mem_cons, List.not_mem_nil, false_imp_iff, implies_true,
      and_true, word_formatLong, hlost, hdup, hreorder, hlargest]

/-- A line is its words, blanks between them and a line feed. -/
lemma LogLine.text_eq_line (l : LogLine) : l.text = line l.words := by
  cases l <;>
    simp [LogLine.text, LogLine.words, line, List.intercalate_cons_cons]

/-- The integers of SQLite. -/
lemma sqlInteger_of_range {x : ℤ} (h : -2 ^ 63 ≤ x ∧ x < 2 ^ 63) : sqlInteger x = some x := if_pos h

/-- A line is not skipped. -/
lemma LogLine.not_skipped (l : LogLine) : ¬(l.text = [] ∨ l.text.head? = some '#') := by
  cases l <;> rintro (h | h) <;>
    simp [LogLine.text, EvName.lostRange, EvName.dup, EvName.largeReorder,
      EvName.largestSeqnoProcessed] at h

/-- The first words differ. -/
lemma evName_ne :
    EvName.dup ≠ EvName.lostRange ∧ EvName.largeReorder ≠ EvName.lostRange ∧
      EvName.largeReorder ≠ EvName.dup ∧ EvName.largestSeqnoProcessed ≠ EvName.lostRange ∧
      EvName.largestSeqnoProcessed ≠ EvName.dup ∧
      EvName.largestSeqnoProcessed ≠ EvName.largeReorder := by
  simp [EvName.lostRange, EvName.dup, EvName.largeReorder, EvName.largestSeqnoProcessed]

/-- The first number of a line enters the table. -/
lemma intField_one {word : List Char} {words : List (List Char)} {x : ℤ}
    (h : -2 ^ 63 ≤ x ∧ x < 2 ^ 63) : intField (word :: formatLong x :: words) 1 = some x := by
  change ((toInt (formatLong x)).bind sqlInteger) = some x
  rw [toInt_formatLong, Option.bind_some, sqlInteger_of_range h]

/-- The second number of a line enters the table. -/
lemma intField_two {word word' : List Char} {words : List (List Char)} {x : ℤ}
    (h : -2 ^ 63 ≤ x ∧ x < 2 ^ 63) :
    intField (word :: word' :: formatLong x :: words) 2 = some x := by
  change ((toInt (formatLong x)).bind sqlInteger) = some x
  rw [toInt_formatLong, Option.bind_some, sqlInteger_of_range h]

/-- **Reading back a line.** -/
theorem sampleOfLine_text (idx : ℕ) {l : LogLine}
    (hrange : ∀ x ∈ l.numbers, -2 ^ 63 ≤ x ∧ x < 2 ^ 63) :
    sampleOfLine idx l.text = some (some (l.sample idx)) := by
  obtain ⟨h₁, h₂, h₃, h₄, h₅, h₆⟩ := evName_ne
  have hsplit : split (strip l.text) = l.words := by
    rw [LogLine.text_eq_line, split_strip_line l.word_words]
  rw [sampleOfLine, if_neg l.not_skipped, hsplit]
  cases l with
  | lostRange first last =>
    obtain ⟨hfirst, hlast, -⟩ := List.forall_mem_cons.mp hrange |>.imp_right List.forall_mem_cons.mp
    simp only [LogLine.words, if_true, intField_one hfirst, intField_two hlast]
    rfl
  | dup seqno =>
    simp only [LogLine.words, if_neg h₁, if_true,
      intField_one (hrange seqno (List.mem_singleton_self _))]
    rfl
  | largeReorder seqno largest =>
    obtain ⟨hseqno, hlargest, -⟩ :=
      List.forall_mem_cons.mp hrange |>.imp_right List.forall_mem_cons.mp
    simp only [LogLine.words, if_neg h₂, if_neg h₃, if_true, intField_one hseqno,
      intField_two hlargest]
    rfl
  | largestSeqnoProcessed seqno =>
    simp only [LogLine.words, if_neg h₄, if_neg h₅, if_neg h₆, if_true,
      intField_one (hrange seqno (List.mem_singleton_self _))]
    rfl

/-! ### Reading back files -/

/-- The comment lines are comments, and the numbers are 64-bit integers. -/
structure PlLog.WellFormed (log : PlLog) : Prop where
  /-- The comment lines are comments, each on a line of its own. -/
  header_comment : ∀ l ∈ log.header, OneLine l ∧ l.head? = some '#'
  /-- The numbers are `int64_t`s. -/
  numbers_range : ∀ l ∈ log.lines, ∀ x ∈ l.numbers, -2 ^ 63 ≤ x ∧ x < 2 ^ 63

/-- The rows of a log. -/
def PlLog.samples (log : PlLog) : List PlSample := log.lines.map (LogLine.sample log.id)

/-- The lines that Python finds in a log. -/
lemma PlLog.WellFormed.readLines_text {log : PlLog} (hlog : log.WellFormed) :
    readLines log.text =
      (log.header.map fun l => l ++ ['\n']) ++ log.lines.map LogLine.text := by
  have htext : log.lines.map LogLine.text =
      (log.lines.map fun l => List.intercalate [' '] l.words).map fun l => l ++ ['\n'] := by
    rw [List.map_map]
    exact List.map_congr_left fun l _ => l.text_eq_line
  have hflat : log.text =
      (log.header ++ log.lines.map fun l => List.intercalate [' '] l.words).flatMap
        fun l => l ++ ['\n'] := by
    rw [PlLog.text, List.flatMap_append, List.flatMap_map]
    congr 1
    exact congrArg (List.flatMap · log.lines) (funext LogLine.text_eq_line)
  rw [hflat, readLines_flatMap, List.map_append, htext]
  intro l hl
  rcases List.mem_append.mp hl with hl | hl
  · exact (hlog.header_comment l hl).1
  · obtain ⟨line, -, rfl⟩ := List.mem_map.mp hl
    exact oneLine_intercalate line.word_words

/-- Comment lines are skipped. -/
lemma samplesOfLines_header (idx : ℕ) {header ls : List (List Char)}
    (hheader : ∀ l ∈ header, l.head? = some '#') :
    samplesOfLines idx ((header.map fun l => l ++ ['\n']) ++ ls) = samplesOfLines idx ls := by
  induction header with
  | nil => rfl
  | cons l header ih =>
    obtain ⟨hl, hheader⟩ := List.forall_mem_cons.mp hheader
    have hhead : (l ++ ['\n']).head? = some '#' := by rw [List.head?_append, hl]; rfl
    rw [List.map_cons, List.cons_append, samplesOfLines, sampleOfLine, if_pos (Or.inr hhead)]
    simp [ih hheader]

/-- Every line logged is a row. -/
lemma samplesOfLines_text (idx : ℕ) {lines : List LogLine}
    (hrange : ∀ l ∈ lines, ∀ x ∈ l.numbers, -2 ^ 63 ≤ x ∧ x < 2 ^ 63) :
    samplesOfLines idx (lines.map LogLine.text) = some (lines.map (LogLine.sample idx)) := by
  induction lines with
  | nil => rfl
  | cons l lines ih =>
    obtain ⟨hl, hlines⟩ := List.forall_mem_cons.mp hrange
    rw [List.map_cons, samplesOfLines, sampleOfLine_text idx hl, ih hlines]
    rfl

/-- **Reading back the logs.** The samples table holds a row for every line logged. -/
theorem createTraceAppPlSamplesTable_text {logs : List PlLog}
    (hlogs : ∀ log ∈ logs, log.WellFormed) :
    createTraceAppPlSamplesTable (logs.map fun log => (log.id, log.text)) =
      some (logs.flatMap PlLog.samples) := by
  induction logs with
  | nil => rfl
  | cons log logs ih =>
    obtain ⟨hlog, hlogs⟩ := List.forall_mem_cons.mp hlogs
    rw [List.map_cons, createTraceAppPlSamplesTable, hlog.readLines_text,
      samplesOfLines_header _ fun l hl => (hlog.header_comment l hl).2,
      samplesOfLines_text _ hlog.numbers_range, ih hlogs]
    rfl

/-- A row has the id of its log. -/
@[simp] lemma traceAppPlId_sample (idx : ℕ) (l : LogLine) : (l.sample idx).traceAppPlId = idx := by
  cases l <;> rfl

/-- The rows of a log all have its id. -/
lemma PlLog.filter_samples_self (log : PlLog) :
    log.samples.filter (fun r => r.traceAppPlId = log.id) = log.samples := by
  refine List.filter_eq_self.mpr fun r hr => ?_
  obtain ⟨l, -, rfl⟩ := List.mem_map.mp hr
  simp

/-- The rows of a log have no other id. -/
lemma PlLog.filter_samples_of_ne {log : PlLog} {j : ℕ} (h : log.id ≠ j) :
    log.samples.filter (fun r => r.traceAppPlId = j) = [] := by
  refine List.filter_eq_nil_iff.mpr fun r hr => ?_
  obtain ⟨l, -, rfl⟩ := List.mem_map.mp hr
  simpa using h

/-- The rows of one log among those of several. -/
lemma filter_samples {logs : List PlLog} (hids : (logs.map PlLog.id).Nodup) {log : PlLog}
    (hmem : log ∈ logs) :
    (logs.flatMap PlLog.samples).filter (fun r => r.traceAppPlId = log.id) = log.samples := by
  induction logs with
  | nil => cases hmem
  | cons log' logs ih =>
    rw [List.map_cons, List.nodup_cons] at hids
    rw [List.flatMap_cons, List.filter_append]
    rcases List.mem_cons.mp hmem with rfl | hmem
    · have hothers :
          (logs.flatMap PlLog.samples).filter (fun r => r.traceAppPlId = log.id) = [] := by
        rw [List.filter_flatMap, List.flatMap_eq_nil_iff]
        intro other hother
        exact PlLog.filter_samples_of_ne fun heq =>
          hids.1 (List.mem_map.mpr ⟨other, hother, heq⟩)
      rw [hothers, List.append_nil, log.filter_samples_self]
    · have hne : log'.id ≠ log.id := fun heq =>
        hids.1 (List.mem_map.mpr ⟨log, hmem, heq.symm⟩)
      rw [PlLog.filter_samples_of_ne hne, List.nil_append, ih hids.2 hmem]

/-! ### Summing up a log -/

/-- The numbers of the `largest_seqno_processed` lines. -/
def processed (lines : List LogLine) : List ℤ :=
  lines.filterMap fun l => match l with
    | .largestSeqnoProcessed seqno => some seqno
    | _ => none

/-- The ranges of one more line in front. -/
lemma lostRanges_cons (l : LogLine) (lines : List LogLine) :
    lostRanges (l :: lines) = l.range?.toList ++ lostRanges lines := by
  cases l <;> rfl

/-- The event counts of a log. -/
lemma evcounts_sample (j : ℕ) (lines : List LogLine) :
    evcounts (lines.map (LogLine.sample j)) 0 = (lostRanges lines).length ∧
      evcounts (lines.map (LogLine.sample j)) 1 = dupCount lines ∧
      evcounts (lines.map (LogLine.sample j)) 2 = largeReorderCount lines ∧
      evcounts (lines.map (LogLine.sample j)) 3 = (processed lines).length := by
  induction lines with
  | nil => exact ⟨rfl, rfl, rfl, rfl⟩
  | cons l lines ih =>
    cases l <;>
      simpa [evcounts, LogLine.sample, lostRanges_cons, LogLine.range?, dupCount,
        largeReorderCount, processed] using ih

/-- The numbers of the rows with event type 3. -/
lemma map_seqno_sample (j : ℕ) (lines : List LogLine) :
    ((lines.map (LogLine.sample j)).filter fun r => r.evtype = some 3).map PlSample.seqno =
      (processed lines).map some := by
  induction lines with
  | nil => rfl
  | cons l lines ih => cases l <;> simpa [LogLine.sample, processed] using ih

/-- No row of a log has an unknown event type. -/
lemma any_sample (j : ℕ) (lines : List LogLine) :
    (lines.map (LogLine.sample j)).any (fun r => r.evtype.all fun ev => 4 ≤ ev) = false := by
  rw [List.any_eq_false]
  intro r hr
  obtain ⟨l, -, rfl⟩ := List.mem_map.mp hr
  cases l <;> simp [LogLine.sample]

/-- Only `lost_range` lines count as losses. -/
lemma filter_sample_cons (j : ℕ) (l : LogLine) (lines : List LogLine) :
    ((l :: lines).map (LogLine.sample j)).filter (fun r => r.evtype = some 0) =
      (l.range?.toList.map fun r => LogLine.sample j (.lostRange r.1 r.2)) ++
        (lines.map (LogLine.sample j)).filter fun r => r.evtype = some 0 := by
  cases l <;> rfl

/-- **Summing up the losses.** No intermediate result leaves the 64 bits of SQLite. -/
lemma sumLosses_sample (j : ℕ) {lines : List LogLine}
    (hranges : ∀ r ∈ lostRanges lines, 0 ≤ r.1 ∧ r.1 ≤ r.2 ∧ r.2 < 2 ^ 63) {sum : ℤ}
    (h0 : 0 ≤ sum) (hsum : sum + lostCount lines < 2 ^ 63) :
    sumLosses sum ((lines.map (LogLine.sample j)).filter fun r => r.evtype = some 0) =
      some (sum + lostCount lines) := by
  induction lines generalizing sum with
  | nil => simp [sumLosses, lostCount, lostRanges]
  | cons l lines ih =>
    rw [lostRanges_cons] at hranges
    have htail : ∀ r ∈ lostRanges lines, 0 ≤ r.1 ∧ r.1 ≤ r.2 ∧ r.2 < 2 ^ 63 :=
      fun r hr => hranges r (List.mem_append_right _ hr)
    rw [lostCount, lostRanges_cons, List.map_append, List.sum_append, ← lostCount] at hsum ⊢
    rw [filter_sample_cons]
    cases hrange : l.range? with
    | none =>
      rw [hrange] at hsum
      simp only [Option.toList_none, List.map_nil, List.sum_nil, zero_add,
        List.nil_append] at hsum ⊢
      exact ih htail h0 hsum
    | some r =>
      have hmem : r ∈ l.range?.toList := by rw [hrange]; exact List.mem_singleton_self r
      obtain ⟨hlow, hle, hhigh⟩ := hranges r (List.mem_append_left _ hmem)
      have hrest : 0 ≤ lostCount lines := by
        refine List.sum_nonneg fun x hx => ?_
        obtain ⟨r', hr', rfl⟩ := List.mem_map.mp hx
        have := htail r' hr'
        omega
      rw [hrange] at hsum
      simp only [Option.toList_some, List.map_cons, List.map_nil, List.sum_singleton,
        List.singleton_append, sumLosses, LogLine.sample] at hsum ⊢
      rw [sqlInteger_of_range (by omega), Option.bind_eq_bind, Option.bind_some,
        sqlInteger_of_range (by omega), Option.bind_some, sqlInteger_of_range (by omega),
        Option.bind_some, ih htail (by omega) (by omega), add_assoc]

/-- **Summing up a log.** -/
theorem summaryOf_sample {samples : List PlSample} {j : ℕ} {lines : List LogLine}
    (hrows : samples.filter (fun r => r.traceAppPlId = j) = lines.map (LogLine.sample j))
    (hranges : ∀ r ∈ lostRanges lines, 0 ≤ r.1 ∧ r.1 ≤ r.2 ∧ r.2 < 2 ^ 63)
    (hsum : lostCount lines < 2 ^ 63) :
    summaryOf samples j =
      match processed lines with
      | [] => some none
      | [largestSeqno] =>
        some (some
          { traceAppPlId := j
            lossEvCount := (lostRanges lines).length
            lossPktCount := lostCount lines
            dupCount := dupCount lines
            largeReorderCount := largeReorderCount lines
            largestSeqno := some largestSeqno })
      | _ => none := by
  obtain ⟨h0, h1, h2, h3⟩ := evcounts_sample j lines
  have hlosses := sumLosses_sample j hranges le_rfl (by rwa [zero_add])
  rw [zero_add] at hlosses
  simp only [summaryOf, hrows, any_sample, hlosses, map_seqno_sample, h0, h1, h2, h3]
  cases processed lines with
  | nil => rfl
  | cons x xs =>
    cases xs with
    | nil => rfl
    | cons y ys => rfl

/-- The summaries table holds the rows of the logs that can be summed up. -/
lemma createTraceAppPlSummariesTable_eq {samples : List PlSample} {js : List ℕ}
    (h : ∀ j ∈ js, ∃ row, summaryOf samples j = some row) :
    createTraceAppPlSummariesTable samples js =
      some (js.filterMap fun j => (summaryOf samples j).join) := by
  induction js with
  | nil => rfl
  | cons j js ih =>
    obtain ⟨hj, hjs⟩ := List.forall_mem_cons.mp h
    obtain ⟨row, hrow⟩ := hj
    rw [createTraceAppPlSummariesTable, hrow, ih hjs]
    cases row with
    | none => rw [List.filterMap_cons_none (by rw [hrow]; rfl)]; rfl
    | some row => rw [List.filterMap_cons_some (by rw [hrow]; rfl)]; rfl

end MeshSim
