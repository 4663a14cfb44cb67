import MeshSim.ResultsDb.PlTables

/-!
# Loss accounting from the trace to the results database

The ranges that a monitor logs as lost and the numbers that it pops as a new maximum partition the
numbers up to `largest_seqno_processed`.  The row that `createresultsdb` computes from the text of
the log therefore balances, also when the database is built from the logs of several monitors.
-/

namespace MeshSim

open PythonText AppRxCb

/-! ### The lines of a monitor -/

/-- The numbers in the lines of a replay are as small as those replayed. -/
lemma numbers_replay {largest : ℤ} {vs : List ℤ} (hlargest : -1 ≤ largest ∧ largest < 2 ^ 63)
    (hvs : ∀ v ∈ vs, 0 ≤ v ∧ v < 2 ^ 63) :
    ∀ l ∈ log (replay largest vs), ∀ x ∈ l.numbers, -1 ≤ x ∧ x < 2 ^ 63 := by
  induction vs generalizing largest with
  | nil => exact fun l hl => by cases hl
  | cons v vs ih =>
    obtain ⟨hv, hvs⟩ := List.forall_mem_cons.mp hvs
    have hmax : -1 ≤ max largest v ∧ max largest v < 2 ^ 63 :=
      ⟨hlargest.1.trans (le_max_left _ _), max_lt hlargest.2 hv.2⟩
    intro l hl
    rw [replay_cons, log_cons] at hl
    rcases List.mem_append.mp hl with hl | hl
    · rcases Pop.line_cases { value := v, largest := largest } with
        ⟨h, hline⟩ | ⟨h, hline⟩ | ⟨h, hline⟩ | ⟨h, hline⟩
      all_goals
        rw [hline] at hl
        dsimp only at h
        simp only [Option.toList_some, Option.toList_none, List.mem_singleton,
          List.not_mem_nil] at hl
      all_goals
        subst hl
        simp only [LogLine.numbers, List.forall_mem_cons, List.not_mem_nil, false_imp_iff,
          implies_true, and_true]
        omega
    · exact ih hmax hvs l hl

/-- No pop logs `largest_seqno_processed`. -/
lemma processed_log (pops : List Pop) : processed (log pops) = [] := by
  induction pops with
  | nil => rfl
  | cons p pops ih =>
    rw [log_cons]
    rcases p.line_cases with ⟨-, hline⟩ | ⟨-, hline⟩ | ⟨-, hline⟩ | ⟨-, hline⟩
    all_goals
      rw [hline]
      exact ih

/-- The lines that a monitor writes from its construction to its destruction when it pops some
numbers. -/
def writtenLines (vs : List ℤ) : List LogLine :=
  log (replay (-1) vs) ++
    if vs = [] then [] else [.largestSeqnoProcessed (largestAfter (-1) vs)]

/-- Sequence numbers below `2 ^ 63`. -/
def SeqnoRange (vs : List ℤ) : Prop := ∀ v ∈ vs, 0 ≤ v ∧ v < 2 ^ 63

/-- The largest number popped is in range. -/
lemma SeqnoRange.largestAfter_lt {vs : List ℤ} (hvs : SeqnoRange vs) :
    largestAfter (-1) vs < 2 ^ 63 :=
  Int.lt_of_le_sub_one ((largestAfter_le_iff _ _ _).mpr
    ⟨by decide, fun v hv => Int.le_sub_one_of_lt (hvs v hv).2⟩)

/-- A number popped is a largest one. -/
lemma SeqnoRange.lt_largestAfter {vs : List ℤ} (hvs : SeqnoRange vs) (hne : vs ≠ []) :
    -1 < largestAfter (-1) vs := by
  obtain ⟨v, hv⟩ := List.exists_mem_of_ne_nil vs hne
  have hle := ((largestAfter_le_iff (-1) vs _).mp le_rfl).2 v hv
  exact (neg_one_lt_zero.trans_le (hvs v hv).1).trans_le hle

/-- **What a monitor writes** is what a replay of the numbers popped logs, and the largest one. -/
theorem run_writtenLines {N : ℕ} (hN : 1 ≤ N) {packets : List Packet}
    (hread : ∀ packet ∈ packets, readable packet) (hlt : ∀ x ∈ arrivals packets, x < 2 ^ 63) :
    ∃ m vs, (init true N).run packets = some (m, replay (-1) vs) ∧ SeqnoRange vs ∧
      log (replay (-1) vs) ++ m.close = writtenLines vs := by
  obtain ⟨m, hrun, hfp, hlargest⟩ := run_eq_replay hN hread hlt
  have hvs : SeqnoRange ((popped N (arrivals packets)).map fun x : ℕ => (x : ℤ)) := by
    intro v hv
    obtain ⟨x, hx, rfl⟩ := List.mem_map.mp hv
    have := hlt x (PriorityWindow.mem_of_mem_run hN hx)
    omega
  refine ⟨m, _, hrun, hvs, ?_⟩
  rw [writtenLines, close, hfp, hlargest]
  congr 1
  by_cases hnil : (popped N (arrivals packets)).map (fun x : ℕ => (x : ℤ)) = []
  · rw [if_pos hnil, hnil, if_neg (by rintro ⟨-, h⟩; exact lt_irrefl _ h)]
  · rw [if_neg hnil, if_pos ⟨rfl, hvs.lt_largestAfter hnil⟩]

/-- The last line adds nothing to the accounts of the log. -/
lemma accounts_writtenLines (vs : List ℤ) :
    lostRanges (writtenLines vs) = lostRanges (log (replay (-1) vs)) ∧
      lostCount (writtenLines vs) = lostCount (log (replay (-1) vs)) ∧
      dupCount (writtenLines vs) = dupCount (log (replay (-1) vs)) ∧
      largeReorderCount (writtenLines vs) = largeReorderCount (log (replay (-1) vs)) ∧
      processed (writtenLines vs) = if vs = [] then [] else [largestAfter (-1) vs] := by
  have hranges : lostRanges (writtenLines vs) = lostRanges (log (replay (-1) vs)) := by
    rw [writtenLines, lostRanges, List.filterMap_append]
    split <;> exact List.append_nil _
  refine ⟨hranges, by rw [lostCount, hranges, lostCount], ?_, ?_, ?_⟩
  · rw [writtenLines, dupCount, List.countP_append]
    split <;> rfl
  · rw [writtenLines, largeReorderCount, List.countP_append]
    split <;> rfl
  · rw [writtenLines, processed, List.filterMap_append, ← processed, processed_log]
    split <;> rfl

/-- The numbers that a monitor writes are 64-bit integers. -/
lemma SeqnoRange.numbers_writtenLines {vs : List ℤ} (hvs : SeqnoRange vs) :
    ∀ l ∈ writtenLines vs, ∀ x ∈ l.numbers, -2 ^ 63 ≤ x ∧ x < 2 ^ 63 := by
  intro l hl x hx
  rcases List.mem_append.mp hl with hl | hl
  · have := numbers_replay ⟨le_rfl, by decide⟩ hvs l hl x hx
    omega
  · split at hl
    · cases hl
    · rename_i hne
      rw [List.mem_singleton.mp hl, LogLine.numbers, List.mem_singleton] at hx
      rw [hx]
      have := hvs.lt_largestAfter hne
      exact ⟨by omega, hvs.largestAfter_lt⟩

/-! ### The rows of a database -/

/-- The row that sums up what a monitor wrote. -/
def plSummary (id : ℕ) (vs : List ℤ) : Option PlSummary :=
  if vs = [] then none
  else some
    { traceAppPlId := id
      lossEvCount := (lostRanges (log (replay (-1) vs))).length
      lossPktCount := lostCount (log (replay (-1) vs))
      dupCount := dupCount (log (replay (-1) vs))
      largeReorderCount := largeReorderCount (log (replay (-1) vs))
      largestSeqno := some (largestAfter (-1) vs) }

/-- The row has the id of the log. -/
lemma traceAppPlId_of_plSummary {id : ℕ} {vs : List ℤ} {row : PlSummary}
    (h : plSummary id vs = some row) : row.traceAppPlId = id := by
  unfold plSummary at h
  split at h
  · cases h
  · cases h
    rfl

/-- **Summing up the log of a monitor.** -/
lemma summaryOf_writtenLines {vs : List ℤ} (hvs : SeqnoRange vs) {samples : List PlSample}
    {log : PlLog} (hlines : log.lines = writtenLines vs)
    (hrows : samples.filter (fun r => r.traceAppPlId = log.id) = log.samples) :
    summaryOf samples log.id = some (plSummary log.id vs) := by
  obtain ⟨hranges, hlost, hdup, hreorder, hprocessed⟩ := accounts_writtenLines vs
  have hlt := hvs.largestAfter_lt
  have hrange : ∀ r ∈ lostRanges log.lines, 0 ≤ r.1 ∧ r.1 ≤ r.2 ∧ r.2 < 2 ^ 63 := by
    intro r hr
    rw [hlines, hranges] at hr
    have := (lostRanges_replay (-1) vs).2 r hr
    omega
  have hcount : lostCount log.lines < 2 ^ 63 := by
    rw [hlines, hlost]
    by_cases hne : vs = []
    · subst hne
      decide
    · have := lostCount_lt (hvs.lt_largestAfter hne)
      omega
  rw [summaryOf_sample hrows hrange hcount, hlines, hranges, hlost, hdup, hreorder, hprocessed,
    plSummary]
  by_cases hne : vs = []
  · rw [if_pos hne, if_pos hne]
  · rw [if_neg hne, if_neg hne]

/-- A log of a monitor: comment lines, and what a monitor wrote. -/
structure PlLog.Written (log : PlLog) : Prop where
  /-- The comment lines are comments, each on a line of its own. -/
  header_comment : ∀ l ∈ log.header, OneLine l ∧ l.head? = some '#'
  /-- The lines are those of a monitor, from its construction to its destruction. -/
  monitor : ∃ (N : ℕ) (packets : List Packet) (m : AppRxCb) (pops : List Pop), 1 ≤ N ∧
    (∀ packet ∈ packets, readable packet) ∧ (∀ x ∈ arrivals packets, x < 2 ^ 63) ∧
    (init true N).run packets = some (m, pops) ∧ log.lines = AppRxCb.log pops ++ m.close

/-- The lines of a monitor are those of some numbers popped. -/
lemma PlLog.Written.exists_writtenLines {log : PlLog} (hlog : log.Written) :
    ∃ vs, SeqnoRange vs ∧ log.lines = writtenLines vs := by
  obtain ⟨N, packets, m, pops, hN, hread, hlt, hrun, hlines⟩ := hlog.monitor
  obtain ⟨m', vs, hrun', hvs, hwritten⟩ := run_writtenLines hN hread hlt
  obtain ⟨rfl, rfl⟩ := Prod.mk.inj (Option.some.inj (hrun.symm.trans hrun'))
  exact ⟨vs, hvs, hlines.trans hwritten⟩

/-- **The database of several monitors.** Both tables can be created, and the summaries hold the row
of each log. -/
theorem exists_tables {logs : List PlLog} (hlogs : ∀ log ∈ logs, log.Written)
    (hids : (logs.map PlLog.id).Nodup) :
    ∃ samples summaries,
      createTraceAppPlSamplesTable (logs.map fun log => (log.id, log.text)) = some samples ∧
      createTraceAppPlSummariesTable samples (logs.map PlLog.id) = some summaries ∧
      ∀ log ∈ logs, ∀ vs, SeqnoRange vs → log.lines = writtenLines vs →
        ∀ row, (row ∈ summaries ∧ row.traceAppPlId = log.id) ↔ plSummary log.id vs = some row := by
  have hwf : ∀ log ∈ logs, log.WellFormed := by
    intro log hlog
    obtain ⟨vs, hvs, hlines⟩ := (hlogs log hlog).exists_writtenLines
    exact ⟨(hlogs log hlog).header_comment, by rw [hlines]; exact hvs.numbers_writtenLines⟩
  have hsummary : ∀ log ∈ logs, ∀ vs, SeqnoRange vs → log.lines = writtenLines vs →
      summaryOf (logs.flatMap PlLog.samples) log.id = some (plSummary log.id vs) :=
    fun log hlog vs hvs hlines => summaryOf_writtenLines hvs hlines (filter_samples hids hlog)
  refine ⟨_, _, createTraceAppPlSamplesTable_text hwf, createTraceAppPlSummariesTable_eq ?_, ?_⟩
  · intro j hj
    obtain ⟨log, hlog, rfl⟩ := List.mem_map.mp hj
    obtain ⟨vs, hvs, hlines⟩ := (hlogs log hlog).exists_writtenLines
    exact ⟨_, hsummary log hlog vs hvs hlines⟩
  · intro log hlog vs hvs hlines row
    rw [List.mem_filterMap]
    constructor
    · rintro ⟨⟨j, hj, hrow⟩, hid⟩
      obtain ⟨log', hlog', rfl⟩ := List.mem_map.mp hj
      obtain ⟨vs', hvs', hlines'⟩ := (hlogs log' hlog').exists_writtenLines
      rw [hsummary log' hlog' vs' hvs' hlines', Option.join_some] at hrow
      have hid' : log'.id = log.id := (traceAppPlId_of_plSummary hrow).symm.trans hid
      have hsame := hsummary log' hlog' vs' hvs' hlines'
      rw [hid', hsummary log hlog vs hvs hlines] at hsame
      rw [hid'] at hrow
      exact (Option.some.inj hsame).trans hrow
    · intro hrow
      refine ⟨⟨log.id, List.mem_map_of_mem hlog, ?_⟩, traceAppPlId_of_plSummary hrow⟩
      rw [hsummary log hlog vs hvs hlines, Option.join_some, hrow]

/-- **Loss accounting is a partition.** When a monitor has popped a number, the ranges that it logs
as lost are not empty and increasing, and every number up to `largest_seqno_processed` either is in
exactly one of them or was popped exactly once as a new maximum.  In every database built from its
log and those of other monitors its row balances. -/
theorem loss_accounting {N : ℕ} (hN : 1 ≤ N) {packets : List Packet}
    (hread : ∀ packet ∈ packets, readable packet) (hlt : ∀ x ∈ arrivals packets, x < 2 ^ 63) :
    ∃ m pops, (init true N).run packets = some (m, pops) ∧ (pops ≠ [] →
      ∃ largest, m.close = [.largestSeqnoProcessed largest] ∧
        (∀ r ∈ lostRanges (log pops), r.1 ≤ r.2) ∧
        (lostRanges (log pops)).Pairwise (fun r r' => r.2 < r'.1) ∧
        (∀ k, 0 ≤ k → k ≤ largest →
          ((lostRanges (log pops)).countP (fun r => r.1 ≤ k ∧ k ≤ r.2) = 1 ∧
              (newMaxima pops).count k = 0) ∨
            ((lostRanges (log pops)).countP (fun r => r.1 ≤ k ∧ k ≤ r.2) = 0 ∧
              (newMaxima pops).count k = 1)) ∧
        ∀ logs : List PlLog, (∀ log ∈ logs, log.Written) → (logs.map PlLog.id).Nodup →
          ∀ plLog ∈ logs, plLog.lines = log pops ++ m.close →
            ∃ samples summaries row,
              createTraceAppPlSamplesTable (logs.map fun log => (log.id, log.text)) =
                some samples ∧
              createTraceAppPlSummariesTable samples (logs.map PlLog.id) = some summaries ∧
              (∀ row', (row' ∈ summaries ∧ row'.traceAppPlId = plLog.id) ↔ row' = row) ∧
              row.largestSeqno = some largest ∧
              largest + 1 = row.lossPktCount +
                (pops.length - row.dupCount - row.largeReorderCount)) := by
  obtain ⟨m, vs, hrun, hvs, hwritten⟩ := run_writtenLines hN hread hlt
  refine ⟨m, replay (-1) vs, hrun, fun hpops => ?_⟩
  have hne : vs ≠ [] := by
    rintro rfl
    exact hpops rfl
  refine ⟨largestAfter (-1) vs, ?_, ?_, ?_, ?_, ?_⟩
  · rw [writtenLines, if_neg hne] at hwritten
    exact List.append_cancel_left hwritten
  · exact fun r hr => ((lostRanges_replay (-1) vs).2 r hr).2.1
  · exact (lostRanges_replay (-1) vs).1
  · intro k hk hle
    have hpart := partition_replay (-1) k vs
    rw [if_pos ⟨by omega, hle⟩] at hpart
    omega
  · intro logs hlogs hids plLog hlog hlines
    obtain ⟨samples, summaries, hsamples, hsummaries, hrows⟩ := exists_tables hlogs hids
    have hrow := hrows plLog hlog vs hvs (hlines.trans hwritten)
    rw [plSummary, if_neg hne] at hrow
    have hpops := length_pops (replay (-1) vs)
    have hbalance := account_replay (-1) vs
    refine ⟨samples, summaries, _, hsamples, hsummaries,
      fun row' => (hrow row').trans (Option.some_inj.trans eq_comm), rfl, ?_⟩
    dsimp only
    omega

/-- Seven packets behind a window of two, logged and summed up. -/
theorem loss_accounting_seven :
    let packets := [5, 1, 7, 8, 7, 2, 9].map fun x => (RqHeader.ofStream x 0 []).serialize
    ∃ m pops, (init true 2).run packets = some (m, pops) ∧ pops.length = 5 ∧
      ∃ largest, m.close = [.largestSeqnoProcessed largest] ∧
        ∃ samples summaries row,
          createTraceAppPlSamplesTable
            [(0, PlLog.text { id := 0, header := [], lines := log pops ++ m.close })] =
              some samples ∧
          createTraceAppPlSummariesTable samples [0] = some summaries ∧
          (∀ row', (row' ∈ summaries ∧ row'.traceAppPlId = 0) ↔ row' = row) ∧
          largest + 1 = row.lossPktCount +
            (pops.length - row.dupCount - row.largeReorderCount) := by
  intro packets
  have hread : ∀ packet ∈ packets, readable packet := by decide +kernel
  have hlt : ∀ x ∈ arrivals packets, x < 2 ^ 63 := by decide +kernel
  obtain ⟨m, pops, hrun, hpops⟩ := loss_accounting (N := 2) (by decide) hread hlt
  have hlength : pops.length = 5 := by
    have h : ((init true 2).run packets).map (fun r => r.2.length) = some 5 := by decide +kernel
    rw [hrun] at h
    exact Option.some.inj h
  have hne : pops ≠ [] := by
    rintro rfl
    cases hlength
  obtain ⟨largest, hclose, -, -, -, hdb⟩ := hpops hne
  refine ⟨m, pops, hrun, hlength, largest, hclose, ?_⟩
  have hwritten : PlLog.Written { id := 0, header := [], lines := log pops ++ m.close } :=
    ⟨by simp, 2, packets, m, pops, by decide, hread, hlt, hrun, rfl⟩
  obtain ⟨samples, summaries, row, hsamples, hsummaries, hrow, -, hbalance⟩ :=
    hdb [{ id := 0, header := [], lines := log pops ++ m.close }]
      (fun l hl => List.mem_singleton.mp hl ▸ hwritten) (List.nodup_singleton _) _
      (List.mem_singleton_self _) rfl
  exact ⟨samples, summaries, row, hsamples, hsummaries, hrow, hbalance⟩

end MeshSim
