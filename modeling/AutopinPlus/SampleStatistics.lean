import AutopinPlus.SampleProcessing
import Mathlib.Data.List.Dedup

/-!
# The statistics of the samples

`print_statistics` breaks the samples of an interval down by core, by cost, by level, and for the pages by the number of
accesses and of changes between cores. The last two are counted only when they are printed. All numbers are `int`s.
-/
namespace AutopinPlus

/-- `mem_lvl` -/
def memLvlNames : List String :=
  ["N/A", "HIT", "MISS", "L1", "LFB", "L2", "L3", "Local RAM", "Remote RAM (1 hop)", "Remote RAM (2 hops)",
    "Remote Cache (1 hop)", "Remote Cache (2 hops)", "I/O", "Uncached"]

/-- `print_access_type`. The names of all bits together fit into its buffer. -/
def printAccessType (entry : Int) : String :=
  let m := (entry % 2 ^ 32).toNat
  let names := (memLvlNames.zipIdx.filter fun name => name.2 ≠ 1 ∧ name.2 ≠ 2 ∧ m.testBit name.2).map Prod.fst
  let out := String.intercalate " or " names
  (if out = "" then "N/A" else out) ++ (if m.testBit 1 then " hit" else "") ++ if m.testBit 2 then " miss" else ""

example : printAccessType 0x44 = "L3 miss" := by decide +kernel

/-- What is printed, without the label. -/
structure StatisticsReport where
  metricsSamples : Nat
  /-- The remote samples and all samples of each core. -/
  cores : List (Nat × Nat)
  totalSamples : Nat
  samplingSamples : Nat
  pidUo : Int
  /-- The bounds of each interval of costs, and its samples. -/
  weights : List (Nat × Nat × Nat)
  levels : List (Nat × String)
  /-- Each number of accesses, with the number of pages that have it. -/
  frequencies : List (Nat × Nat)
  flips : List Nat

/-- `WEIGHT_BUCKET_INTERVAL` -/
def weightBucketInterval : Nat := 50

/-- `freq` -/
def accessFrequency (cfg : SamplingConfig) (p : PageStats) : Nat :=
  ((List.range cfg.nCpus).map fun i => p.procAccesses.getD i 0).sum

def flipBucket (p : PageStats) : Int := if p.homeFlips.toNat < 20 then p.homeFlips.toNat else 20

/-- One page of the loop; the second line is `add_freq_access`. -/
def countPage (cfg : SamplingConfig) (counted : List Nat × AList (fun _ : Nat => Nat)) (p : PageStats) :
    Option (List Nat × AList (fun _ : Nat => Nat)) := do
  let flips ← Histogram.bump counted.1 (flipBucket p)
  some (flips, Tally.bump counted.2 (accessFrequency cfg p))

/-- What is printed of the settings and of the two tables that are filled only now. The levels come in the order in
which they were first counted. -/
def statisticsReport (cfg : SamplingConfig) (s : SampleStats) (flips : List Nat)
    (freqAccesses : AList (fun _ : Nat => Nat)) : StatisticsReport where
  metricsSamples := s.metrics.totalSamples
  cores := (List.range cfg.nCores).map fun i => (s.metrics.remoteSamples.getD i 0, s.metrics.processSamples.getD i 0)
  totalSamples := s.totalSamples
  samplingSamples := s.samplingSamples
  pidUo := cfg.pidUo
  weights := (List.range weightBucketsNr).map fun i =>
    (i * weightBucketInterval, (i + 1) * weightBucketInterval, s.metrics.accessByWeight.getD i 0)
  levels := (s.metrics.lvlAccesses.entries.map fun e => (e.2, printAccessType e.1)).reverse
  frequencies := (freqAccesses.entries.map fun e => (e.1, e.2)).mergeSort fun f g => f.1 ≤ g.1
  flips := flips

/-- `print_statistics`, with the table `freq_accesses` before and after. The order of the pages, which are sorted
first, does not show. -/
def printStatistics (cfg : SamplingConfig) (s : SampleStats) (freqAccesses : AList (fun _ : Nat => Nat)) :
    Option (StatisticsReport × AList (fun _ : Nat => Nat)) :=
  ((s.metrics.pageAccesses.entries.map Sigma.snd).foldlM (countPage cfg) (List.replicate 21 0, freqAccesses)).map
    fun counted => (statisticsReport cfg s counted.1 counted.2, counted.2)

/-- Everything that is counted. -/
def StatisticsReport.numbers (report : StatisticsReport) : List Nat :=
  [report.metricsSamples, report.totalSamples, report.samplingSamples] ++ report.cores.map Prod.fst ++
    report.cores.map Prod.snd ++ report.weights.map (fun w => w.2.2) ++ report.levels.map Prod.fst ++
    report.frequencies.map Prod.fst ++ report.frequencies.map Prod.snd ++ report.flips

/-- All breakdowns are of the same samples: those of the watched process, and the pages they reached. -/
structure StatisticsReport.Totals (report : StatisticsReport) (counted : Nat) (watched : List LlRec) : Prop where
  metricsSamples : report.metricsSamples = counted
  cores : (report.cores.map Prod.snd).sum = watched.length
  remote : (report.cores.map Prod.fst).sum = (watched.filter LlRec.remote).length
  weights : (report.weights.map fun w => w.2.2).sum = watched.length
  levels : (report.levels.map Prod.fst).sum = watched.length
  accesses : (report.frequencies.map fun f => f.1 * f.2).sum = watched.length
  frequencies : (report.frequencies.map Prod.snd).sum = (watched.map LlRec.page).dedup.length
  pages : ∀ f ∈ report.frequencies, f.2 =
    (watched.map LlRec.page).dedup.countP fun page => watched.countP (fun r => r.page = page) = f.1
  ascending : report.frequencies.Pairwise fun f g => f.1 < g.1
  flips : report.flips.sum = (watched.map LlRec.page).dedup.length

/-! ## The totals -/

/-- A loop over the indices of a list reads the list. -/
theorem map_getD_range {v : List Nat} {n : Nat} (h : v.length = n) : ((List.range n).map fun i => v.getD i 0) = v := by
  subst h
  apply List.ext_getElem
  · rw [List.length_map, List.length_range]
  · intro i hi hi'
    simp [List.getD_eq_getElem?_getD, hi']

theorem flipBucket_bounds (p : PageStats) : 0 ≤ flipBucket p ∧ flipBucket p < 21 := by
  unfold flipBucket
  split_ifs <;> omega

/-- The loop over the pages counts each of them in both tables. -/
theorem foldlM_countPage (cfg : SamplingConfig) (pages : List PageStats) {flips : List Nat} {keys : List Int}
    (h : Histogram.Counts 21 flips keys) (freqAccesses : AList (fun _ : Nat => Nat)) :
    ∃ flips', pages.foldlM (countPage cfg) (flips, freqAccesses) =
        some (flips', (pages.map (accessFrequency cfg)).foldl Tally.bump freqAccesses) ∧
      Histogram.Counts 21 flips' ((pages.map flipBucket).reverse ++ keys) := by
  induction pages generalizing flips keys freqAccesses with
  | nil => exact ⟨flips, rfl, h⟩
  | cons p pages ih =>
    obtain ⟨flips₁, hbump⟩ := Option.isSome_iff_exists.mp ((h.bump_isSome_iff _).mpr (flipBucket_bounds p))
    obtain ⟨flips', hrun, hcounts⟩ := ih (h.bump hbump) (Tally.bump freqAccesses (accessFrequency cfg p))
    have hpage : countPage cfg (flips, freqAccesses) p =
        some (flips₁, Tally.bump freqAccesses (accessFrequency cfg p)) := by
      simp only [countPage, hbump, Option.bind_eq_bind, Option.bind_some]
    refine ⟨flips', ?_, ?_⟩
    · rw [List.foldlM_cons, hpage]
      exact hrun
    · rw [List.map_cons, List.reverse_cons, List.append_assoc]
      exact hcounts

section Totals

variable {cfg : SamplingConfig} {m : SamplingMetrics} {watched : List LlRec}

/-- The pages in the table are those of the samples. -/
theorem MetricsCount.keys_perm (h : MetricsCount cfg m watched) :
    m.pageAccesses.keys.Perm (watched.map LlRec.page).dedup := by
  rw [List.perm_ext_iff_of_nodup m.pageAccesses.keys_nodup (List.nodup_dedup _)]
  intro page
  rw [List.mem_dedup, List.mem_map, ← AList.mem_keys]
  constructor
  · intro hpage
    obtain ⟨p, hp⟩ := Option.isSome_iff_exists.mp (AList.lookup_isSome.mpr hpage)
    obtain ⟨r, rest, haccesses⟩ := List.exists_cons_of_ne_nil (h.pageAccesses.known page p hp).reached
    have hr : r ∈ accessesTo page watched := by rw [haccesses]; exact List.mem_cons_self
    exact ⟨r, List.mem_of_mem_filter hr, of_decide_eq_true (List.mem_filter.mp hr).2⟩
  · rintro ⟨r, hr, rfl⟩
    by_contra hnone
    have hempty := h.pageAccesses.unknown r.page (AList.lookup_eq_none.mpr hnone)
    have hmem : r ∈ accessesTo r.page watched := List.mem_filter.mpr ⟨hr, decide_eq_true rfl⟩
    rw [hempty] at hmem
    cases hmem

/-- The sum over the nodes is the number of samples of the page. -/
theorem MetricsCount.frequencies (h : MetricsCount cfg m watched) :
    (m.pageAccesses.entries.map Sigma.snd).map (accessFrequency cfg) =
      m.pageAccesses.keys.map fun page => watched.countP fun r => r.page = page := by
  unfold AList.keys List.keys
  rw [List.map_map, List.map_map]
  apply List.map_congr_left
  intro e he
  have hentry := h.pageAccesses.known e.1 e.2 (AList.mem_lookup_iff.mpr he)
  show accessFrequency cfg e.2 = watched.countP fun r => r.page = e.1
  rw [accessFrequency, map_getD_range hentry.procAccesses.length, hentry.procAccesses.sum, List.length_map, accessesTo,
    List.countP_eq_length_filter]

/-- No page is accessed more often than there are samples. -/
theorem MetricsCount.frequency_le (h : MetricsCount cfg m watched) {freq : Nat}
    (hfreq : freq ∈ ((m.pageAccesses.entries.map Sigma.snd).map (accessFrequency cfg)).foldl Tally.bump ∅) :
    freq ≤ watched.length := by
  rcases Tally.mem_foldl_bump hfreq with hpage | hnone
  · rw [h.frequencies] at hpage
    obtain ⟨page, -, rfl⟩ := List.mem_map.mp hpage
    exact List.countP_le_length
  · exact absurd hnone (AList.notMem_empty freq)

theorem MetricsCount.frequencies_counted (h : MetricsCount cfg m watched) :
    Tally.Counts (((m.pageAccesses.entries.map Sigma.snd).map (accessFrequency cfg)).foldl Tally.bump ∅)
      ((watched.map LlRec.page).dedup.map fun page => watched.countP fun r => r.page = page) := by
  have hcounts := Tally.Counts.empty.foldl_bump ((m.pageAccesses.entries.map Sigma.snd).map (accessFrequency cfg))
  rw [List.append_nil] at hcounts
  intro k
  rw [hcounts k, List.count_reverse, h.frequencies]
  exact (h.keys_perm.map _).count_eq k

end Totals

theorem sum_levels {cfg : SamplingConfig} {m : SamplingMetrics} {watched : List LlRec}
    (h : MetricsCount cfg m watched) : (m.lvlAccesses.entries.map Sigma.snd).sum = watched.length := by
  have hcounts : Tally.Counts m.lvlAccesses (watched.map fun r => (r.memLvl : Int)) := by
    intro level
    rw [Histogram.count_map]
    exact h.lvlAccesses level
  rw [hcounts.sum, List.length_map]

/-- The lines of a tally are sorted by their keys, each of which has one. -/
theorem sorted_lines (t : AList (fun _ : Nat => Nat)) :
    ((t.entries.map fun e => (e.1, e.2)).mergeSort fun f g => f.1 ≤ g.1).Pairwise fun f g => f.1 < g.1 := by
  have hsorted : ((t.entries.map fun e => (e.1, e.2)).mergeSort fun f g => f.1 ≤ g.1).Pairwise
      fun f g => decide (f.1 ≤ g.1) = true := by
    apply List.pairwise_mergeSort
    · intro a b c hab hbc
      exact decide_eq_true (Nat.le_trans (of_decide_eq_true hab) (of_decide_eq_true hbc))
    · intro a b
      simp [Nat.le_total a.1 b.1]
  have hperm := List.mergeSort_perm (t.entries.map fun e => (e.1, e.2)) fun f g : Nat × Nat => decide (f.1 ≤ g.1)
  have hdistinct : (((t.entries.map fun e => (e.1, e.2)).mergeSort fun f g => f.1 ≤ g.1).map Prod.fst).Nodup := by
    have hkeys := t.keys_nodup
    rw [(hperm.map Prod.fst).nodup_iff, List.map_map]
    exact hkeys
  have hne := List.pairwise_map.mp hdistinct
  exact (hsorted.and hne).imp fun ⟨hle, hne⟩ => Nat.lt_of_le_of_ne (of_decide_eq_true hle) hne

/-- What is printed of tables that count these samples, with a frequency for each page. -/
theorem statisticsReport_totals {cfg : SamplingConfig} {s : SampleStats} {samples : List LlRec}
    (h : StatsCount cfg s samples) {flips : List Nat} {freqAccesses : AList (fun _ : Nat => Nat)}
    (hflips : flips.sum = ((samples.filter cfg.watches).map LlRec.page).dedup.length)
    (hfrequencies : Tally.Counts freqAccesses (((samples.filter cfg.watches).map LlRec.page).dedup.map fun page =>
      (samples.filter cfg.watches).countP fun r => r.page = page)) :
    (statisticsReport cfg s flips freqAccesses).Totals (samples.countP cfg.counts) (samples.filter cfg.watches) := by
  have hmetrics := h.metrics
  have hperm := List.mergeSort_perm (freqAccesses.entries.map fun e => (e.1, e.2))
    fun f g : Nat × Nat => decide (f.1 ≤ g.1)
  refine ⟨h.metricsSamples, ?_, ?_, ?_, ?_, ?_, ?_, ?_, sorted_lines freqAccesses, hflips⟩
  · have hread := map_getD_range hmetrics.processSamples.length
    rw [statisticsReport, List.map_map]
    exact (congrArg List.sum hread).trans (hmetrics.processSamples.sum.trans (List.length_map _))
  · have hread := map_getD_range hmetrics.remoteSamples.length
    rw [statisticsReport, List.map_map]
    exact (congrArg List.sum hread).trans (hmetrics.remoteSamples.sum.trans (List.length_map _))
  · have hread := map_getD_range hmetrics.accessByWeight.length
    rw [statisticsReport, List.map_map]
    exact (congrArg List.sum hread).trans (hmetrics.accessByWeight.sum.trans (List.length_map _))
  · rw [statisticsReport, List.map_reverse, List.sum_reverse, List.map_map]
    exact sum_levels hmetrics
  · rw [statisticsReport, (hperm.map _).sum_eq, List.map_map]
    refine (hfrequencies.sum_mul id).trans ?_
    rw [List.map_id]
    exact Tally.sum_countP_groups LlRec.page (List.nodup_dedup _)
      fun r hr => List.mem_dedup.mpr (List.mem_map_of_mem hr)
  · rw [statisticsReport, (hperm.map _).sum_eq, List.map_map]
    exact hfrequencies.sum.trans (List.length_map _)
  · intro f hf
    obtain ⟨e, he, rfl⟩ := List.mem_map.mp (hperm.mem_iff.mp hf)
    have hget : Tally.get freqAccesses e.1 = e.2 := by
      rw [Tally.get, AList.mem_lookup_iff.mpr he, Option.getD_some]
    show e.2 = _
    rw [← hget, hfrequencies e.1, List.count, List.countP_map]
    rfl

/-- A part of a total is not above it, so all numbers are below a bound of the samples. -/
theorem StatisticsReport.Totals.numbers_lt {report : StatisticsReport} {counted bound : Nat} {watched : List LlRec}
    (h : report.Totals counted watched) (hwatched : watched.length < bound) (hcounted : counted < bound)
    (htotal : report.totalSamples < bound) (hsampling : report.samplingSamples < bound)
    (hfrequency : ∀ f ∈ report.frequencies, f.1 < bound) : ∀ n ∈ report.numbers, n < bound := by
  have hpart (counts : List Nat) (hsum : counts.sum < bound) : ∀ n ∈ counts, n < bound :=
    fun n hn => (List.le_sum_of_mem hn).trans_lt hsum
  have hremote : (watched.filter LlRec.remote).length ≤ watched.length := List.length_filter_le _ _
  have hpages : (watched.map LlRec.page).dedup.length ≤ watched.length := by
    have hle := (List.dedup_sublist (watched.map LlRec.page)).length_le
    rwa [List.length_map] at hle
  have hmetrics := h.metricsSamples
  simp only [numbers, List.forall_mem_append]
  refine ⟨⟨⟨⟨⟨⟨⟨?_, ?_⟩, ?_⟩, ?_⟩, ?_⟩, ?_⟩, ?_⟩, ?_⟩
  · simp only [List.forall_mem_cons, List.not_mem_nil, false_implies, implies_true, and_true]
    exact ⟨by omega, htotal, hsampling⟩
  · exact hpart _ (by rw [h.remote]; omega)
  · exact hpart _ (by rw [h.cores]; omega)
  · exact hpart _ (by rw [h.weights]; omega)
  · exact hpart _ (by rw [h.levels]; omega)
  · exact List.forall_mem_map.mpr hfrequency
  · exact hpart _ (by rw [h.frequencies]; omega)
  · exact hpart _ (by rw [h.flips]; omega)

/-- After fewer than 2^31 samples the breakdowns all add up to the samples of the watched process or to the pages
they reached, and no number that is printed has run over. -/
theorem report_totals {cfg : SamplingConfig} {samples : List LlRec} {s : SampleStats} (hfew : samples.length < 2 ^ 31)
    (hsamples : samples.foldlM (consumeSample cfg) (SampleStats.fresh cfg) = some s) :
    ∃ report freqAccesses, printStatistics cfg s ∅ = some (report, freqAccesses) ∧
      report.Totals (samples.countP cfg.counts) (samples.reverse.filter cfg.watches) ∧
      ∀ n ∈ report.numbers, n < 2 ^ 31 := by
  have hcounts := StatsCount.of_fresh hsamples
  have hrange := hcounts.inRange (by rwa [List.length_reverse])
  obtain ⟨flips, hloop, hflips⟩ := foldlM_countPage cfg (s.metrics.pageAccesses.entries.map Sigma.snd)
    (Histogram.Counts.replicate 21) ∅
  have hpages : flips.sum = ((samples.reverse.filter cfg.watches).map LlRec.page).dedup.length := by
    rw [hflips.sum, List.append_nil, List.length_reverse, List.length_map, List.length_map,
      ← hcounts.metrics.keys_perm.length_eq]
    exact (List.length_map _).symm
  have htotals := statisticsReport_totals hcounts hpages hcounts.metrics.frequencies_counted
  rw [List.countP_reverse] at htotals
  have hwatched : (samples.reverse.filter cfg.watches).length ≤ samples.length := by
    rw [← @List.length_reverse _ samples]
    exact List.length_filter_le _ _
  refine ⟨_, _, by rw [printStatistics, hloop, Option.map_some], htotals, ?_⟩
  refine htotals.numbers_lt (by omega) (List.countP_le_length.trans_lt hfew) hrange.totalSamples
    hrange.samplingSamples ?_
  intro f hf
  obtain ⟨e, he, rfl⟩ := List.mem_map.mp ((List.mergeSort_perm _ _).mem_iff.mp hf)
  have hle := hcounts.metrics.frequency_le (List.mem_map_of_mem he)
  show e.1 < 2 ^ 31
  omega

/-- Three samples of two pages: the breakdowns of the samples have three, and those of the pages two. -/
theorem report_totals_three :
    ∃ s report freqAccesses,
      [missedThird, missedHere, hitFirst].foldlM (consumeSample twoNodes) (SampleStats.fresh twoNodes) = some s ∧
      printStatistics twoNodes s ∅ = some (report, freqAccesses) ∧
      report.Totals 3 [hitFirst, missedHere, missedThird] ∧ (∀ n ∈ report.numbers, n < 2 ^ 31) ∧
      report.levels = [(2, "L3 miss"), (1, "L1")] ∧ (report.frequencies.map Prod.snd).sum = 2 := by
  have hrun : (([missedThird, missedHere, hitFirst].foldlM (consumeSample twoNodes) (SampleStats.fresh twoNodes)).bind
      fun s => printStatistics twoNodes s ∅).map (fun printed => printed.1.levels) =
        some [(2, "L3 miss"), (1, "L1")] := by decide +kernel
  obtain ⟨⟨printed, table⟩, hprinted, hlevels⟩ := Option.map_eq_some_iff.mp hrun
  obtain ⟨s, hs, hprinted⟩ := Option.bind_eq_some_iff.mp hprinted
  obtain ⟨report, freqAccesses, hprint, htotals, hnumbers⟩ := report_totals (by decide) hs
  have hcounted : [missedThird, missedHere, hitFirst].countP twoNodes.counts = 3 := by decide +kernel
  have hwatched : [missedThird, missedHere, hitFirst].reverse.filter twoNodes.watches =
      [hitFirst, missedHere, missedThird] := by decide +kernel
  rw [hcounted, hwatched] at htotals
  obtain ⟨hreport, -⟩ := Prod.mk.inj (Option.some.inj (hprinted.symm.trans hprint))
  have hpages : (report.frequencies.map Prod.snd).sum = 2 := by
    rw [htotals.frequencies]
    decide +kernel
  exact ⟨s, _, _, hs, hprint, htotals, hnumbers, hreport ▸ hlevels, hpages⟩

end AutopinPlus
