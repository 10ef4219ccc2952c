import AutopinPlus.Histogram
import AutopinPlus.SampleRecords
import AutopinPlus.Tally

/-!
# What becomes of a sample

`consume_sample` counts a sample of the watched process in several tables: by core, by the cost and the level of
the access, and by page. A page that was reached past the caches of its node becomes a candidate for migration.
The counters are `int`s. They are natural numbers here, and below 2^31 samples none of them runs over.
-/
namespace AutopinPlus

/-- What `consume_sample` reads of the settings. `ownPid` is what `getpid` returns, and `heap` is what `malloc`
leaves in `home_flips` of the entry of a page. -/
structure SamplingConfig where
  ownPid : Int
  pidUo : Int
  nCpus : Nat
  nCores : Nat
  coreToCpu : List Int
  heap : UInt64 → UInt16
  cores : coreToCpu.length = nCores
  nodes : ∀ node ∈ coreToCpu, -1 ≤ node ∧ node < nCpus

/-- `page_stats`, behind its key `page_addr`. -/
structure PageStats where
  procAccesses : List Nat
  homeFlips : UInt16
  lastAccess : UInt16
  deriving DecidableEq, Repr

/-- `WEIGHT_BUCKETS_NR` -/
def weightBucketsNr : Nat := 19

/-- The members of `sampling_metrics` that a load latency sample changes. -/
structure SamplingMetrics where
  totalSamples : Nat := 0
  processSamples : List Nat
  remoteSamples : List Nat
  pageAccesses : AList (fun _ : UInt64 => PageStats) := ∅
  lvlAccesses : AList (fun _ : Int => Nat) := ∅
  accessByWeight : List Nat := List.replicate weightBucketsNr 0

/-- The members of `sampling_settings` that a sample or a migration changes, and `disable_ll`. The numbers are what
the `int`s of the source hold while these are in their range. -/
structure SampleStats where
  disableLl : Bool := false
  samplingSamples : Nat := 0
  totalSamples : Nat := 0
  pages2move : List UInt64 := []
  numberPages2move : Int := 0
  movedPages : Nat := 0
  metrics : SamplingMetrics

/-! ## The sample -/

namespace LlRec

/-- `(int)record[current].cpu` -/
def core (r : LlRec) : Int := narrow r.cpu

/-- `(int)record[current].pid` -/
def process (r : LlRec) : Int := (r.pid.toNat : Int).bmod (2 ^ 32)

/-- `record[current].addr & ~mask` -/
def page (r : LlRec) : UInt64 := r.addr &&& ~~~0xFFF

/-- The bits `mem_lvl` of the data source. -/
def memLvl (r : LlRec) : Nat := (r.dataSource >>> 5 &&& 0x3FFF).toNat

/-- `weight_bucket` -/
def weightBucket (r : LlRec) : Int :=
  let bucket := (narrow r.latency).tdiv 50
  if bucket > weightBucketsNr - 1 then weightBucketsNr - 1 else bucket

/-- `filter_local_accesses`: 0 is an access to be examined, 1 one that can be ignored. -/
def filterLocalAccesses (r : LlRec) : Nat :=
  let m := if r.dataSource ≠ 0 then r.memLvl else 0x01
  let hit := m &&& 0x02
  let miss := m &&& 0x04
  let level (i : Nat) : Bool := m &&& (1 <<< i) ≠ 0
  if level 3 || level 5 || level 4 then 1
  else if level 6 ∧ hit ≠ 0 then 1
  else if level 6 ∧ miss ≠ 0 then 0
  else if level 8 || level 9 || level 10 || level 11 then 0
  else 2

def remote (r : LlRec) : Bool := r.filterLocalAccesses = 0

end LlRec

/-! ## The tables -/

/-- The entry `current` of `add_mem_access`, before the access is counted. The comparison is one of `int`s, and
`last_access` an `unsigned short`. -/
def pageEntry (cfg : SamplingConfig) (pages : AList (fun _ : UInt64 => PageStats)) (page : UInt64) (core : Int) :
    PageStats :=
  let last := UInt16.ofNat (core % 2 ^ 16).toNat
  match pages.lookup page with
  | none => ⟨List.replicate cfg.nCpus 0, cfg.heap page, last⟩
  | some current =>
    if core ≠ current.lastAccess.toNat then
      { current with homeFlips := current.homeFlips + 1, lastAccess := last }
    else current

def addMemAccess (cfg : SamplingConfig) (pages : AList (fun _ : UInt64 => PageStats)) (page : UInt64) (core : Int) :
    Option (AList (fun _ : UInt64 => PageStats)) := do
  let proc ← PartialStep.subscript cfg.coreToCpu core
  let current := pageEntry cfg pages page core
  let procAccesses ← Histogram.bump current.procAccesses proc
  some (pages.insert page { current with procAccesses := procAccesses })

/-- `add_lvl_access` -/
def addLvlAccess (m : SamplingMetrics) (r : LlRec) : Option SamplingMetrics := do
  let accessByWeight ← Histogram.bump m.accessByWeight r.weightBucket
  let key : Int := r.memLvl
  some { m with
    accessByWeight := accessByWeight
    lvlAccesses := Tally.bump m.lvlAccesses key }

/-- `add_page_2move` -/
def addPage2move (s : SampleStats) (page : UInt64) : SampleStats :=
  { s with numberPages2move := s.numberPages2move + 1, pages2move := page :: s.pages2move }

/-- The counters of the samples of all processes. -/
def SampleStats.tick (cfg : SamplingConfig) (s : SampleStats) (r : LlRec) : SampleStats :=
  { s with
    samplingSamples := s.samplingSamples + if cfg.ownPid = r.process then 1 else 0
    totalSamples := s.totalSamples + 1
    metrics := { s.metrics with totalSamples := s.metrics.totalSamples + 1 } }

/-- What `consume_sample` does with a sample of the watched process. -/
def countSample (cfg : SamplingConfig) (s : SampleStats) (r : LlRec) : Option SampleStats := do
  let processSamples ← Histogram.bump s.metrics.processSamples r.core
  let pageAccesses ← addMemAccess cfg s.metrics.pageAccesses r.page r.core
  let metrics ← addLvlAccess { s.metrics with processSamples := processSamples, pageAccesses := pageAccesses } r
  if r.remote then
    let remoteSamples ← Histogram.bump metrics.remoteSamples r.core
    some (addPage2move { s with metrics := { metrics with remoteSamples := remoteSamples } } r.page)
  else some { s with metrics := metrics }

def consumeSample (cfg : SamplingConfig) (s : SampleStats) (r : LlRec) : Option SampleStats :=
  if r.core ≥ cfg.nCores then some s
  else if s.disableLl then some s
  else
    let s := s.tick cfg r
    if r.process ≠ cfg.pidUo then some s else countSample cfg s r

/-! ## What the tables say

The samples are listed with the latest first. -/

namespace SamplingConfig

/-- A sample that is counted at all. -/
def counts (cfg : SamplingConfig) (r : LlRec) : Bool := ¬ r.core ≥ cfg.nCores

/-- A sample of the watched process. -/
def watches (cfg : SamplingConfig) (r : LlRec) : Bool := cfg.counts r && decide (r.process = cfg.pidUo)

/-- `core_to_cpu`, with the index that `add_mem_access` makes of a core it does not know. -/
def node (cfg : SamplingConfig) (r : LlRec) : Int := (PartialStep.subscript cfg.coreToCpu r.core).getD (-1)

end SamplingConfig

/-- The changes between an access to a page and the next, as `home_flips` sees them: against the core of the
access before in an `unsigned short`. -/
def homeChanges : List LlRec → Nat
  | [] => 0
  | [_] => 0
  | r :: before :: rest => (if r.core ≠ before.core % 2 ^ 16 then 1 else 0) + homeChanges (before :: rest)

/-- The entry of a page that was reached by these samples. -/
structure PageCounts (cfg : SamplingConfig) (p : PageStats) (page : UInt64) (accesses : List LlRec) : Prop where
  reached : accesses ≠ []
  procAccesses : Histogram.Counts cfg.nCpus p.procAccesses (accesses.map cfg.node)
  homeFlips : p.homeFlips = cfg.heap page + UInt16.ofNat (homeChanges accesses)
  lastAccess : ∀ r ∈ accesses.head?, (p.lastAccess.toNat : Int) = r.core % 2 ^ 16

/-- The accesses to a page. -/
def accessesTo (page : UInt64) (watched : List LlRec) : List LlRec := watched.filter fun r => r.page = page

structure PagesCount (cfg : SamplingConfig) (pages : AList (fun _ : UInt64 => PageStats)) (watched : List LlRec) :
    Prop where
  known : ∀ page p, pages.lookup page = some p → PageCounts cfg p page (accessesTo page watched)
  unknown : ∀ page, pages.lookup page = none → accessesTo page watched = []

theorem toNat_lastAccess (core : Int) : ((UInt16.ofNat (core % 2 ^ 16).toNat).toNat : Int) = core % 2 ^ 16 := by
  rw [UInt16.toNat_ofNat']
  omega

/-- The entry is that of the samples before, with the change that this one makes. -/
theorem PagesCount.pageEntry {cfg : SamplingConfig} {pages : AList (fun _ : UInt64 => PageStats)}
    {watched : List LlRec} (h : PagesCount cfg pages watched) (r : LlRec) :
    let p := pageEntry cfg pages r.page r.core
    let accesses := accessesTo r.page watched
    Histogram.Counts cfg.nCpus p.procAccesses (accesses.map cfg.node) ∧
      p.homeFlips = cfg.heap r.page + UInt16.ofNat (homeChanges (r :: accesses)) ∧
      (p.lastAccess.toNat : Int) = r.core % 2 ^ 16 := by
  simp only [AutopinPlus.pageEntry]
  cases hlookup : pages.lookup r.page with
  | none =>
    rw [h.unknown r.page hlookup]
    refine ⟨Histogram.Counts.replicate _, ?_, toNat_lastAccess _⟩
    simp [homeChanges]
  | some p =>
    have hcounts := h.known r.page p hlookup
    obtain ⟨before, rest, haccesses⟩ := List.exists_cons_of_ne_nil hcounts.reached
    have hlast := hcounts.lastAccess before (by rw [haccesses]; rfl)
    have hflips := hcounts.homeFlips
    rw [haccesses] at hflips
    simp only [hlast]
    rw [haccesses, homeChanges]
    by_cases hcore : r.core ≠ before.core % 2 ^ 16
    · rw [if_pos hcore, if_pos hcore]
      refine ⟨haccesses ▸ hcounts.procAccesses, ?_, toNat_lastAccess _⟩
      simp only [hflips]
      rw [Nat.add_comm 1, UInt16.ofNat_add, UInt16.add_assoc]
      rfl
    · rw [if_neg hcore, if_neg hcore, Nat.zero_add]
      refine ⟨haccesses ▸ hcounts.procAccesses, hflips, ?_⟩
      rw [hlast]
      omega

theorem addMemAccess_isSome_iff {cfg : SamplingConfig} {pages : AList (fun _ : UInt64 => PageStats)}
    {watched : List LlRec} (h : PagesCount cfg pages watched) (r : LlRec) :
    (addMemAccess cfg pages r.page r.core).isSome ↔ 0 ≤ cfg.node r := by
  obtain ⟨hcounts, -⟩ := h.pageEntry r
  unfold addMemAccess SamplingConfig.node
  cases hproc : PartialStep.subscript cfg.coreToCpu r.core with
  | none => simp
  | some proc =>
    obtain ⟨-, -, hmem⟩ := PartialStep.subscript_eq_some hproc
    obtain ⟨-, hnode⟩ := cfg.nodes proc (List.mem_of_getElem? hmem)
    have hbump := hcounts.bump_isSome_iff proc
    rw [and_iff_left hnode] at hbump
    rw [Option.getD_some, ← hbump]
    cases h : Histogram.bump (pageEntry cfg pages r.page r.core).procAccesses proc <;> simp [h]

theorem accessesTo_self (r : LlRec) (watched : List LlRec) :
    accessesTo r.page (r :: watched) = r :: accessesTo r.page watched := List.filter_cons_of_pos (by simp)

theorem accessesTo_other {r : LlRec} {page : UInt64} (h : r.page ≠ page) (watched : List LlRec) :
    accessesTo page (r :: watched) = accessesTo page watched := List.filter_cons_of_neg (by simpa using h)

/-- The page of an access gets its count, and no other entry changes. -/
theorem PagesCount.access {cfg : SamplingConfig} {pages pages' : AList (fun _ : UInt64 => PageStats)}
    {watched : List LlRec} (h : PagesCount cfg pages watched) {r : LlRec}
    (haccess : addMemAccess cfg pages r.page r.core = some pages') : PagesCount cfg pages' (r :: watched) := by
  obtain ⟨hcounts, hflips, hlast⟩ := h.pageEntry r
  simp only [addMemAccess, Option.bind_eq_bind, Option.bind_eq_some_iff, Option.some.injEq] at haccess
  obtain ⟨proc, hproc, procAccesses, hbump, rfl⟩ := haccess
  have hnode : cfg.node r = proc := by rw [SamplingConfig.node, hproc, Option.getD_some]
  constructor
  · intro page p hlookup
    by_cases hpage : r.page = page
    · subst hpage
      rw [AList.lookup_insert, Option.some.injEq] at hlookup
      subst hlookup
      rw [accessesTo_self]
      refine ⟨List.cons_ne_nil _ _, ?_, hflips, ?_⟩
      · rw [List.map_cons, hnode]
        exact hcounts.bump hbump
      · intro r' hr'
        rw [List.head?_cons, Option.mem_some_iff] at hr'
        rw [← hr']
        exact hlast
    · rw [AList.lookup_insert_ne (Ne.symm hpage)] at hlookup
      rw [accessesTo_other hpage]
      exact h.known page p hlookup
  · intro page hlookup
    by_cases hpage : r.page = page
    · subst hpage
      rw [AList.lookup_insert] at hlookup
      cases hlookup
    · rw [AList.lookup_insert_ne (Ne.symm hpage)] at hlookup
      rw [accessesTo_other hpage]
      exact h.unknown page hlookup

/-- The tables after the samples of the watched process. -/
structure MetricsCount (cfg : SamplingConfig) (m : SamplingMetrics) (watched : List LlRec) : Prop where
  processSamples : Histogram.Counts cfg.nCores m.processSamples (watched.map LlRec.core)
  remoteSamples : Histogram.Counts cfg.nCores m.remoteSamples ((watched.filter LlRec.remote).map LlRec.core)
  accessByWeight : Histogram.Counts weightBucketsNr m.accessByWeight (watched.map LlRec.weightBucket)
  lvlAccesses : ∀ level : Int, (m.lvlAccesses.lookup level).getD 0 = watched.countP (fun r => (r.memLvl : Int) = level)
  pageAccesses : PagesCount cfg m.pageAccesses watched

/-- A sample of the watched process that leaves no table: its core belongs to a node and its cost is not read as a
negative number of a bucket or more. -/
def SamplingConfig.Valid (cfg : SamplingConfig) (r : LlRec) : Prop := 0 ≤ cfg.node r ∧ 0 ≤ r.weightBucket

theorem LlRec.weightBucket_lt (r : LlRec) : r.weightBucket < weightBucketsNr := by
  unfold LlRec.weightBucket weightBucketsNr
  simp only
  split_ifs <;> omega

theorem SamplingConfig.core_of_node {cfg : SamplingConfig} {r : LlRec} (h : 0 ≤ cfg.node r) :
    0 ≤ r.core ∧ r.core < cfg.nCores := by
  rw [← cfg.cores, ← PartialStep.subscript_isSome_iff]
  unfold SamplingConfig.node at h
  cases hproc : PartialStep.subscript cfg.coreToCpu r.core with
  | none =>
    rw [hproc, Option.getD_none] at h
    omega
  | some proc => rfl

/-- What a sample of the watched process changes, if it leaves no table. -/
theorem countSample_eq_some {cfg : SamplingConfig} {s t : SampleStats} {r : LlRec} (h : countSample cfg s r = some t) :
    ∃ processSamples pageAccesses accessByWeight remoteSamples,
      Histogram.bump s.metrics.processSamples r.core = some processSamples ∧
      addMemAccess cfg s.metrics.pageAccesses r.page r.core = some pageAccesses ∧
      Histogram.bump s.metrics.accessByWeight r.weightBucket = some accessByWeight ∧
      (if r.remote then Histogram.bump s.metrics.remoteSamples r.core else some s.metrics.remoteSamples) =
        some remoteSamples ∧
      t = { s with
        pages2move := (if r.remote then [r.page] else []) ++ s.pages2move
        numberPages2move := s.numberPages2move + if r.remote then 1 else 0
        metrics := { s.metrics with
          processSamples := processSamples
          remoteSamples := remoteSamples
          pageAccesses := pageAccesses
          accessByWeight := accessByWeight
          lvlAccesses := Tally.bump s.metrics.lvlAccesses r.memLvl } } := by
  simp only [countSample, addLvlAccess, Option.bind_eq_bind, Option.bind_eq_some_iff, Option.some.injEq] at h
  obtain ⟨processSamples, hprocess, pageAccesses, hpages, metrics, ⟨accessByWeight, hweight, rfl⟩, h⟩ := h
  by_cases hremote : r.remote = true
  · rw [if_pos hremote] at h
    simp only [Option.bind_eq_some_iff, Option.some.injEq] at h
    obtain ⟨remoteSamples, hbump, rfl⟩ := h
    refine ⟨processSamples, pageAccesses, accessByWeight, remoteSamples, hprocess, hpages, hweight, ?_, ?_⟩
    · rw [if_pos hremote, hbump]
    · simp [addPage2move, hremote]
  · rw [if_neg hremote, Option.some.injEq] at h
    refine ⟨processSamples, pageAccesses, accessByWeight, _, hprocess, hpages, hweight, if_neg hremote, ?_⟩
    simp [hremote, ← h]

/-- It leaves no table exactly if it is valid. -/
theorem countSample_isSome_iff {cfg : SamplingConfig} {s : SampleStats} {watched : List LlRec}
    (h : MetricsCount cfg s.metrics watched) (r : LlRec) : (countSample cfg s r).isSome ↔ cfg.Valid r := by
  have hpages := addMemAccess_isSome_iff h.pageAccesses r
  have hweight := h.accessByWeight.bump_isSome_iff r.weightBucket
  rw [and_iff_left r.weightBucket_lt] at hweight
  constructor
  · intro hsome
    obtain ⟨t, ht⟩ := Option.isSome_iff_exists.mp hsome
    obtain ⟨_, _, _, _, -, haccess, hbump, -⟩ := countSample_eq_some ht
    exact ⟨hpages.mp (by rw [haccess]; rfl), hweight.mp (by rw [hbump]; rfl)⟩
  · rintro ⟨hnode, hbucket⟩
    obtain ⟨hcore, hlt⟩ := SamplingConfig.core_of_node hnode
    obtain ⟨processSamples, hprocess⟩ := Option.isSome_iff_exists.mp
      ((h.processSamples.bump_isSome_iff r.core).mpr ⟨hcore, hlt⟩)
    obtain ⟨remoteSamples, hremote⟩ := Option.isSome_iff_exists.mp
      ((h.remoteSamples.bump_isSome_iff r.core).mpr ⟨hcore, hlt⟩)
    obtain ⟨pageAccesses, haccess⟩ := Option.isSome_iff_exists.mp (hpages.mpr hnode)
    obtain ⟨accessByWeight, hbump⟩ := Option.isSome_iff_exists.mp (hweight.mpr hbucket)
    simp only [countSample, addLvlAccess, hprocess, haccess, hbump, hremote, Option.bind_eq_bind, Option.bind_some]
    split_ifs <;> rfl

theorem MetricsCount.sample {cfg : SamplingConfig} {s t : SampleStats} {watched : List LlRec} {r : LlRec}
    (h : MetricsCount cfg s.metrics watched) (ht : countSample cfg s r = some t) :
    MetricsCount cfg t.metrics (r :: watched) := by
  obtain ⟨processSamples, pageAccesses, accessByWeight, remoteSamples, hprocess, hpages, hweight, hremote, rfl⟩ :=
    countSample_eq_some ht
  refine ⟨h.processSamples.bump hprocess, ?_, h.accessByWeight.bump hweight, ?_, h.pageAccesses.access hpages⟩
  · by_cases hr : r.remote = true
    · rw [if_pos hr] at hremote
      rw [List.filter_cons_of_pos hr]
      exact h.remoteSamples.bump hremote
    · rw [if_neg hr, Option.some.injEq] at hremote
      rw [List.filter_cons_of_neg hr, ← hremote]
      exact h.remoteSamples
  · intro level
    refine (Tally.get_bump s.metrics.lvlAccesses level r.memLvl).trans ?_
    rw [Tally.get, h.lvlAccesses]
    by_cases hlevel : level = r.memLvl
    · rw [if_pos hlevel, List.countP_cons_of_pos (by simp [hlevel])]
    · rw [if_neg hlevel, List.countP_cons_of_neg (by simpa using Ne.symm hlevel)]

/-! ## All samples -/

/-- The statistics after these samples. -/
structure StatsCount (cfg : SamplingConfig) (s : SampleStats) (samples : List LlRec) : Prop where
  disableLl : s.disableLl = false
  samplingSamples : s.samplingSamples = samples.countP (fun r => cfg.counts r && decide (cfg.ownPid = r.process))
  totalSamples : s.totalSamples = samples.countP cfg.counts
  metricsSamples : s.metrics.totalSamples = samples.countP cfg.counts
  pages2move : s.pages2move = ((samples.filter cfg.watches).filter LlRec.remote).map LlRec.page
  numberPages2move : s.numberPages2move = s.pages2move.length
  movedPages : s.movedPages = 0
  metrics : MetricsCount cfg s.metrics (samples.filter cfg.watches)

namespace SampleStats

/-- No counter, each an `int`, has run over. -/
structure InRange (s : SampleStats) : Prop where
  samplingSamples : s.samplingSamples < 2 ^ 31
  totalSamples : s.totalSamples < 2 ^ 31
  numberPages2move : -2 ^ 31 ≤ s.numberPages2move ∧ s.numberPages2move < 2 ^ 31
  movedPages : s.movedPages < 2 ^ 31
  metricsSamples : s.metrics.totalSamples < 2 ^ 31
  processSamples : ∀ count ∈ s.metrics.processSamples, count < 2 ^ 31
  remoteSamples : ∀ count ∈ s.metrics.remoteSamples, count < 2 ^ 31
  accessByWeight : ∀ count ∈ s.metrics.accessByWeight, count < 2 ^ 31
  lvlAccesses : ∀ level count, s.metrics.lvlAccesses.lookup level = some count → count < 2 ^ 31
  procAccesses : ∀ page p, s.metrics.pageAccesses.lookup page = some p → ∀ count ∈ p.procAccesses, count < 2 ^ 31

/-- Before the first sample, as `init_spm` leaves the settings. -/
def fresh (cfg : SamplingConfig) : SampleStats where
  metrics := {
    processSamples := List.replicate cfg.nCores 0
    remoteSamples := List.replicate cfg.nCores 0 }

theorem fresh_count (cfg : SamplingConfig) : StatsCount cfg (fresh cfg) [] where
  disableLl := rfl
  samplingSamples := rfl
  totalSamples := rfl
  metricsSamples := rfl
  pages2move := rfl
  numberPages2move := rfl
  movedPages := rfl
  metrics := {
    processSamples := Histogram.Counts.replicate _
    remoteSamples := Histogram.Counts.replicate _
    accessByWeight := Histogram.Counts.replicate _
    lvlAccesses := fun _ => rfl
    pageAccesses := {
      known := fun _ _ h => nomatch h
      unknown := fun _ _ => rfl } }

end SampleStats

theorem consumeSample_eq {cfg : SamplingConfig} {s : SampleStats} (h : s.disableLl = false) (r : LlRec) :
    consumeSample cfg s r =
      if cfg.counts r then
        if cfg.watches r then countSample cfg (s.tick cfg r) r else some (s.tick cfg r)
      else some s := by
  unfold consumeSample SamplingConfig.watches SamplingConfig.counts
  by_cases hcore : r.core ≥ cfg.nCores
  · simp [hcore]
  · by_cases hpid : r.process = cfg.pidUo <;> simp [hcore, h, hpid]

theorem StatsCount.isSome_iff {cfg : SamplingConfig} {s : SampleStats} {samples : List LlRec}
    (h : StatsCount cfg s samples) (r : LlRec) :
    (consumeSample cfg s r).isSome ↔ (cfg.watches r → cfg.Valid r) := by
  have hmetrics : MetricsCount cfg (s.tick cfg r).metrics (samples.filter cfg.watches) :=
    ⟨h.metrics.processSamples, h.metrics.remoteSamples, h.metrics.accessByWeight, h.metrics.lvlAccesses,
      h.metrics.pageAccesses⟩
  have hcount := countSample_isSome_iff hmetrics r
  rw [consumeSample_eq h.disableLl]
  by_cases hcounts : cfg.counts r = true
  · by_cases hwatches : cfg.watches r = true
    · rw [if_pos hcounts, if_pos hwatches, hcount]
      simp [hwatches]
    · simp [hcounts, hwatches]
  · have hwatches : ¬ cfg.watches r = true := by simp [SamplingConfig.watches, hcounts]
    simp [hcounts, hwatches]

theorem StatsCount.sample {cfg : SamplingConfig} {s t : SampleStats} {samples : List LlRec}
    (h : StatsCount cfg s samples) {r : LlRec} (ht : consumeSample cfg s r = some t) :
    StatsCount cfg t (r :: samples) := by
  have hmetrics : MetricsCount cfg (s.tick cfg r).metrics (samples.filter cfg.watches) :=
    ⟨h.metrics.processSamples, h.metrics.remoteSamples, h.metrics.accessByWeight, h.metrics.lvlAccesses,
      h.metrics.pageAccesses⟩
  rw [consumeSample_eq h.disableLl] at ht
  by_cases hcounts : cfg.counts r = true
  · rw [if_pos hcounts] at ht
    have hsampling : s.samplingSamples + (if cfg.ownPid = r.process then 1 else 0) =
        (r :: samples).countP (fun r => cfg.counts r && decide (cfg.ownPid = r.process)) := by
      rw [List.countP_cons, h.samplingSamples]
      by_cases hown : cfg.ownPid = r.process <;> simp [hown, hcounts]
    have htotal : s.totalSamples + 1 = (r :: samples).countP cfg.counts := by
      rw [List.countP_cons_of_pos hcounts, h.totalSamples]
    have hmetricsTotal : s.metrics.totalSamples + 1 = (r :: samples).countP cfg.counts := by
      rw [List.countP_cons_of_pos hcounts, h.metricsSamples]
    by_cases hwatches : cfg.watches r = true
    · rw [if_pos hwatches] at ht
      have hcount := hmetrics.sample ht
      rw [← List.filter_cons_of_pos hwatches] at hcount
      obtain ⟨_, _, _, _, -, -, -, -, rfl⟩ := countSample_eq_some ht
      refine ⟨h.disableLl, hsampling, htotal, hmetricsTotal, ?_, ?_, h.movedPages, hcount⟩
      · rw [List.filter_cons_of_pos hwatches, List.filter_cons]
        by_cases hr : r.remote = true <;> simp [hr, SampleStats.tick, h.pages2move]
      · by_cases hr : r.remote = true <;> simp [hr, SampleStats.tick, h.numberPages2move]
    · rw [if_neg hwatches, Option.some.injEq] at ht
      subst ht
      refine ⟨h.disableLl, hsampling, htotal, hmetricsTotal, ?_, h.numberPages2move, h.movedPages, ?_⟩
      · rw [List.filter_cons_of_neg hwatches]
        exact h.pages2move
      · rw [List.filter_cons_of_neg hwatches]
        exact hmetrics
  · have hwatches : ¬ cfg.watches r = true := by simp [SamplingConfig.watches, hcounts]
    rw [if_neg hcounts, Option.some.injEq] at ht
    subst ht
    refine ⟨h.disableLl, ?_, ?_, ?_, ?_, h.numberPages2move, h.movedPages, ?_⟩
    · rw [List.countP_cons_of_neg (by simp [hcounts]), h.samplingSamples]
    · rw [List.countP_cons_of_neg hcounts, h.totalSamples]
    · rw [List.countP_cons_of_neg hcounts, h.metricsSamples]
    · rw [List.filter_cons_of_neg hwatches]
      exact h.pages2move
    · rw [List.filter_cons_of_neg hwatches]
      exact h.metrics

theorem StatsCount.samples {cfg : SamplingConfig} {s : SampleStats} {before : List LlRec}
    (h : StatsCount cfg s before) (samples : List LlRec) :
    ((samples.foldlM (consumeSample cfg) s).isSome ↔ ∀ r ∈ samples, cfg.watches r → cfg.Valid r) ∧
      ∀ t, samples.foldlM (consumeSample cfg) s = some t → StatsCount cfg t (samples.reverse ++ before) := by
  induction samples generalizing s before with
  | nil =>
    refine ⟨by simp, ?_⟩
    intro t ht
    simp only [List.foldlM_nil, Option.pure_def, Option.some.injEq] at ht
    exact ht ▸ h
  | cons r samples ih =>
    rw [List.foldlM_cons, List.forall_mem_cons, ← h.isSome_iff r]
    cases hr : consumeSample cfg s r with
    | none => simp
    | some u =>
      obtain ⟨hdef, hcounts⟩ := ih (h.sample hr)
      refine ⟨by simpa using hdef, ?_⟩
      intro t ht
      rw [List.reverse_cons, List.append_assoc, List.singleton_append]
      exact hcounts t ht

/-- The samples from the first one on. -/
theorem StatsCount.of_fresh {cfg : SamplingConfig} {samples : List LlRec} {t : SampleStats}
    (h : samples.foldlM (consumeSample cfg) (SampleStats.fresh cfg) = some t) : StatsCount cfg t samples.reverse := by
  have hcounts := ((SampleStats.fresh_count cfg).samples samples).2 t h
  rwa [List.append_nil] at hcounts

theorem StatsCount.candidates_le {cfg : SamplingConfig} {s : SampleStats} {samples : List LlRec}
    (h : StatsCount cfg s samples) : s.pages2move.length ≤ samples.length := by
  rw [h.pages2move, List.length_map]
  exact (List.length_filter_le _ _).trans (List.length_filter_le _ _)

/-- A counter is never above the number of the samples. -/
theorem StatsCount.inRange {cfg : SamplingConfig} {s : SampleStats} {samples : List LlRec}
    (h : StatsCount cfg s samples) (hfew : samples.length < 2 ^ 31) : s.InRange := by
  have hwatched : (samples.filter cfg.watches).length ≤ samples.length := List.length_filter_le _ _
  have hremote : ((samples.filter cfg.watches).filter LlRec.remote).length ≤ samples.length :=
    (List.length_filter_le _ _).trans hwatched
  have hcandidates := h.candidates_le
  constructor
  · rw [h.samplingSamples]
    exact List.countP_le_length.trans_lt hfew
  · rw [h.totalSamples]
    exact List.countP_le_length.trans_lt hfew
  · rw [h.numberPages2move]
    omega
  · rw [h.movedPages]
    decide
  · rw [h.metricsSamples]
    exact List.countP_le_length.trans_lt hfew
  · intro count hcount
    have hle := h.metrics.processSamples.le_length hcount
    rw [List.length_map] at hle
    omega
  · intro count hcount
    have hle := h.metrics.remoteSamples.le_length hcount
    rw [List.length_map] at hle
    omega
  · intro count hcount
    have hle := h.metrics.accessByWeight.le_length hcount
    rw [List.length_map] at hle
    omega
  · intro level count hcount
    have hlevel := h.metrics.lvlAccesses level
    rw [hcount, Option.getD_some] at hlevel
    exact (hlevel.le.trans List.countP_le_length).trans_lt (hwatched.trans_lt hfew)
  · intro page p hp count hcount
    have hle := (h.metrics.pageAccesses.known page p hp).procAccesses.le_length hcount
    have haccesses : (accessesTo page (samples.filter cfg.watches)).length ≤ (samples.filter cfg.watches).length :=
      List.length_filter_le _ _
    rw [List.length_map] at hle
    omega

/-- The division truncates towards zero. -/
theorem LlRec.weightBucket_nonneg_iff (r : LlRec) : 0 ≤ r.weightBucket ↔ -50 < narrow r.latency := by
  unfold LlRec.weightBucket weightBucketsNr
  by_cases hneg : 0 ≤ narrow r.latency
  · have hdiv := Int.tdiv_eq_ediv_of_nonneg (b := 50) hneg
    simp only [hdiv]
    split_ifs <;> omega
  · have hdiv : (narrow r.latency).tdiv 50 = -(-narrow r.latency / 50) := by
      rw [← Int.tdiv_eq_ediv_of_nonneg (by omega), Int.neg_tdiv, neg_neg]
    simp only [hdiv]
    split_ifs <;> omega

/-- No sample is counted outside the tables exactly if each one of the watched process has a core that belongs to
a node, and a cost that is not read as a negative number of a bucket or more. -/
theorem consumeSamples_isSome_iff (cfg : SamplingConfig) (samples : List LlRec) :
    (samples.foldlM (consumeSample cfg) (SampleStats.fresh cfg)).isSome ↔
      ∀ r ∈ samples, cfg.watches r → 0 ≤ cfg.node r ∧ -50 < narrow r.latency := by
  rw [((SampleStats.fresh_count cfg).samples samples).1]
  simp only [SamplingConfig.Valid, LlRec.weightBucket_nonneg_iff]

/-- After fewer than 2^31 samples every table is the count of the samples of the watched process, none of them having
run over, and the candidates for migration are the pages of those that went past the caches. -/
theorem consumeSamples_counts (cfg : SamplingConfig) (samples : List LlRec) (hfew : samples.length < 2 ^ 31)
    {t : SampleStats} (h : samples.foldlM (consumeSample cfg) (SampleStats.fresh cfg) = some t) :
    StatsCount cfg t samples.reverse ∧ t.InRange := by
  have hcounts := StatsCount.of_fresh h
  exact ⟨hcounts, hcounts.inRange (by rwa [List.length_reverse])⟩

theorem two_nodes : ∀ node ∈ [(0 : Int), 1], -1 ≤ node ∧ node < (2 : Nat) := by decide

/-- A process that is watched on two cores, each on a node of its own. -/
def twoNodes : SamplingConfig where
  ownPid := 5
  pidUo := 7
  nCpus := 2
  nCores := 2
  coreToCpu := [0, 1]
  heap := fun _ => 3
  cores := rfl
  nodes := two_nodes

/-- A miss in the third level, by core 1. -/
def missedThird : LlRec := ⟨7, 7, 4100, 1, 120, 0x880⟩

/-- A miss of core 0 in another page. -/
def missedHere : LlRec := ⟨7, 7, 8200, 0, 120, 0x880⟩

/-- Core 0 reaches the page of the first miss in its own caches. -/
def hitFirst : LlRec := ⟨7, 7, 4104, 0, 20, 0x100⟩

/-- Two pages, one of which changes its core once; its entry was made with 3 changes. -/
theorem consumeSamples_counts_three :
    ∃ t, [missedThird, missedHere, hitFirst].foldlM (consumeSample twoNodes) (SampleStats.fresh twoNodes) = some t ∧
      StatsCount twoNodes t [hitFirst, missedHere, missedThird] ∧ t.InRange ∧
      t.metrics.processSamples = [2, 1] ∧ t.metrics.remoteSamples = [1, 1] ∧ t.pages2move = [8192, 4096] ∧
      t.metrics.pageAccesses.lookup 4096 = some ⟨[1, 1], 4, 0⟩ := by
  have hrun : ([missedThird, missedHere, hitFirst].foldlM (consumeSample twoNodes) (SampleStats.fresh twoNodes)).any
      (fun t => decide (t.metrics.processSamples = [2, 1] ∧ t.metrics.remoteSamples = [1, 1] ∧
        t.pages2move = [8192, 4096] ∧ t.metrics.pageAccesses.lookup 4096 = some ⟨[1, 1], 4, 0⟩)) = true := by
    decide +kernel
  obtain ⟨t, ht, htables⟩ := (Option.any_eq_true _ _).mp hrun
  obtain ⟨hcounts, hrange⟩ := consumeSamples_counts twoNodes [missedThird, missedHere, hitFirst] (by decide) ht
  exact ⟨t, ht, hcounts, hrange, of_decide_eq_true htables⟩

end AutopinPlus
