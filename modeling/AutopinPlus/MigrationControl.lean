import AutopinPlus.PageMigration

/-!
# The course of a migration

`control_spm` migrates the pages once, while the reader goes on handing samples to `consume_sample`. It switches the
counting off before, gives the settings new metrics after, and switches the counting on again; the candidates for the
migration stay listed.
-/
namespace AutopinPlus

/-- How far `control_spm` is. -/
inductive MigrationStage where
  | measuring
  | disabled
  | migrated
  | renewed
  | enabled
  deriving DecidableEq, Repr

/-- The settings, the pages as the kernel has them, and the calls that asked to move some. -/
structure MigrationRun (K : Type) where
  stats : SampleStats
  kernel : K
  calls : List (List (UInt64 × Int)) := []
  stage : MigrationStage := .measuring

/-- A sample is consumed, or `control_spm` executes its next statement. -/
inductive MigrationEvent where
  | sample (r : LlRec)
  | control
  deriving DecidableEq, Repr

/-- What does not change: `heap` and `laterHeap` are what `malloc` leaves in the entries of the pages before and after
the migration, and `nodesHeap` what it leaves in the array of the nodes. -/
structure MigrationConfig (K : Type) where
  sampling : SamplingConfig
  laterHeap : UInt64 → UInt16
  movePages : MovePages K
  threshold : Nat
  nodesHeap : Nat → Int

namespace MigrationConfig

variable {K : Type}

/-- The configuration of the samples with new metrics. -/
def later (cfg : MigrationConfig K) : SamplingConfig := { cfg.sampling with heap := cfg.laterHeap }

/-- The configuration that the next entry of a page is made with. -/
def current (cfg : MigrationConfig K) : MigrationStage → SamplingConfig
  | .renewed | .enabled => cfg.later
  | _ => cfg.sampling

def consume (cfg : MigrationConfig K) (m : MigrationRun K) (r : LlRec) : Option (MigrationRun K) :=
  (consumeSample (cfg.current m.stage) m.stats r).map fun stats => { m with stats := stats }

/-- The statements of `control_spm` between its two waits. -/
def controlSpm (cfg : MigrationConfig K) (m : MigrationRun K) : Option (MigrationRun K) :=
  match m.stage with
  | .measuring => some { m with stats := { m.stats with disableLl := true }, stage := .disabled }
  | .disabled =>
    (doGreatMigration cfg.sampling cfg.movePages cfg.threshold cfg.nodesHeap m.kernel m.stats).map
      fun (calls, stats, kernel) => { stats := stats, kernel := kernel, calls := calls, stage := .migrated }
  | .migrated =>
    some { m with
      stats := { m.stats with metrics := (SampleStats.fresh cfg.later).metrics }
      stage := .renewed }
  | .renewed => some { m with stats := { m.stats with disableLl := false }, stage := .enabled }
  | .enabled => none

def step (cfg : MigrationConfig K) (m : MigrationRun K) : MigrationEvent → Option (MigrationRun K)
  | .sample r => cfg.consume m r
  | .control => cfg.controlSpm m

def start (cfg : MigrationConfig K) (k : K) : MigrationRun K where
  stats := SampleStats.fresh cfg.sampling
  kernel := k

/-- The samples between the four statements. -/
def interleaving (before first second third after : List LlRec) : List MigrationEvent :=
  before.map .sample ++ .control :: (first.map .sample ++ .control :: (second.map .sample ++
    .control :: (third.map .sample ++ .control :: after.map .sample)))

end MigrationConfig

/-! ## Counting on top of what is there -/

namespace SampleStats

/-- These counts added to others; only the metrics are those of `s`. -/
def atop (base s : SampleStats) : SampleStats :=
  { s with
    samplingSamples := s.samplingSamples + base.samplingSamples
    totalSamples := s.totalSamples + base.totalSamples
    pages2move := s.pages2move ++ base.pages2move
    numberPages2move := s.numberPages2move + base.numberPages2move
    movedPages := s.movedPages + base.movedPages }

theorem atop_fresh (base : SampleStats) (cfg : SamplingConfig) :
    base.atop (fresh cfg) = { base with disableLl := false, metrics := (fresh cfg).metrics } := by
  simp [atop, fresh]

end SampleStats

theorem map_bind_apply {α β γ : Type} (x : Option α) (f : α → Option β) (g : β → γ) :
    (x.bind f).map g = x.bind fun a => (f a).map g := by
  cases x with
  | none => rfl
  | some a => rfl

theorem map_countSample (f : SampleStats → SampleStats) (cfg : SamplingConfig) (s : SampleStats) (r : LlRec) :
    (countSample cfg s r).map f =
      (Histogram.bump s.metrics.processSamples r.core).bind fun processSamples =>
      (addMemAccess cfg s.metrics.pageAccesses r.page r.core).bind fun pageAccesses =>
      (addLvlAccess { s.metrics with processSamples := processSamples, pageAccesses := pageAccesses } r).bind
        fun metrics =>
        if r.remote then
          (Histogram.bump metrics.remoteSamples r.core).bind fun remoteSamples =>
            some (f (addPage2move { s with metrics := { metrics with remoteSamples := remoteSamples } } r.page))
        else some (f { s with metrics := metrics }) := by
  simp only [countSample, Option.bind_eq_bind, map_bind_apply, apply_ite (Option.map f), Option.map_some]

theorem countSample_atop (cfg : SamplingConfig) (base s : SampleStats) (r : LlRec) :
    countSample cfg (base.atop s) r = (countSample cfg s r).map base.atop := by
  have hmetrics : (base.atop s).metrics = s.metrics := rfl
  have hpage (t : SampleStats) : addPage2move (base.atop t) r.page = base.atop (addPage2move t r.page) := by
    simp only [addPage2move, SampleStats.atop, List.cons_append, Int.add_right_comm]
  have hlocal (m : SamplingMetrics) : { base.atop s with metrics := m } = base.atop { s with metrics := m } := rfl
  have hcount := map_countSample id cfg (base.atop s) r
  rw [Option.map_id, id_eq] at hcount
  rw [hcount, map_countSample]
  simp only [hmetrics, hlocal, hpage, id_eq]

/-- While the counting is off a sample changes nothing. -/
theorem consumeSample_disabled (cfg : SamplingConfig) {s : SampleStats} (h : s.disableLl = true) (r : LlRec) :
    consumeSample cfg s r = some s := by
  unfold consumeSample
  by_cases hcore : r.core ≥ cfg.nCores
  · rw [if_pos hcore]
  · rw [if_neg hcore, if_pos h]

theorem consumeSample_atop (cfg : SamplingConfig) (base s : SampleStats) (r : LlRec) :
    consumeSample cfg (base.atop s) r = (consumeSample cfg s r).map base.atop := by
  have htick : (base.atop s).tick cfg r = base.atop (s.tick cfg r) := by
    simp only [SampleStats.tick, SampleStats.atop, Nat.add_right_comm]
  have hdisable : (base.atop s).disableLl = s.disableLl := rfl
  cases h : s.disableLl with
  | true => rw [consumeSample_disabled cfg (hdisable.trans h), consumeSample_disabled cfg h, Option.map_some]
  | false =>
    rw [consumeSample_eq (hdisable.trans h), consumeSample_eq h, htick, countSample_atop]
    by_cases hcounts : cfg.counts r = true
    · by_cases hwatches : cfg.watches r = true
      · rw [if_pos hcounts, if_pos hwatches, if_pos hcounts, if_pos hwatches]
      · rw [if_pos hcounts, if_neg hwatches, if_pos hcounts, if_neg hwatches, Option.map_some]
    · rw [if_neg hcounts, if_neg hcounts, Option.map_some]

theorem consumeSamples_atop (cfg : SamplingConfig) (base s : SampleStats) (samples : List LlRec) :
    samples.foldlM (consumeSample cfg) (base.atop s) = (samples.foldlM (consumeSample cfg) s).map base.atop := by
  induction samples generalizing s with
  | nil => rfl
  | cons r samples ih =>
    rw [List.foldlM_cons, List.foldlM_cons, consumeSample_atop]
    cases consumeSample cfg s r with
    | none => rfl
    | some t => exact ih t

/-- The samples before a migration and those after it are in the counters together. -/
theorem StatsCount.atop_inRange {cfg later : SamplingConfig} {s t u : SampleStats} {before after : List LlRec}
    (hs : StatsCount cfg s before) (hu : StatsCount later u after) (hfew : before.length + after.length < 2 ^ 31)
    (ht : t = { s with numberPages2move := -s.numberPages2move, movedPages := t.movedPages })
    (hmoved : t.movedPages ≤ s.pages2move.length) : (t.atop u).InRange := by
  have hearlier := hs.candidates_le
  have hlater := hu.candidates_le
  obtain ⟨-, -, -, -, hmetrics, hprocess, hremote, hweight, hlevels, haccesses⟩ := hu.inRange (by omega)
  refine ⟨?_, ?_, ?_, ?_, hmetrics, hprocess, hremote, hweight, hlevels, haccesses⟩
  · have hsampling : t.samplingSamples = s.samplingSamples := by rw [ht]
    have hle : s.samplingSamples ≤ before.length := hs.samplingSamples ▸ List.countP_le_length
    have hle' : u.samplingSamples ≤ after.length := hu.samplingSamples ▸ List.countP_le_length
    simp only [SampleStats.atop]
    omega
  · have htotal : t.totalSamples = s.totalSamples := by rw [ht]
    have hle : s.totalSamples ≤ before.length := hs.totalSamples ▸ List.countP_le_length
    have hle' : u.totalSamples ≤ after.length := hu.totalSamples ▸ List.countP_le_length
    simp only [SampleStats.atop]
    omega
  · have hnumber : t.numberPages2move = -s.numberPages2move := by rw [ht]
    have hlisted := hs.numberPages2move
    have hlisted' := hu.numberPages2move
    simp only [SampleStats.atop]
    omega
  · have hnone := hu.movedPages
    simp only [SampleStats.atop]
    omega

/-! ## The four statements -/

/-- It does not read whether the counting is off. -/
theorem doGreatMigration_disabled {K : Type} (cfg : SamplingConfig) (mp : MovePages K) (threshold : Nat)
    (heap : Nat → Int) (k : K) (s : SampleStats) (off : Bool) :
    doGreatMigration cfg mp threshold heap k { s with disableLl := off } =
      (doGreatMigration cfg mp threshold heap k s).map
        fun (calls, t, k') => (calls, { t with disableLl := off }, k') := by
  simp only [doGreatMigration, Option.bind_eq_bind, apply_ite (Option.map _), map_bind_apply, Option.map_none,
    Option.map_some]

theorem consumeSamples_disabled (cfg : SamplingConfig) {s : SampleStats} (h : s.disableLl = true)
    (samples : List LlRec) : samples.foldlM (consumeSample cfg) s = some s := by
  induction samples with
  | nil => rfl
  | cons r samples ih =>
    rw [List.foldlM_cons, consumeSample_disabled cfg h, Option.bind_eq_bind, Option.bind_some]
    exact ih

namespace MigrationConfig

variable {K : Type} (cfg : MigrationConfig K)

theorem run_samples (m : MigrationRun K) (samples : List LlRec) :
    PartialStep.run cfg.step m (samples.map .sample) =
      (samples.foldlM (consumeSample (cfg.current m.stage)) m.stats).map fun stats => { m with stats := stats } := by
  induction samples generalizing m with
  | nil => rfl
  | cons r samples ih =>
    rw [List.map_cons, PartialStep.run_cons, List.foldlM_cons]
    cases h : consumeSample (cfg.current m.stage) m.stats r with
    | none => simp [step, consume, h]
    | some stats => simp [step, consume, h, ih]

/-- A sample that comes while the counting is off is as if it had not come. -/
theorem run_disabled {m : MigrationRun K} (h : m.stats.disableLl = true) (samples : List LlRec)
    (events : List MigrationEvent) :
    PartialStep.run cfg.step m (samples.map .sample ++ events) = PartialStep.run cfg.step m events := by
  rw [PartialStep.run_append, run_samples, consumeSamples_disabled _ h]
  rfl

/-- The four statements are one: the run is that of the samples before, the migration, and the samples after on new
metrics. -/
theorem run_interleaving (k : K) (before first second third after : List LlRec) :
    PartialStep.run cfg.step (cfg.start k) (interleaving before first second third after) =
      (before.foldlM (consumeSample cfg.sampling) (SampleStats.fresh cfg.sampling)).bind fun s =>
        (doGreatMigration cfg.sampling cfg.movePages cfg.threshold cfg.nodesHeap k s).bind fun migrated =>
          (after.foldlM (consumeSample cfg.later) (SampleStats.fresh cfg.later)).map fun t =>
            { stats := migrated.2.1.atop t, kernel := migrated.2.2, calls := migrated.1, stage := .enabled } := by
  rw [interleaving, PartialStep.run_append, run_samples]
  cases hbefore : before.foldlM (consumeSample (cfg.current (cfg.start k).stage)) (cfg.start k).stats with
  | none =>
    have hnone : before.foldlM (consumeSample cfg.sampling) (SampleStats.fresh cfg.sampling) = none := hbefore
    rw [hnone]
    rfl
  | some s =>
    have hsome : before.foldlM (consumeSample cfg.sampling) (SampleStats.fresh cfg.sampling) = some s := hbefore
    rw [hsome, Option.map_some, Option.bind_some, Option.bind_some, PartialStep.run_cons]
    have hdisable : cfg.step { cfg.start k with stats := s } .control =
        some ⟨{ s with disableLl := true }, k, [], .disabled⟩ := rfl
    rw [hdisable, Option.bind_some, run_disabled cfg rfl, PartialStep.run_cons]
    have hmigrate : cfg.step ⟨{ s with disableLl := true }, k, [], .disabled⟩ .control =
        (doGreatMigration cfg.sampling cfg.movePages cfg.threshold cfg.nodesHeap k s).map fun migrated =>
          ⟨{ migrated.2.1 with disableLl := true }, migrated.2.2, migrated.1, .migrated⟩ := by
      have hoff := doGreatMigration_disabled cfg.sampling cfg.movePages cfg.threshold cfg.nodesHeap k s true
      simp only [step, controlSpm, hoff, Option.map_map]
      rfl
    rw [hmigrate]
    cases hmigrated : doGreatMigration cfg.sampling cfg.movePages cfg.threshold cfg.nodesHeap k s with
    | none => rfl
    | some migrated =>
      obtain ⟨calls, t, k'⟩ := migrated
      rw [Option.map_some, Option.bind_some, Option.bind_some, run_disabled cfg rfl, PartialStep.run_cons]
      have hrenew : cfg.step ⟨{ t with disableLl := true }, k', calls, .migrated⟩ .control =
          some ⟨{ t with disableLl := true, metrics := (SampleStats.fresh cfg.later).metrics }, k', calls,
            .renewed⟩ := rfl
      have henable : cfg.step ⟨{ t with disableLl := true, metrics := (SampleStats.fresh cfg.later).metrics }, k',
          calls, .renewed⟩ .control = some ⟨t.atop (SampleStats.fresh cfg.later), k', calls, .enabled⟩ := by
        rw [SampleStats.atop_fresh]
        rfl
      rw [hrenew, Option.bind_some, run_disabled cfg rfl, PartialStep.run_cons, henable, Option.bind_some, run_samples]
      have hafter := consumeSamples_atop cfg.later t (SampleStats.fresh cfg.later) after
      have hcurrent : cfg.current .enabled = cfg.later := rfl
      simp only [hcurrent, hafter, Option.map_map]
      rfl

/-- The pages of the samples that went past the caches, the latest first. -/
def candidates (samples : List LlRec) : List UInt64 :=
  ((samples.reverse.filter cfg.sampling.watches).filter LlRec.remote).map LlRec.page

/-- Whatever samples come between the statements. The tables are those of the samples after them. The candidates from
before stay listed behind the later ones, with a number that has been subtracted instead of cleared. With fewer than
2^30 samples before and after them no counter runs over, nor does what is subtracted. -/
theorem control_phases {k : K} {before : List LlRec} {s : SampleStats}
    (hbefore : before.foldlM (consumeSample cfg.sampling) (SampleStats.fresh cfg.sampling) = some s)
    (first second third after : List LlRec) (hfew : (before ++ after).length < 2 ^ 30) :
    let moves := s.moves cfg.movePages cfg.threshold k
    let run := PartialStep.run cfg.step (cfg.start k) (interleaving before first second third after)
    (run.isSome ↔ (moves = [] ∨ moves.length < s.pages2move.length) ∧
        ∀ r ∈ after, cfg.sampling.watches r → cfg.sampling.Valid r) ∧
      ∀ m, run = some m →
        m.stage = .enabled ∧ m.stats.disableLl = false ∧
        m.calls.flatten = (moves.map Prod.fst).zip (cfg.nodesHeap 0 :: moves.map Prod.snd) ∧
        m.stats.totalSamples = (before ++ after).countP cfg.sampling.counts ∧
        m.stats.metrics.totalSamples = after.countP cfg.sampling.counts ∧
        MetricsCount cfg.later m.stats.metrics (after.reverse.filter cfg.sampling.watches) ∧
        m.stats.pages2move = cfg.candidates after ++ cfg.candidates before ∧
        m.stats.numberPages2move = (cfg.candidates after).length - (cfg.candidates before).length ∧
        m.stats.InRange := by
  intro moves run
  have hrun := cfg.run_interleaving k before first second third after
  rw [hbefore, Option.bind_some] at hrun
  have hcounts := StatsCount.of_fresh hbefore
  obtain ⟨hdef, hmigrated⟩ := doGreatMigration_filled hcounts cfg.movePages cfg.threshold cfg.nodesHeap k
  obtain ⟨hvalid, hafter⟩ := (SampleStats.fresh_count cfg.later).samples after
  have hcandidates : s.pages2move = cfg.candidates before := hcounts.pages2move
  cases hmigrate : doGreatMigration cfg.sampling cfg.movePages cfg.threshold cfg.nodesHeap k s with
  | none =>
    rw [hmigrate] at hrun hdef
    have hnone : run = none := hrun
    rw [hnone]
    exact ⟨iff_of_false (by simp) (fun h => by simpa using hdef.mpr h.1), by simp⟩
  | some migrated =>
    obtain ⟨calls, t, k'⟩ := migrated
    rw [hmigrate] at hrun hdef
    have hroom := hdef.mp rfl
    obtain ⟨hcalls, hframe, hmoved⟩ := hmigrated calls t k' hmigrate
    cases hu : after.foldlM (consumeSample cfg.later) (SampleStats.fresh cfg.later) with
    | none =>
      rw [hu] at hrun hvalid
      have hnone : run = none := hrun
      rw [hnone]
      exact ⟨iff_of_false (by simp) (fun h => by simpa using hvalid.mpr h.2), by simp⟩
    | some u =>
      rw [hu] at hrun hvalid
      have hsome : run = some ⟨t.atop u, k', calls, .enabled⟩ := hrun
      have hu := hafter u hu
      rw [List.append_nil] at hu
      rw [hsome]
      refine ⟨iff_of_true rfl ⟨hroom, hvalid.mp rfl⟩, ?_⟩
      intro m hm
      rw [Option.some.injEq] at hm
      subst hm
      have htotal : t.totalSamples = before.countP cfg.sampling.counts := by
        rw [hframe, hcounts.totalSamples, List.countP_reverse]
      have hpages : t.pages2move = cfg.candidates before := by rw [hframe, hcandidates]
      have hlater : u.pages2move = cfg.candidates after := hu.pages2move
      have hnumber : t.numberPages2move = -s.numberPages2move := by rw [hframe]
      have hrange : before.reverse.length + after.reverse.length < 2 ^ 31 := by
        rw [List.length_append] at hfew
        rw [List.length_reverse, List.length_reverse]
        omega
      refine ⟨rfl, hu.disableLl, hcalls, ?_, ?_, hu.metrics, ?_, ?_, hcounts.atop_inRange hu hrange hframe hmoved⟩
      · show u.totalSamples + t.totalSamples = _
        rw [htotal, hu.totalSamples, List.countP_reverse, List.countP_append, Nat.add_comm]
        rfl
      · show u.metrics.totalSamples = _
        rw [hu.metricsSamples, List.countP_reverse]
        rfl
      · show u.pages2move ++ t.pages2move = _
        rw [hpages, hlater]
      · show u.numberPages2move + t.numberPages2move = _
        rw [hnumber, hu.numberPages2move, hcounts.numberPages2move, hlater, hcandidates, Int.sub_eq_add_neg]

end MigrationConfig

/-- All pages are on node 0. -/
def fromNodeZero : MigrationConfig Unit where
  sampling := twoNodes
  laterHeap := fun _ => 5
  movePages := onNodeZero
  threshold := 0
  nodesHeap := fun _ => 0

theorem missedThird_valid : twoNodes.Valid missedThird := by
  rw [SamplingConfig.Valid, LlRec.weightBucket_nonneg_iff]
  decide +kernel

/-- Two candidates before the migration and one after: three are listed, and their number is -1. -/
theorem control_phases_miss :
    ∃ m, PartialStep.run fromNodeZero.step (fromNodeZero.start ())
        (MigrationConfig.interleaving [missedThird, missedHere] [missedThird] [] [missedHere] [missedThird]) = some m ∧
      m.stats.pages2move = [4096, 8192, 4096] ∧ m.stats.numberPages2move = -1 ∧ m.stats.InRange := by
  obtain ⟨s, hs, htwo⟩ := (Option.any_eq_true _ _).mp two_missed
  obtain ⟨hmoves, hcandidates⟩ := of_decide_eq_true htwo
  have hroom : (s.moves onNodeZero 0 ()).length < s.pages2move.length := by
    rw [hmoves, hcandidates]
    decide
  obtain ⟨hdef, hfinal⟩ :=
    fromNodeZero.control_phases (k := ()) hs [missedThird] [] [missedHere] [missedThird] (by decide)
  have hsome := hdef.mpr ⟨.inr hroom, fun r hr _ => List.mem_singleton.mp hr ▸ missedThird_valid⟩
  obtain ⟨m, hm⟩ := Option.isSome_iff_exists.mp hsome
  obtain ⟨-, -, -, -, -, -, hpages, hnumber, hrange⟩ := hfinal m hm
  refine ⟨m, hm, hpages.trans ?_, hnumber.trans ?_, hrange⟩
  · decide +kernel
  · decide +kernel

end AutopinPlus
