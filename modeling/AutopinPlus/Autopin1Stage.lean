import AutopinPlus.Autopin1

/-!
# The stages of autopin1

Between two events autopin1 is in one of five stages: waiting for the init time, for
a restart, for the warm-up time, for the measure time, or finished. Each slot is
described once by what it changes; the stage invariant then shows that no order of
events reaches a subscript out of range.
-/
namespace AutopinPlus

namespace Autopin1

open PartialStep

variable {M D : Type}

/-! ## What the slots change -/

/-- An entry as `applyPinning` makes it. -/
def unread (tid : Int) : PinnedTask D := { tid := tid }

/-- `applyPinning` never leaves the pinning or the task list. It makes entries for some of the
tasks, in order, and pins only tasks. -/
theorem applyPinning_spec (u : Setup M D) (pinning : List Int) (s : State M D) :
    ∃ (host : Host) (tids : List Int),
      applyPinning u pinning s = some
        { s with
          probe.session.host := host,
          pinnedTasks := s.pinnedTasks ++ tids.map unread,
          applied := s.applied ++ [pinning] } ∧
      tids.Sublist s.tasks ∧
      ∀ c ∈ host.affinity, c ∈ s.probe.session.host.affinity ∨ c.tid ∈ s.tasks := by
  let P : Nat → Nat × State M D → Prop := fun j acc =>
    ∃ (host : Host) (tids : List Int), acc.2 =
        { s with
          probe.session.host := host,
          pinnedTasks := s.pinnedTasks ++ tids.map unread,
          applied := s.applied ++ [pinning] } ∧
      tids.Sublist (s.tasks.take j) ∧
      ∀ c ∈ host.affinity, c ∈ s.probe.session.host.affinity ∨ c.tid ∈ s.tasks
  have hstep : ∀ j acc, j < s.tasks.length → P j acc →
      ∃ acc', pinNext u pinning acc j = some acc' ∧ P (j + 1) acc' := by
    rintro j ⟨i, s'⟩ hj ⟨host, tids, rfl, hsub, haff⟩
    have hkeep : tids.Sublist (s.tasks.take (j + 1)) :=
      hsub.trans (List.take_sublist_take_left (Nat.le_succ j))
    unfold pinNext
    split
    · exact ⟨_, rfl, host, tids, rfl, hkeep, haff⟩
    · rename_i hi
      split
      · exact ⟨_, rfl, host, tids, rfl, hkeep, haff⟩
      · split
        · exact ⟨_, rfl, host, tids, rfl, hkeep, haff⟩
        · have hi' : i < pinning.length := by simpa using hi
          simp only [List.getElem?_eq_getElem hj, List.getElem?_eq_getElem hi', Option.bind_eq_bind,
            Option.bind_some]
          refine ⟨_, rfl, (host.setAffinity u.kernel s.tasks[j] pinning[i]).2, tids ++ [s.tasks[j]], ?_, ?_, ?_⟩
          · simp [pin, Probe.setAffinity, unread]
          · rw [List.take_add_one, List.getElem?_eq_getElem hj]
            exact hsub.append (.refl _)
          · intro c hc
            rw [Host.setAffinity_affinity] at hc
            rcases List.mem_cons.mp hc with rfl | hc
            · exact .inr (List.getElem_mem hj)
            · exact haff c hc
  obtain ⟨⟨i, s'⟩, hrun, host, tids, rfl, hsub, haff⟩ :=
    foldlM_range_isSome P s.tasks.length hstep
      (s := (0, { s with applied := s.applied ++ [pinning] }))
      ⟨s.probe.session.host, [], by simp, by simp, fun c hc => .inl hc⟩
  refine ⟨host, tids, ?_, by simpa using hsub, haff⟩
  rw [applyPinning]
  exact Option.map_eq_some_iff.mpr ⟨_, hrun, rfl⟩

theorem slotStartPinning_spec (u : Setup M D) (sc : Scanner) {s : State M D} {pinning : List Int}
    (h : subscript u.pinnings s.currentPinning = some pinning) :
    ∃ (host : Host) (tids : List Int),
      slotStartPinning u sc s = some
        { s with
          probe := { (scan sc s.probe).2 with session.host := host },
          tasks := (scan sc s.probe).1.elems,
          notifications := true,
          warmupTimer := true,
          pinnedTasks := s.pinnedTasks ++ tids.map unread,
          applied := s.applied ++ [pinning] } ∧
      tids.Sublist (scan sc s.probe).1.elems ∧
      ∀ c ∈ host.affinity, c ∈ s.probe.session.host.affinity ∨ c.tid ∈ (scan sc s.probe).1 := by
  obtain ⟨host, tids, happly, hsub, haff⟩ :=
    applyPinning_spec u pinning { refreshTasks sc s with notifications := true }
  refine ⟨host, tids, ?_, hsub, haff⟩
  have hcur : subscript u.pinnings (refreshTasks sc s).currentPinning = some pinning := h
  simp only [slotStartPinning, hcur, Option.bind_eq_bind, Option.bind_some, happly]
  rfl

/-- All members `slot_stopPinning` reads have been written. -/
structure Measured (t : PinnedTask D) : Prop where
  start : t.start.isSome
  stop : t.stop.isSome
  result : t.stop = some (-1) ∨ t.result.isSome

theorem removeTerminated_sublist (u : Setup M D) (running : TidSet) (ts : List (PinnedTask D))
    (p : Probe M) : (removeTerminated u running ts p).1.Sublist ts := by
  induction ts generalizing p with
  | nil => exact .refl _
  | cons t ts ih =>
    rw [removeTerminated]
    split
    · exact (ih p).cons_cons t
    · exact (ih _).cons t

theorem checkPinned_sublist (u : Setup M D) (sc : Scanner) (ts : List (PinnedTask D)) (p : Probe M) :
    (checkPinned u sc ts p).1.Sublist ts := by
  unfold checkPinned
  split
  · exact .refl _
  · exact removeTerminated_sublist ..

theorem startTasks_measured (u : Setup M D) (ts : List (PinnedTask D)) (p : Probe M) :
    ∀ t ∈ (startTasks u ts p).1, Measured t := by
  induction ts generalizing p with
  | nil => simp [startTasks]
  | cons t ts ih =>
    rw [startTasks, List.forall_mem_cons]
    exact ⟨⟨rfl, rfl, .inl rfl⟩, ih _⟩

theorem readTask_isSome [Div D] [IntCast D] (u : Setup M D) {t : PinnedTask D} (ht : Measured t)
    (p : Probe M) : ∃ r, readTask u t p = some r := by
  obtain ⟨start, hstart⟩ := Option.isSome_iff_exists.mp ht.start
  obtain ⟨stop, hstop⟩ := Option.isSome_iff_exists.mp ht.stop
  simp only [readTask, hstart, hstop, Option.bind_eq_bind, Option.bind_some]
  split
  · exact ⟨_, rfl⟩
  · rename_i hne
    have hresult : t.result.isSome := by
      refine ht.result.resolve_left (fun h => hne ?_)
      exact Option.some.inj (hstop.symm.trans h)
    obtain ⟨result, hresult⟩ := Option.isSome_iff_exists.mp hresult
    rw [hresult, Option.bind_some]
    exact ⟨_, rfl⟩

theorem readTasks_isSome [Add D] [Div D] [IntCast D] (u : Setup M D) {ts : List (PinnedTask D)}
    (hts : ∀ t ∈ ts, Measured t) (sum : D) (p : Probe M) : ∃ r, readTasks u ts sum p = some r := by
  induction ts generalizing sum p with
  | nil => exact ⟨_, rfl⟩
  | cons t ts ih =>
    obtain ⟨⟨result, t', p'⟩, hread⟩ := readTask_isSome u (hts t (by simp)) p
    obtain ⟨r, hr⟩ := ih (fun x hx => hts x (List.mem_cons_of_mem t hx)) (sum + result) p'
    simp only [readTasks, hread, hr, Option.bind_eq_bind, Option.bind_some]
    exact ⟨_, rfl⟩

/-- How `slot_stopPinning` chooses index and value of the best pinning. -/
def Chooses [LT D] [DecidableLT D] (u : Setup M D) (s : State M D) (current : D) (best : Int)
    (performance : D) : Prop :=
  (best = s.currentPinning ∧ performance = current ∧ (s.bestPinning = -1 ∨
    ∃ old, s.bestPerformance = some old ∧ improves u.monitorType current old = true)) ∨
  (best = s.bestPinning ∧ s.bestPinning ≠ -1 ∧ s.bestPerformance = some performance ∧
    improves u.monitorType current performance = false)

theorem updateBest_spec [LT D] [DecidableLT D] (u : Setup M D) (current : D) {s : State M D}
    (h : s.bestPinning = -1 ∨ s.bestPerformance.isSome) :
    ∃ (best : Int) (performance : D), updateBest u current s =
      some { s with bestPerformance := some performance, bestPinning := best } ∧
      Chooses u s current best performance := by
  unfold updateBest
  split
  · rename_i hnone
    exact ⟨_, _, rfl, .inl ⟨rfl, rfl, .inl hnone⟩⟩
  · rename_i hsome
    obtain ⟨old, hold⟩ := Option.isSome_iff_exists.mp (h.resolve_left hsome)
    rw [hold, Option.bind_eq_bind, Option.bind_some]
    split
    · rename_i himp
      exact ⟨_, _, rfl, .inl ⟨rfl, rfl, .inr ⟨old, hold, himp⟩⟩⟩
    · rename_i himp
      refine ⟨s.bestPinning, old, ?_, .inr ⟨rfl, hsome, hold, by simpa using himp⟩⟩
      simp only [← hold]

/-- What `slot_TaskCreated` does to the monitor and the pinned tasks: nothing, or a new entry,
which is monitored at once during a measurement. -/
def Admits (u : Setup M D) (tid : Int) (s : State M D) (probe : Probe M) (ts : List (PinnedTask D)) :
    Prop :=
  (probe = s.probe ∧ ts = s.pinnedTasks) ∨
  (s.notifications = true ∧ (∀ t ∈ s.pinnedTasks, t.tid ≠ tid) ∧ ∃ cpu,
    (s.measureTimer = true ∧ probe = (((s.probe.setAffinity u tid cpu).start u tid).elapsed u).2 ∧
      ts = s.pinnedTasks ++ [{
        tid := tid
        start := some (((s.probe.setAffinity u tid cpu).start u tid).elapsed u).1
        stop := some (-1) }]) ∨
    (s.measureTimer = false ∧ probe = s.probe.setAffinity u tid cpu ∧
      ts = s.pinnedTasks ++ [unread tid]))

theorem pinCreated_spec (u : Setup M D) (tid : Int) (pinning : List Int) {s : State M D}
    (hn : s.notifications = true) (hnew : ∀ t ∈ s.pinnedTasks, t.tid ≠ tid) :
    ∃ (probe : Probe M) (ts : List (PinnedTask D)),
      pinCreated u tid pinning s = some { s with probe := probe, pinnedTasks := ts } ∧
      Admits u tid s probe ts := by
  simp only [pinCreated]
  split
  · rename_i h
    rw [List.getElem?_eq_getElem h.1, Option.bind_eq_bind, Option.bind_some]
    split
    · rename_i hmeas
      exact ⟨_, _, rfl, .inr ⟨hn, hnew, _, .inl ⟨hmeas, rfl, rfl⟩⟩⟩
    · rename_i hmeas
      exact ⟨_, _, rfl, .inr ⟨hn, hnew, _, .inr ⟨by simpa using hmeas, rfl, rfl⟩⟩⟩
  · exact ⟨_, _, rfl, .inl ⟨rfl, rfl⟩⟩

theorem slotTaskCreated_spec (u : Setup M D) (tid : Int) {s : State M D}
    (h : s.notifications = true → ∃ pinning, subscript u.pinnings s.currentPinning = some pinning) :
    ∃ (probe : Probe M) (ts : List (PinnedTask D)) (tasks : List Int),
      slotTaskCreated u tid s = some { s with probe := probe, pinnedTasks := ts, tasks := tasks } ∧
      Admits u tid s probe ts ∧ tasks.Sublist (s.tasks ++ [tid]) := by
  unfold slotTaskCreated
  split
  · rename_i hn
    split
    · exact ⟨_, _, _, rfl, .inl ⟨rfl, rfl⟩, List.sublist_append_left _ _⟩
    · rename_i hany
      have hnew : ∀ t ∈ s.pinnedTasks, t.tid ≠ tid := by simpa using hany
      obtain ⟨pinning, hp⟩ := h hn
      obtain ⟨probe, ts, hpin, hadm⟩ := pinCreated_spec u tid pinning hn hnew
      simp only [hp, hpin, Option.bind_eq_bind, Option.bind_some]
      exact ⟨_, _, _, rfl, hadm, .refl _⟩
  · exact ⟨_, _, _, rfl, .inl ⟨rfl, rfl⟩, List.sublist_append_left _ _⟩

/-- What `slot_TaskTerminated` does: nothing, or it stops the monitor for a pinned task and marks
its entry or, outside a measurement, removes it. -/
theorem slotTaskTerminated_cases (u : Setup M D) (tid : Int) (s : State M D) :
    slotTaskTerminated u tid s = s ∨
    (s.notifications = true ∧ (∃ t ∈ s.pinnedTasks, t.tid = tid) ∧
      ((s.measureTimer = true ∧ slotTaskTerminated u tid s =
        { s with
          probe := ((s.probe.stop u tid).2.elapsed u).2,
          pinnedTasks := updateFirst tid (fun t =>
            { t with
              stop := some ((s.probe.stop u tid).2.elapsed u).1,
              result := some (s.probe.stop u tid).1 }) s.pinnedTasks }) ∨
      (s.measureTimer = false ∧ slotTaskTerminated u tid s =
        { s with
          probe := (s.probe.stop u tid).2,
          pinnedTasks := s.pinnedTasks.eraseP (fun t => t.tid = tid) }))) := by
  unfold slotTaskTerminated
  split
  · rename_i hn
    split
    · rename_i hany
      have hex : ∃ t ∈ s.pinnedTasks, t.tid = tid := by simpa using hany
      right
      refine ⟨hn, hex, ?_⟩
      cases hm : s.measureTimer with
      | true => exact .inl ⟨rfl, rfl⟩
      | false => exact .inr ⟨rfl, rfl⟩
    · exact .inl rfl
  · exact .inl rfl

theorem mem_updateFirst {tid : Int} {f : PinnedTask D → PinnedTask D} {ts : List (PinnedTask D)}
    {t : PinnedTask D} (h : t ∈ updateFirst tid f ts) :
    t ∈ ts ∨ ∃ t' ∈ ts, t'.tid = tid ∧ t = f t' := by
  induction ts with
  | nil => exact .inl h
  | cons x ts ih =>
    rw [updateFirst] at h
    split at h
    · rename_i hx
      rcases List.mem_cons.mp h with rfl | h
      · exact .inr ⟨x, by simp, hx, rfl⟩
      · exact .inl (List.mem_cons_of_mem x h)
    · rcases List.mem_cons.mp h with rfl | h
      · exact .inl (by simp)
      · rcases ih h with h | ⟨t', ht', hrest⟩
        · exact .inl (List.mem_cons_of_mem x h)
        · exact .inr ⟨t', List.mem_cons_of_mem x ht', hrest⟩

/-- The state `slot_stopPinning` goes on with. -/
def measuredState (s : State M D) (probe : Probe M) (current : D) (best : Int) (performance : D) :
    State M D :=
  { s with
    notifications := false,
    probe := probe,
    bestPerformance := some performance,
    bestPinning := best,
    stops := s.stops ++ [(s.currentPinning, current)],
    pinnedTasks := [],
    currentPinning := s.currentPinning + 1 }

/-! ## Stages -/

inductive Stage where
  | init | restart | warmup | measure | finished
  deriving DecidableEq, Repr

/-- The pinning under test is one of the list, or the first past it when all are done; the best
one so far is one that has been tested. -/
structure Searching (u : Setup M D) (s : State M D) (finished : Prop) : Prop where
  nonneg : 0 ≤ s.currentPinning
  under : ¬ finished → s.currentPinning < u.pinnings.length
  past : finished → s.currentPinning = u.pinnings.length
  best : (s.currentPinning = 0 ∧ s.bestPinning = -1) ∨
    (0 ≤ s.bestPinning ∧ s.bestPinning < s.currentPinning ∧ s.bestPerformance.isSome)

/-- What the timers, the queue and the flag say in each stage. -/
structure InStage (u : Setup M D) (stage : Stage) (s : State M D) : Prop where
  initTimer : s.initTimer = true ↔ stage = .init
  restarts : s.restarts = if stage = .restart then 1 else 0
  warmupTimer : s.warmupTimer = true ↔ stage = .warmup
  measureTimer : s.measureTimer = true ↔ stage = .measure
  notifications : s.notifications = true ↔ stage = .warmup ∨ stage = .measure
  search : Searching u s (stage = .finished)
  measured : stage = .measure → ∀ t ∈ s.pinnedTasks, Measured t

theorem Searching.pinning {u : Setup M D} {s : State M D} {finished : Prop}
    (h : Searching u s finished) (hn : ¬ finished) :
    ∃ pinning, subscript u.pinnings s.currentPinning = some pinning :=
  Option.isSome_iff_exists.mp ((subscript_isSome_iff _ _).mpr ⟨h.nonneg, h.under hn⟩)

/-- The search goes on after a measurement: the pinning chosen is one that has been tested. -/
theorem Searching.measured [LT D] [DecidableLT D] {u : Setup M D} {s : State M D}
    (hs : Searching u s False) {current performance : D} {best : Int}
    (hch : Chooses u s current best performance) :
    0 < s.currentPinning + 1 ∧ s.currentPinning + 1 ≤ u.pinnings.length ∧
      0 ≤ best ∧ best < s.currentPinning + 1 := by
  have hunder := hs.under id
  have hnonneg := hs.nonneg
  refine ⟨by omega, by omega, ?_⟩
  rcases hch with ⟨rfl, -, -⟩ | ⟨rfl, hne, -, -⟩
  · omega
  · rcases hs.best with ⟨-, hnone⟩ | ⟨h0, hlt, -⟩
    · exact absurd hnone hne
    · omega

theorem ready_inStage {u : Setup M D} (session : Session M) (hne : u.pinnings ≠ []) :
    InStage u .init (ready session : State M D) := by
  have hlen : 0 < u.pinnings.length := List.length_pos_iff.mpr hne
  refine ⟨by simp [ready, slotWatchdogReady], by simp [ready, slotWatchdogReady],
    by simp [ready, slotWatchdogReady], by simp [ready, slotWatchdogReady],
    by simp [ready, slotWatchdogReady], ⟨?_, ?_, ?_, ?_⟩, by simp⟩
  · simp [ready, slotWatchdogReady]
  · intro _
    simp only [ready, slotWatchdogReady]
    omega
  · simp
  · simp [ready, slotWatchdogReady]

/-- No timer runs and no restart is queued: how a state looks to a slot that an expiry calls. -/
structure Quiescent (s : State M D) : Prop where
  initTimer : s.initTimer = false
  restarts : s.restarts = 0
  warmupTimer : s.warmupTimer = false
  measureTimer : s.measureTimer = false

theorem slotStartPinning_stage {u : Setup M D} (sc : Scanner) {s : State M D} (hq : Quiescent s)
    (hs : Searching u s False) : ∃ t, slotStartPinning u sc s = some t ∧ InStage u .warmup t := by
  obtain ⟨pinning, hp⟩ := hs.pinning id
  obtain ⟨host, tids, h, -, -⟩ := slotStartPinning_spec u sc hp
  refine ⟨_, h, ⟨?_, ?_, ?_, ?_, ?_, ⟨hs.nonneg, fun _ => hs.under id, ?_, hs.best⟩, ?_⟩⟩
  · simp [hq.initTimer]
  · simp [hq.restarts]
  · simp
  · simp [hq.measureTimer]
  · simp
  · simp
  · simp

theorem slotStartMonitor_stage {u : Setup M D} (sc : Scanner) {s : State M D} (hq : Quiescent s)
    (hs : Searching u s False) (hn : s.notifications = true) :
    InStage u .measure (slotStartMonitor u sc s) := by
  refine ⟨?_, ?_, ?_, ?_, ?_, ⟨hs.nonneg, fun _ => hs.under id, ?_, hs.best⟩, ?_⟩
  · simp [slotStartMonitor, checkPinnedTasks, hq.initTimer]
  · simp [slotStartMonitor, checkPinnedTasks, hq.restarts]
  · simp [slotStartMonitor, checkPinnedTasks, hq.warmupTimer]
  · simp [slotStartMonitor]
  · simp [slotStartMonitor, checkPinnedTasks, hn]
  · simp
  · intro _
    exact startTasks_measured u _ _

/-- After the last pinning `best_pinning` is set, so the final `applyPinning` is defined. -/
theorem nextPinning_stage {u : Setup M D} (refresh : Scanner) {s : State M D} (hq : Quiescent s)
    (hn : s.notifications = false) (h0 : 0 < s.currentPinning)
    (hle : s.currentPinning ≤ u.pinnings.length)
    (hbest : 0 ≤ s.bestPinning ∧ s.bestPinning < s.currentPinning ∧ s.bestPerformance.isSome) :
    ∃ t stage, nextPinning u refresh s = some t ∧ InStage u stage t := by
  unfold nextPinning
  split
  · rename_i hlt
    refine ⟨_, .restart, rfl, ⟨?_, ?_, ?_, ?_, ?_, ⟨h0.le, fun _ => hlt, ?_, .inr hbest⟩, ?_⟩⟩
    · simp [hq.initTimer]
    · simp [hq.restarts]
    · simp [hq.warmupTimer]
    · simp [hq.measureTimer]
    · simp [hn]
    · simp
    · simp
  · rename_i hge
    have hrange : (subscript u.pinnings (refreshTasks refresh s).bestPinning).isSome := by
      rw [subscript_isSome_iff]
      simp only [refreshTasks]
      omega
    obtain ⟨best, hb⟩ := Option.isSome_iff_exists.mp hrange
    obtain ⟨host, tids, h, -, -⟩ := applyPinning_spec u best (refreshTasks refresh s)
    simp only [hb, Option.bind_eq_bind, Option.bind_some, h]
    refine ⟨_, .finished, rfl, ⟨?_, ?_, ?_, ?_, ?_, ⟨h0.le, ?_, ?_, .inr hbest⟩, ?_⟩⟩
    · simp [refreshTasks, hq.initTimer]
    · simp [refreshTasks, hq.restarts]
    · simp [refreshTasks, hq.warmupTimer]
    · simp [refreshTasks, hq.measureTimer]
    · simp [refreshTasks, hn]
    · simp
    · intro _
      simp only [refreshTasks]
      omega
    · simp

/-- An event that leaves the timers, the flag and the search alone keeps the stage. -/
theorem InStage.of_data {u : Setup M D} {stage : Stage} {s : State M D} (h : InStage u stage s)
    {probe : Probe M} {ts : List (PinnedTask D)} {tasks : List Int}
    (hm : stage = .measure → ∀ t ∈ ts, Measured t) :
    InStage u stage { s with probe := probe, pinnedTasks := ts, tasks := tasks } :=
  ⟨h.initTimer, h.restarts, h.warmupTimer, h.measureTimer, h.notifications,
    ⟨h.search.nonneg, h.search.under, h.search.past, h.search.best⟩, hm⟩

theorem Admits.measured {u : Setup M D} {tid : Int} {s : State M D} {probe : Probe M}
    {ts : List (PinnedTask D)} (h : Admits u tid s probe ts) (hmeas : s.measureTimer = true)
    (hm : ∀ t ∈ s.pinnedTasks, Measured t) : ∀ t ∈ ts, Measured t := by
  rcases h with ⟨-, rfl⟩ | ⟨-, -, cpu, ⟨-, -, rfl⟩ | ⟨hno, -, -⟩⟩
  · exact hm
  · intro t ht
    rcases List.mem_append.mp ht with ht | ht
    · exact hm t ht
    · rw [List.mem_singleton] at ht
      subst ht
      exact ⟨rfl, rfl, .inl rfl⟩
  · rw [hmeas] at hno
    cases hno

theorem slotTaskTerminated_stage {u : Setup M D} {stage : Stage} {s : State M D} (tid : Int)
    (h : InStage u stage s) : InStage u stage (slotTaskTerminated u tid s) := by
  rcases slotTaskTerminated_cases u tid s with he | ⟨-, -, ⟨-, he⟩ | ⟨hno, he⟩⟩
  · rw [he]
    exact h
  · rw [he]
    refine h.of_data ?_
    intro hst t ht
    rcases mem_updateFirst ht with ht | ⟨t', ht', -, rfl⟩
    · exact h.measured hst t ht
    · exact ⟨(h.measured hst t' ht').start, rfl, .inr rfl⟩
  · rw [he]
    refine h.of_data ?_
    intro hst
    rw [h.measureTimer.mpr hst] at hno
    cases hno

theorem slotPhaseChanged_stage {u : Setup M D} {stage : Stage} {s : State M D} (h : InStage u stage s) :
    ∃ stage', InStage u stage' (slotPhaseChanged s) := by
  unfold slotPhaseChanged
  split
  · rename_i hn
    have hst := h.notifications.mp hn
    have hinit : s.initTimer = false := by
      rw [Bool.eq_false_iff, ne_eq, h.initTimer]
      rcases hst with rfl | rfl <;> simp
    have hrestarts : s.restarts = 0 := by
      rw [h.restarts]
      rcases hst with rfl | rfl <;> simp
    have hunder : s.currentPinning < u.pinnings.length :=
      h.search.under (by rcases hst with rfl | rfl <;> simp)
    refine ⟨.restart, ⟨?_, ?_, ?_, ?_, ?_, ⟨h.search.nonneg, fun _ => hunder, ?_, h.search.best⟩, ?_⟩⟩
    · simp [hinit]
    · simp [hrestarts]
    · simp
    · simp
    · simp
    · simp
    · simp
  · exact ⟨stage, h⟩

/-- The states that a slot called by an expiry sees. -/
theorem InStage.quiescent {u : Setup M D} {stage : Stage} {s : State M D} (h : InStage u stage s) :
    (stage = .init → Quiescent { s with initTimer := false }) ∧
    (stage = .restart → Quiescent { s with restarts := s.restarts - 1 }) ∧
    (stage = .warmup → Quiescent { s with warmupTimer := false }) ∧
    (stage = .measure → Quiescent { s with measureTimer := false }) := by
  obtain ⟨h1, h2, h3, h4, -, -, -⟩ := h
  refine ⟨?_, ?_, ?_, ?_⟩ <;> rintro rfl <;> constructor <;> simp_all

/-- Only the search members matter to `Searching`. -/
theorem InStage.searching {u : Setup M D} {stage : Stage} {s : State M D} (h : InStage u stage s)
    (s' : State M D) (hne : stage ≠ .finished) (hc : s'.currentPinning = s.currentPinning)
    (hb : s'.bestPinning = s.bestPinning) (hp : s'.bestPerformance = s.bestPerformance) :
    Searching u s' False := by
  refine ⟨hc ▸ h.search.nonneg, fun _ => hc ▸ h.search.under hne, False.elim, ?_⟩
  rw [hc, hb, hp]
  exact h.search.best

/-! ## What a step does -/

/-- The event calls `slot_startPinning` in the state `s'`. -/
def Fires (s : State M D) (e : Event) (sc : Scanner) (s' : State M D) : Prop :=
  (e = .initTimeout sc ∧ s.initTimer = true ∧ s' = { s with initTimer := false }) ∨
    (e = .restart sc ∧ 0 < s.restarts ∧ s' = { s with restarts := s.restarts - 1 })

/-- One of the two times has come, and only their timer and queue differ. -/
theorem Fires.due {s s' : State M D} {e : Event} {sc : Scanner} (h : Fires s e sc s') :
    (s.initTimer = true ∨ 0 < s.restarts) ∧
      ∃ initTimer restarts, s' = { s with initTimer := initTimer, restarts := restarts } := by
  rcases h with ⟨-, ht, rfl⟩ | ⟨-, hr, rfl⟩
  · exact ⟨.inl ht, false, s.restarts, rfl⟩
  · exact ⟨.inr hr, s.initTimer, s.restarts - 1, rfl⟩

variable [LT D] [DecidableLT D]

/-- The state after a measurement is one the search can go on from. -/
theorem measuredState_stage {u : Setup M D} (refresh : Scanner) {s : State M D} (hq : Quiescent s)
    (hs : Searching u s False) (probe : Probe M) {current performance : D} {best : Int}
    (hch : Chooses u s current best performance) :
    ∃ t stage, nextPinning u refresh (measuredState s probe current best performance) = some t ∧
      InStage u stage t := by
  obtain ⟨hpos, hle, hbest⟩ := hs.measured hch
  exact nextPinning_stage refresh ⟨hq.initTimer, hq.restarts, hq.warmupTimer, hq.measureTimer⟩ rfl hpos hle
    ⟨hbest.1, hbest.2, rfl⟩

variable [Zero D] [Add D] [Div D] [IntCast D]

/-- What a step can do from a stage. The expiry of a timer that is not running is ignored. -/
inductive Effect (u : Setup M D) (s : State M D) : Event → State M D → Prop
  | ignored {e : Event} (h : (∀ sc, e = .initTimeout sc → s.initTimer = false) ∧
      (∀ sc, e = .restart sc → s.restarts = 0) ∧
      ∀ check sc, e = .measureTimeout check sc → s.measureTimer = false) : Effect u s e s
  | startPinning {e : Event} {sc : Scanner} {s' t : State M D} (hfire : Fires s e sc s')
      (hq : Quiescent s') (hs : Searching u s' False) (h : slotStartPinning u sc s' = some t) :
      Effect u s e t
  | startMonitor {check : Scanner} (hq : Quiescent { s with warmupTimer := false })
      (hs : Searching u { s with warmupTimer := false } False) (hn : s.notifications = true) :
      Effect u s (.warmupTimeout check) (slotStartMonitor u check { s with warmupTimer := false })
  | stopPinning {check refresh : Scanner} {sum current performance : D} {ts : List (PinnedTask D)}
      {probe : Probe M} {best : Int} {t : State M D} (ht : s.measureTimer = true)
      (hq : Quiescent { s with measureTimer := false })
      (hs : Searching u { s with measureTimer := false } False)
      (hread : readTasks u (checkPinned u check s.pinnedTasks s.probe).1 0
        (checkPinned u check s.pinnedTasks s.probe).2 = some (sum, ts, probe))
      (hch : Chooses u { s with measureTimer := false } current best performance)
      (h : nextPinning u refresh (measuredState { s with measureTimer := false } probe current best
        performance) = some t) : Effect u s (.measureTimeout check refresh) t
  | created {tid : Int} {probe : Probe M} {ts : List (PinnedTask D)} {tasks : List Int}
      (hadm : Admits u tid s probe ts) (hsub : tasks.Sublist (s.tasks ++ [tid])) :
      Effect u s (.taskCreated tid) { s with probe := probe, pinnedTasks := ts, tasks := tasks }
  | terminated {tid : Int} : Effect u s (.taskTerminated tid) (slotTaskTerminated u tid s)
  | phaseChanged : Effect u s .phaseChanged (slotPhaseChanged s)

theorem startPinning_effect {u : Setup M D} {s s' : State M D} {e : Event} {sc : Scanner}
    (hfire : Fires s e sc s') (hq : Quiescent s') (hs : Searching u s' False) :
    ∃ t, slotStartPinning u sc s' = some t ∧ Effect u s e t := by
  obtain ⟨t, ht, -⟩ := slotStartPinning_stage sc hq hs
  exact ⟨t, ht, .startPinning hfire hq hs ht⟩

theorem Effect.stage {u : Setup M D} {stage : Stage} {s t : State M D} {e : Event} (h : InStage u stage s)
    (he : Effect u s e t) : ∃ stage', InStage u stage' t := by
  cases he with
  | ignored => exact ⟨stage, h⟩
  | startPinning hfire hq hs hslot =>
    obtain ⟨t', ht', hin⟩ := slotStartPinning_stage _ hq hs
    obtain rfl := Option.some.inj (ht'.symm.trans hslot)
    exact ⟨.warmup, hin⟩
  | startMonitor hq hs hn => exact ⟨.measure, slotStartMonitor_stage _ hq hs hn⟩
  | stopPinning ht hq hs hread hch hnext =>
    obtain ⟨t', stage', ht', hin⟩ := measuredState_stage _ hq hs _ hch
    obtain rfl := Option.some.inj (ht'.symm.trans hnext)
    exact ⟨stage', hin⟩
  | created hadm hsub =>
    exact ⟨stage, h.of_data (fun hst => hadm.measured (h.measureTimer.mpr hst) (h.measured hst))⟩
  | terminated => exact ⟨stage, slotTaskTerminated_stage _ h⟩
  | phaseChanged => exact slotPhaseChanged_stage h

variable [NatCast D]

theorem slotStopPinning_spec (u : Setup M D) (check refresh : Scanner) {s : State M D}
    (hty : u.monitorType ≠ .unknown) (hm : ∀ t ∈ s.pinnedTasks, Measured t)
    (hb : s.bestPinning = -1 ∨ s.bestPerformance.isSome) :
    ∃ (sum : D) (ts : List (PinnedTask D)) (probe : Probe M) (current : D) (best : Int) (performance : D),
      readTasks u (checkPinned u check s.pinnedTasks s.probe).1 0
        (checkPinned u check s.pinnedTasks s.probe).2 = some (sum, ts, probe) ∧
      slotStopPinning u check refresh s =
        nextPinning u refresh (measuredState s probe current best performance) ∧
      Chooses u s current best performance := by
  have hm' : ∀ t ∈ (checkPinned u check s.pinnedTasks s.probe).1, Measured t :=
    fun t ht => hm t ((checkPinned_sublist ..).subset ht)
  obtain ⟨⟨sum, ts, probe⟩, hread⟩ :=
    readTasks_isSome u hm' 0 (checkPinned u check s.pinnedTasks s.probe).2
  obtain ⟨best, performance, hbest, hch⟩ := updateBest_spec u (sum / ((ts.length : Nat) : D))
    (s := { s with notifications := false, pinnedTasks := ts, probe := probe }) hb
  refine ⟨sum, ts, probe, _, best, performance, hread, ?_, hch⟩
  have hread' : readTasks u (checkPinnedTasks u check { s with notifications := false }).pinnedTasks 0
      (checkPinnedTasks u check { s with notifications := false }).probe = some (sum, ts, probe) := hread
  have hbest' : updateBest u (sum / ((ts.length : Nat) : D))
      { checkPinnedTasks u check { s with notifications := false } with
        pinnedTasks := ts, probe := probe } = _ := hbest
  cases hk : u.monitorType with
  | unknown => exact absurd hk hty
  | max =>
    simp only [slotStopPinning, hread', Option.bind_eq_bind, Option.bind_some, hk, hbest']
    rfl
  | min =>
    simp only [slotStopPinning, hread', Option.bind_eq_bind, Option.bind_some, hk, hbest']
    rfl

theorem stopPinning_effect {u : Setup M D} {s : State M D} (check refresh : Scanner)
    (hty : u.monitorType ≠ .unknown) (ht : s.measureTimer = true)
    (hq : Quiescent { s with measureTimer := false })
    (hs : Searching u { s with measureTimer := false } False) (hm : ∀ t ∈ s.pinnedTasks, Measured t) :
    ∃ t, slotStopPinning u check refresh { s with measureTimer := false } = some t ∧
      Effect u s (.measureTimeout check refresh) t := by
  have hb : s.bestPinning = -1 ∨ s.bestPerformance.isSome :=
    hs.best.imp And.right (fun h => h.2.2)
  obtain ⟨sum, ts, probe, current, best, performance, hread, h, hch⟩ :=
    slotStopPinning_spec u check refresh (s := { s with measureTimer := false }) hty hm hb
  obtain ⟨t, -, hnext, -⟩ := measuredState_stage refresh hq hs probe hch
  exact ⟨t, h.trans hnext, .stopPinning ht hq hs hread hch hnext⟩

/-- Every event is handled in every stage. -/
theorem step_effect {u : Setup M D} (hty : u.monitorType ≠ .unknown) {stage : Stage} {s : State M D}
    (h : InStage u stage s) (e : Event) : ∃ t, step u s e = some t ∧ Effect u s e t := by
  have hsearch := h.searching
  cases e with
  | initTimeout refresh =>
    simp only [step]
    split
    · rename_i ht
      have hst := h.initTimer.mp ht
      exact startPinning_effect (.inl ⟨rfl, ht, rfl⟩) (h.quiescent.1 hst)
        (hsearch _ (by simp [hst]) rfl rfl rfl)
    · rename_i ht
      exact ⟨s, rfl, .ignored ⟨fun _ _ => by simpa using ht, by simp, by simp⟩⟩
  | restart refresh =>
    simp only [step]
    split
    · rename_i hr
      have hst : stage = .restart := by
        by_contra hne
        simp [h.restarts, hne] at hr
      exact startPinning_effect (.inr ⟨rfl, hr, rfl⟩) (h.quiescent.2.1 hst)
        (hsearch _ (by simp [hst]) rfl rfl rfl)
    · rename_i hr
      exact ⟨s, rfl, .ignored ⟨by simp, fun _ _ => by omega, by simp⟩⟩
  | warmupTimeout check =>
    simp only [step]
    split
    · rename_i ht
      have hst := h.warmupTimer.mp ht
      exact ⟨_, rfl, .startMonitor (h.quiescent.2.2.1 hst) (hsearch _ (by simp [hst]) rfl rfl rfl)
        (h.notifications.mpr (.inl hst))⟩
    · exact ⟨s, rfl, .ignored ⟨by simp, by simp, by simp⟩⟩
  | measureTimeout check refresh =>
    simp only [step]
    split
    · rename_i ht
      have hst := h.measureTimer.mp ht
      exact stopPinning_effect check refresh hty ht (h.quiescent.2.2.2 hst)
        (hsearch _ (by simp [hst]) rfl rfl rfl) (h.measured hst)
    · rename_i ht
      exact ⟨s, rfl, .ignored ⟨by simp, by simp, fun _ _ _ => by simpa using ht⟩⟩
  | taskCreated tid =>
    have hp : s.notifications = true →
        ∃ pinning, subscript u.pinnings s.currentPinning = some pinning := by
      intro hn
      refine h.search.pinning ?_
      rintro rfl
      simpa using h.notifications.mp hn
    obtain ⟨probe, ts, tasks, hslot, hadm, hsub⟩ := slotTaskCreated_spec u tid hp
    exact ⟨_, hslot, .created hadm hsub⟩
  | taskTerminated tid => exact ⟨_, rfl, .terminated⟩
  | phaseChanged => exact ⟨_, rfl, .phaseChanged⟩

/-! ## Runs -/

/-- Every run is defined, and what admitted steps preserve holds at its end. -/
theorem run_steps {u : Setup M D} {ok : State M D → Event → Prop} (P : State M D → Prop)
    (hty : u.monitorType ≠ .unknown)
    (hstep : ∀ stage s e t, InStage u stage s → step u s e = some t → Effect u s e t → ok s e → P s → P t)
    {stage : Stage} {s : State M D} {es : List Event} (h : InStage u stage s) (hs : P s)
    (hok : Admitted (step u) ok s es) :
    ∃ t stage', run (step u) s es = some t ∧ InStage u stage' t ∧ P t := by
  induction es generalizing stage s with
  | nil => exact ⟨s, stage, rfl, h, hs⟩
  | cons e es ih =>
    obtain ⟨t, ht, he⟩ := step_effect hty h e
    obtain ⟨stage', h'⟩ := he.stage h
    obtain ⟨t', stage'', ht', hin⟩ := ih h' (hstep stage s e t h ht he hok.1 hs) (hok.2 t ht)
    exact ⟨t', stage'', by rw [run_cons, ht, Option.bind_some, ht'], hin⟩

/-- The same where the effects of the steps are enough. -/
theorem run_effect {u : Setup M D} {ok : State M D → Event → Prop} (P : State M D → Prop)
    (hty : u.monitorType ≠ .unknown)
    (hstep : ∀ stage s e t, InStage u stage s → Effect u s e t → ok s e → P s → P t)
    {stage : Stage} {s : State M D} {es : List Event} (h : InStage u stage s) (hs : P s)
    (hok : Admitted (step u) ok s es) :
    ∃ t stage', run (step u) s es = some t ∧ InStage u stage' t ∧ P t :=
  run_steps P hty (fun stage s e t h _ => hstep stage s e t h) h hs hok

/-- The stages that are running or pending, by their timers and the queue. -/
def pending (s : State M D) : List Bool :=
  [s.initTimer, decide (0 < s.restarts), s.warmupTimer, s.measureTimer]

/-- After a successful `init` and one `slot_watchdogReady`, every order of events is handled
without a subscript out of range. At most one timer runs or restart is queued at a time, and
notifications are on exactly while the warm-up or the measure timer runs. -/
theorem run_stage_safe (u : Setup M D) (session : Session M) (es : List Event)
    (hne : u.pinnings ≠ []) (hty : u.monitorType ≠ .unknown) :
    ∃ s, run (step u) (ready session : State M D) es = some s ∧
      (pending s).count true ≤ 1 ∧ s.restarts ≤ 1 ∧
      (s.notifications = true ↔ s.warmupTimer = true ∨ s.measureTimer = true) := by
  obtain ⟨s, stage, hs, hin, -⟩ := run_effect (fun _ => True) hty (fun _ _ _ _ _ _ _ _ => trivial)
    (ready_inStage session hne) trivial (admitted_true _ _ es)
  refine ⟨s, hs, ?_, ?_, ?_⟩
  · have h1 := hin.initTimer
    have h2 := hin.restarts
    have h3 := hin.warmupTimer
    have h4 := hin.measureTimer
    unfold pending
    cases stage <;> simp_all
  · rw [hin.restarts]
    split <;> omega
  · rw [hin.notifications, hin.warmupTimer, hin.measureTimer]

/-- Two pinnings to try, with the random monitor. -/
def twoPinnings : Setup (Random Int) Int where
  kernel := .succeeding
  monitor := Random.monitor .succeeding
  monitorType := .max
  pinnings := [[0], [1]]

/-- A process with one task and no children. -/
def oneTask : Scanner := fun _ => { tree := .ofPid 10 }

theorem twoPinnings_stage_safe :
    ∃ s, run (step twoPinnings) (ready ⟨{}, {}, {}⟩)
        [.initTimeout oneTask, .taskCreated 11, .warmupTimeout oneTask, .phaseChanged] = some s ∧
      (pending s).count true ≤ 1 ∧ s.restarts ≤ 1 ∧
      (s.notifications = true ↔ s.warmupTimer = true ∨ s.measureTimer = true) :=
  run_stage_safe twoPinnings _ _ (by decide) (by decide)

end Autopin1

end AutopinPlus
