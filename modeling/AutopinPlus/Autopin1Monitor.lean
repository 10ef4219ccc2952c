import AutopinPlus.Autopin1Stage
import AutopinPlus.MonitoredTasks

/-!
# How autopin1 uses its monitor

With tracing on, autopin1 starts the monitor for a task when the measurement begins, or
when the task appears during it, and stops it once. `slot_TaskTerminated` stops the
monitor also for a pinned task that ends in the warm-up, or is reported to end twice, so
the protocol holds in the runs in which neither happens.
-/
namespace AutopinPlus

namespace Autopin1

open PartialStep

variable {M D : Type}

/-! ## The protocol -/

def MonitorCall.tid : MonitorCall → Int
  | .start tid => tid
  | .stop tid => tid
  | .clear tid => tid

/-- The last call for the task was a start. -/
def Running (calls : List MonitorCall) (tid : Int) : Prop :=
  (calls.filter (fun c => c.tid = tid)).getLast? = some (.start tid)

/-- The monitor is stopped only for tasks it runs for. -/
def Obeys (calls : List MonitorCall) : Prop :=
  ∀ before tid after, calls = before ++ .stop tid :: after → Running before tid

theorem running_append (calls : List MonitorCall) (c : MonitorCall) (tid : Int) :
    Running (calls ++ [c]) tid ↔ if c.tid = tid then c = .start tid else Running calls tid := by
  unfold Running
  by_cases h : c.tid = tid <;> simp [h, List.filter_append]

theorem obeys_append (calls : List MonitorCall) (c : MonitorCall) :
    Obeys (calls ++ [c]) ↔ Obeys calls ∧ ∀ tid, c = .stop tid → Running calls tid := by
  constructor
  · intro h
    refine ⟨fun before tid after hc => h before tid (after ++ [c]) (by simp [hc]), ?_⟩
    rintro tid rfl
    exact h calls tid [] rfl
  · rintro ⟨h, hc⟩ before tid after heq
    rcases List.eq_nil_or_concat after with rfl | ⟨after', c', rfl⟩
    · obtain ⟨rfl, hcc⟩ := List.append_inj' heq rfl
      exact hc tid (by simpa using hcc)
    · have heq' : calls ++ [c] = (before ++ .stop tid :: after') ++ [c'] := by simpa using heq
      exact h before tid after' (List.append_inj' heq' rfl).1

theorem running_start (u : Setup M D) (p : Probe M) (tid x : Int) :
    Running (p.start u tid).calls x ↔ x = tid ∨ Running p.calls x := by
  simp only [Probe.start, running_append, MonitorCall.tid, MonitorCall.start.injEq]
  by_cases h : tid = x
  · simp [h]
  · simp [h, Ne.symm h]

theorem running_stop (u : Setup M D) (p : Probe M) (tid x : Int) :
    Running (p.stop u tid).2.calls x ↔ Running p.calls x ∧ x ≠ tid := by
  simp only [Probe.stop, running_append, MonitorCall.tid]
  by_cases h : tid = x
  · simp [h]
  · simp [h, Ne.symm h]

/-- A property of the monitor and its context that the calls autopin1 makes keep, as long as it
stops only tasks the monitor runs for. -/
structure Kept (u : Setup M D) (Good : Probe M → Prop) : Prop where
  start : ∀ p tid, Good p → Good (p.start u tid)
  stop : ∀ p tid, Good p → Running p.calls tid → Good (p.stop u tid).2
  host : ∀ (p : Probe M) (host : Host), Good p → Good { p with session.host := host }
  scan : ∀ (p : Probe M) (sc : Scanner), Good p → Good (scan sc p).2

theorem Kept.elapsed {u : Setup M D} {Good : Probe M → Prop} (hk : Kept u Good) {p : Probe M}
    (hp : Good p) : Good (p.elapsed u).2 :=
  hk.host p _ hp

theorem obeys_kept (u : Setup M D) : Kept u (fun p => Obeys p.calls) where
  start p tid h := (obeys_append _ _).mpr ⟨h, fun _ hc => by cases hc⟩
  stop p tid h hr := (obeys_append _ _).mpr ⟨h, fun x hc => by cases hc; exact hr⟩
  host _ _ h := h
  scan _ _ h := h

theorem scan_spared {c : AutopinContext} (h : c.Spared) (sc : Scan) :
    (sc.report c).Spared ∧ ((sc.report c).isError = false → c.isError = false) := by
  obtain ⟨tree, reports⟩ := sc
  induction reports generalizing c with
  | nil => exact ⟨h, id⟩
  | cons r rs ih =>
    obtain ⟨hspared, herr⟩ := ih (h.report r.2 (fun hv => by simp at hv) : (c.report .system r.1 r.2).Spared)
    refine ⟨hspared, fun he => ?_⟩
    have := herr he
    rw [AutopinContext.report_isError, Bool.or_eq_false_iff] at this
    exact this.2

/-- No failed `value` has led to the error state; outside it the monitor watches the tasks it
runs for. -/
structure Watching (u : Setup M D) (p : Probe M) : Prop where
  spared : p.session.context.Spared
  watched : p.session.context.isError = false →
    ∀ x, Running p.calls x → x ∈ u.monitor.getMonitoredTasks p.session.self

theorem watching_kept {u : Setup M D} (hu : u.monitor.PerTask) : Kept u (Watching u) where
  start p tid h := by
    obtain ⟨hspared, hx⟩ := hu.start tid p.session h.spared
    refine ⟨hspared, fun he x hrun => ?_⟩
    obtain ⟨herr, hmem⟩ := hx he
    refine hmem x ?_
    rcases (running_start u p tid x).mp hrun with rfl | hold
    · exact .inl rfl
    · exact .inr (h.watched herr x hold)
  stop p tid h hr := by
    obtain ⟨hspared, hx⟩ := hu.stop tid p.session h.spared (fun he => h.watched he tid hr)
    refine ⟨hspared, fun he x hrun => ?_⟩
    obtain ⟨herr, hmem⟩ := hx he
    obtain ⟨hold, hne⟩ := (running_stop u p tid x).mp hrun
    exact hmem x (h.watched herr x hold) hne
  host _ _ h := ⟨h.spared, h.watched⟩
  scan p sc h := by
    obtain ⟨hspared, herr⟩ := scan_spared h.spared (sc p.session.context)
    exact ⟨hspared, fun he => h.watched (herr he)⟩

/-! ## The loops -/

/-- The tasks whose measurement is going on. -/
def Measuring (ts : List (PinnedTask D)) (x : Int) : Prop := ∃ t ∈ ts, t.tid = x ∧ t.stop = some (-1)

theorem measuring_cons (t : PinnedTask D) (ts : List (PinnedTask D)) (x : Int) :
    Measuring (t :: ts) x ↔ (t.tid = x ∧ t.stop = some (-1)) ∨ Measuring ts x := by
  simp [Measuring]

theorem map_tid_startTasks (u : Setup M D) (ts : List (PinnedTask D)) (p : Probe M) :
    (startTasks u ts p).1.map PinnedTask.tid = ts.map PinnedTask.tid := by
  induction ts generalizing p with
  | nil => rfl
  | cons t ts ih =>
    rw [startTasks, List.map_cons, List.map_cons, ih]

theorem startTasks_spec {u : Setup M D} {Good : Probe M → Prop} (hk : Kept u Good)
    (ts : List (PinnedTask D)) {p : Probe M} (hp : Good p) :
    Good (startTasks u ts p).2 ∧
      ∀ x, Measuring (startTasks u ts p).1 x ∨ Running p.calls x →
        Running (startTasks u ts p).2.calls x := by
  induction ts generalizing p with
  | nil => exact ⟨hp, fun x hx => by simpa [startTasks, Measuring] using hx⟩
  | cons t ts ih =>
    obtain ⟨hgood, hrun⟩ := ih (hk.elapsed (hk.start p t.tid hp))
    refine ⟨hgood, ?_⟩
    intro x hx
    rw [startTasks, measuring_cons] at hx
    have hstart : Running ((p.start u t.tid).elapsed u).2.calls x ↔ x = t.tid ∨ Running p.calls x :=
      running_start u p t.tid x
    refine hrun x ?_
    rw [hstart]
    rcases hx with (⟨rfl, -⟩ | hx) | hx
    · exact .inr (.inl rfl)
    · exact .inl hx
    · exact .inr (.inr hx)

theorem readTask_spec [Div D] [IntCast D] {u : Setup M D} {Good : Probe M → Prop} (hk : Kept u Good)
    {t t' : PinnedTask D} {p p' : Probe M} {r : D} (hp : Good p)
    (hrun : t.stop = some (-1) → Running p.calls t.tid) (h : readTask u t p = some (r, t', p')) :
    Good p' ∧ ∀ x, Running p.calls x → x ≠ t.tid → Running p'.calls x := by
  obtain ⟨stop, hstop, h⟩ := Option.bind_eq_some_iff.mp h
  split at h
  · rename_i hneg
    rw [hneg] at hstop
    obtain ⟨start, -, h⟩ := Option.bind_eq_some_iff.mp h
    cases h
    refine ⟨hk.stop _ t.tid (hk.elapsed hp) (hrun hstop), ?_⟩
    intro x hx hne
    exact (running_stop u (p.elapsed u).2 t.tid x).mpr ⟨hx, hne⟩
  · obtain ⟨tres, -, h⟩ := Option.bind_eq_some_iff.mp h
    obtain ⟨start, -, h⟩ := Option.bind_eq_some_iff.mp h
    cases h
    exact ⟨hp, fun x hx _ => hx⟩

/-- The loop of `slot_stopPinning` stops only tasks that are being measured. -/
theorem readTasks_spec [Add D] [Div D] [IntCast D] {u : Setup M D} {Good : Probe M → Prop}
    (hk : Kept u Good) {ts ts' : List (PinnedTask D)} {p p' : Probe M} {sum sum' : D} (hp : Good p)
    (hnodup : (ts.map PinnedTask.tid).Nodup) (hrun : ∀ x, Measuring ts x → Running p.calls x)
    (h : readTasks u ts sum p = some (sum', ts', p')) : Good p' := by
  induction ts generalizing p sum ts' with
  | nil =>
    cases h
    exact hp
  | cons t ts ih =>
    obtain ⟨⟨r, t', p₁⟩, hread, h⟩ := Option.bind_eq_some_iff.mp h
    obtain ⟨⟨sum₁, ts₁, p₂⟩, hrest, h⟩ := Option.bind_eq_some_iff.mp h
    cases h
    rw [List.map_cons] at hnodup
    obtain ⟨htid, hnodup'⟩ := List.nodup_cons.mp hnodup
    obtain ⟨hgood, hrun₁⟩ := readTask_spec hk hp
      (fun hs => hrun t.tid ((measuring_cons t ts _).mpr (.inl ⟨rfl, hs⟩))) hread
    refine ih hgood hnodup' ?_ hrest
    intro x hx
    refine hrun₁ x (hrun x ((measuring_cons t ts x).mpr (.inr hx))) ?_
    rintro rfl
    obtain ⟨t₂, ht₂, heq, -⟩ := hx
    exact htid (List.mem_map.mpr ⟨t₂, ht₂, heq⟩)

theorem map_tid_updateFirst (tid : Int) (f : PinnedTask D → PinnedTask D) (hf : ∀ t, (f t).tid = t.tid)
    (ts : List (PinnedTask D)) :
    (updateFirst tid f ts).map PinnedTask.tid = ts.map PinnedTask.tid := by
  induction ts with
  | nil => rfl
  | cons t ts ih =>
    rw [updateFirst]
    split
    · simp [hf]
    · simp [ih]

/-- Marking the only entry of a task as stopped. -/
theorem measuring_updateFirst {tid : Int} {f : PinnedTask D → PinnedTask D} {ts : List (PinnedTask D)}
    {x : Int} (h : Measuring (updateFirst tid f ts) x) (hstop : ∀ t, (f t).stop ≠ some (-1))
    (hnodup : (ts.map PinnedTask.tid).Nodup) : Measuring ts x ∧ x ≠ tid := by
  induction ts with
  | nil => simp [updateFirst, Measuring] at h
  | cons t ts ih =>
    rw [List.map_cons] at hnodup
    obtain ⟨htid, hnodup'⟩ := List.nodup_cons.mp hnodup
    rw [updateFirst] at h
    split at h
    · rename_i ht
      rcases (measuring_cons _ _ _).mp h with ⟨-, hs⟩ | h
      · exact absurd hs (hstop t)
      · refine ⟨(measuring_cons _ _ _).mpr (.inr h), ?_⟩
        rintro rfl
        obtain ⟨t₂, ht₂, heq, -⟩ := h
        exact htid (List.mem_map.mpr ⟨t₂, ht₂, heq.trans ht.symm⟩)
    · rename_i ht
      rcases (measuring_cons _ _ _).mp h with ⟨rfl, hs⟩ | h
      · exact ⟨(measuring_cons _ _ _).mpr (.inl ⟨rfl, hs⟩), ht⟩
      · obtain ⟨hold, hne⟩ := ih h hnodup'
        exact ⟨(measuring_cons _ _ _).mpr (.inr hold), hne⟩

/-! ## Steps -/

/-- The monitor runs for the tasks being measured, and none is listed twice. -/
structure Metered (Good : Probe M → Prop) (s : State M D) : Prop where
  good : Good s.probe
  nodup : (s.pinnedTasks.map PinnedTask.tid).Nodup
  cleared : s.initTimer = true ∨ 0 < s.restarts → s.pinnedTasks = []
  running : s.measureTimer = true → ∀ x, Measuring s.pinnedTasks x → Running s.probe.calls x

/-- The end of a pinned task is reported during the measurement, and only once. -/
def InTime (s : State M D) : Event → Prop
  | .taskTerminated tid => s.notifications = true → ∀ t ∈ s.pinnedTasks, t.tid = tid →
      s.measureTimer = true ∧ t.stop = some (-1)
  | _ => True

variable {u : Setup M D} {Good : Probe M → Prop}

theorem map_tid_unread (tids : List Int) :
    ((tids.map unread : List (PinnedTask D))).map PinnedTask.tid = tids := by
  simp [unread, Function.comp_def]

theorem scan_nodup (sc : Scanner) (p : Probe M) {tids : List Int}
    (h : tids.Sublist (scan sc p).1.elems) : tids.Nodup :=
  h.nodup (SortedSet.elems_nodup _)

theorem slotStartPinning_metered (hk : Kept u Good) (sc : Scanner) {s t : State M D} (hq : Quiescent s)
    (hsearch : Searching u s False) (hgood : Good s.probe) (hnil : s.pinnedTasks = [])
    (h : slotStartPinning u sc s = some t) : Metered Good t := by
  obtain ⟨pinning, hp⟩ := hsearch.pinning id
  obtain ⟨host, tids, hslot, hsub, -⟩ := slotStartPinning_spec u sc hp
  obtain rfl := Option.some.inj (hslot.symm.trans h)
  refine ⟨hk.host _ _ (hk.scan _ sc hgood), ?_, ?_, ?_⟩
  · rw [hnil, List.nil_append, map_tid_unread]
    exact scan_nodup sc _ hsub
  · simp [hq.initTimer, hq.restarts]
  · simp [hq.measureTimer]

theorem checkPinned_trace (htrace : u.trace = true) (sc : Scanner) (ts : List (PinnedTask D))
    (p : Probe M) : checkPinned u sc ts p = (ts, p) := by
  simp [checkPinned, htrace]

theorem slotStartMonitor_metered (hk : Kept u Good) (htrace : u.trace = true) (sc : Scanner)
    {s : State M D} (hq : Quiescent s) (hgood : Good s.probe)
    (hnodup : (s.pinnedTasks.map PinnedTask.tid).Nodup) : Metered Good (slotStartMonitor u sc s) := by
  have hcheck : checkPinnedTasks u sc s = s := by simp [checkPinnedTasks, checkPinned_trace htrace]
  have hmap := map_tid_startTasks u s.pinnedTasks s.probe
  obtain ⟨hgood', hrun⟩ := startTasks_spec hk s.pinnedTasks hgood
  rw [slotStartMonitor, hcheck]
  refine ⟨hgood', hmap ▸ hnodup, ?_, fun _ x hx => hrun x (.inl hx)⟩
  simp [hq.initTimer, hq.restarts]

theorem nextPinning_metered (hk : Kept u Good) (refresh : Scanner) {s t : State M D}
    (hq : Quiescent s) (hgood : Good s.probe) (hnil : s.pinnedTasks = [])
    (h : nextPinning u refresh s = some t) : Metered Good t := by
  unfold nextPinning at h
  split at h
  · cases h
    exact ⟨hgood, by simp [hnil], fun _ => hnil, by simp [hq.measureTimer]⟩
  · obtain ⟨best, -, h⟩ := Option.bind_eq_some_iff.mp h
    obtain ⟨host, tids, happly, hsub, -⟩ := applyPinning_spec u best (refreshTasks refresh s)
    obtain rfl := Option.some.inj (happly.symm.trans h)
    refine ⟨hk.host _ _ (hk.scan _ refresh hgood), ?_, ?_, ?_⟩
    · simp only [refreshTasks, hnil, List.nil_append, map_tid_unread]
      exact scan_nodup refresh _ hsub
    · simp [refreshTasks, hq.initTimer, hq.restarts]
    · simp [refreshTasks, hq.measureTimer]

theorem Admits.metered (hk : Kept u Good) {tid : Int} {s : State M D} {probe : Probe M}
    {ts : List (PinnedTask D)} {tasks : List Int} (hs : Metered Good s)
    (hidle : s.notifications = true → s.initTimer = false ∧ s.restarts = 0)
    (h : Admits u tid s probe ts) :
    Metered Good { s with probe := probe, pinnedTasks := ts, tasks := tasks } := by
  rcases h with ⟨rfl, rfl⟩ | ⟨hn, hnew, cpu, hcase⟩
  · exact ⟨hs.good, hs.nodup, hs.cleared, hs.running⟩
  · obtain ⟨hinit, hrestarts⟩ := hidle hn
    have hnodup : ∀ t : PinnedTask D, t.tid = tid →
        ((s.pinnedTasks ++ [t]).map PinnedTask.tid).Nodup := by
      intro t ht
      rw [List.map_append, List.map_singleton, ht]
      refine List.nodup_append.mpr ⟨hs.nodup, by simp, ?_⟩
      intro a ha b hb hab
      obtain ⟨t₂, ht₂, rfl⟩ := List.mem_map.mp ha
      rw [List.mem_singleton] at hb
      exact hnew t₂ ht₂ (hab.trans hb)
    have hcleared : s.initTimer = true ∨ 0 < s.restarts → ts = [] := by
      simp [hinit, hrestarts]
    rcases hcase with ⟨hmeas, rfl, rfl⟩ | ⟨hmeas, rfl, rfl⟩
    · refine ⟨hk.elapsed (hk.start _ tid (hk.host _ _ hs.good)), hnodup _ rfl, hcleared, ?_⟩
      rintro - x ⟨t, ht, htid, hstop⟩
      refine (running_start u (s.probe.setAffinity u tid cpu) tid x).mpr ?_
      rcases List.mem_append.mp ht with ht | ht
      · exact .inr (hs.running hmeas x ⟨t, ht, htid, hstop⟩)
      · rw [List.mem_singleton] at ht
        exact .inl (htid.symm.trans (congrArg PinnedTask.tid ht))
    · exact ⟨hk.host _ _ hs.good, hnodup _ rfl, hcleared, by simp [hmeas]⟩

theorem slotTaskTerminated_metered (hk : Kept u Good) (helapsed : ∀ n, 0 ≤ u.kernel.elapsed n)
    {tid : Int} {s : State M D} (hs : Metered Good s)
    (hidle : s.notifications = true → s.initTimer = false ∧ s.restarts = 0)
    (hin : InTime s (.taskTerminated tid)) : Metered Good (slotTaskTerminated u tid s) := by
  rcases slotTaskTerminated_cases u tid s with he | ⟨hn, ⟨t, ht, htid⟩, ⟨hmeas, he⟩ | ⟨hmeas, -⟩⟩
  · rw [he]
    exact hs
  · obtain ⟨hinit, hrestarts⟩ := hidle hn
    have hrun : Running s.probe.calls tid :=
      hs.running hmeas tid ⟨t, ht, htid, (hin hn t ht htid).2⟩
    have hms : ((s.probe.stop u tid).2.elapsed u).1 ≠ -1 := by
      have := helapsed (s.probe.stop u tid).2.session.host.clock
      simp only [Probe.elapsed, Host.elapsed]
      omega
    rw [he]
    refine ⟨hk.elapsed (hk.stop _ tid hs.good hrun), ?_, by simp [hinit, hrestarts], ?_⟩
    · have htids := map_tid_updateFirst tid (fun t : PinnedTask D => { t with
        stop := some ((s.probe.stop u tid).2.elapsed u).1, result := some (s.probe.stop u tid).1 })
        (fun _ => rfl) s.pinnedTasks
      exact htids ▸ hs.nodup
    · intro _ x hx
      obtain ⟨hold, hne⟩ := measuring_updateFirst hx (fun _ h => hms (Option.some.inj h)) hs.nodup
      exact (running_stop u s.probe tid x).mpr ⟨hs.running hmeas x hold, hne⟩
  · exact absurd (hin hn t ht htid).1 (by simp [hmeas])

theorem slotPhaseChanged_metered {s : State M D} (hs : Metered Good s) :
    Metered Good (slotPhaseChanged s) := by
  unfold slotPhaseChanged
  split
  · exact ⟨hs.good, by simp, fun _ => rfl, by simp⟩
  · exact hs

theorem InStage.idle {stage : Stage} {s : State M D} (h : InStage u stage s)
    (hn : s.notifications = true) : s.initTimer = false ∧ s.restarts = 0 := by
  have hst := h.notifications.mp hn
  have hinit := h.initTimer
  rw [h.restarts]
  rcases hst with rfl | rfl <;> simp_all

variable [Zero D] [Add D] [Div D] [IntCast D] [LT D] [DecidableLT D]

theorem Effect.metered (hk : Kept u Good) (htrace : u.trace = true) (helapsed : ∀ n, 0 ≤ u.kernel.elapsed n)
    {stage : Stage} {s t : State M D} {e : Event} (h : InStage u stage s) (he : Effect u s e t)
    (hin : InTime s e) (hs : Metered Good s) : Metered Good t := by
  cases he with
  | ignored => exact hs
  | startPinning hfire hq hsearch hslot =>
    obtain ⟨hdue, initTimer, restarts, rfl⟩ := hfire.due
    exact slotStartPinning_metered hk _ hq hsearch hs.good (hs.cleared hdue) hslot
  | startMonitor hq => exact slotStartMonitor_metered hk htrace _ hq hs.good hs.nodup
  | stopPinning ht hq hsearch hread hch hnext =>
    rw [checkPinned_trace htrace] at hread
    have hgood := readTasks_spec hk hs.good hs.nodup (hs.running ht) hread
    refine nextPinning_metered hk _ ?_ ?_ ?_ hnext
    · exact ⟨hq.initTimer, hq.restarts, hq.warmupTimer, hq.measureTimer⟩
    · exact hgood
    · rfl
  | created hadm => exact hadm.metered hk hs h.idle
  | terminated => exact slotTaskTerminated_metered hk helapsed hs h.idle hin
  | phaseChanged => exact slotPhaseChanged_metered hs

/-! ## Runs -/

variable [NatCast D]

theorem run_metered (hk : Kept u Good) (hne : u.pinnings ≠ []) (hty : u.monitorType ≠ .unknown)
    (htrace : u.trace = true) (helapsed : ∀ n, 0 ≤ u.kernel.elapsed n) {session : Session M}
    (hgood : Good ⟨session, []⟩) {es : List Event} (hin : Admitted (step u) InTime (ready session) es) :
    ∃ s : State M D, run (step u) (ready session) es = some s ∧ Good s.probe := by
  have hready : Metered Good (ready session : State M D) :=
    ⟨hgood, List.nodup_nil, fun _ => rfl, fun hm => by cases hm⟩
  obtain ⟨s, -, hs, -, hmetered⟩ := run_effect (Metered Good) hty
    (fun _ _ _ _ h he hin hs => he.metered hk htrace helapsed h hin hs) (ready_inStage session hne)
    hready hin
  exact ⟨s, hs, hmetered.good⟩

variable [Mul D]

/-- With tracing on, in every run in which the end of a pinned task is reported during a
measurement and only once, the monitor is stopped only for tasks it was started for after the
last stop or clear. The GPerf and the random monitor then never cause the error state with a
failed `value`. -/
theorem run_obeys (u : Setup M D) (session : Session M) (es : List Event)
    (hne : u.pinnings ≠ []) (hty : u.monitorType ≠ .unknown) (htrace : u.trace = true)
    (helapsed : ∀ n, 0 ≤ u.kernel.elapsed n) (hin : Admitted (step u) InTime (ready session) es) :
    ∃ s, run (step u) (ready session : State M D) es = some s ∧ Obeys s.probe.calls ∧
      (GPerfOrRandom u.kernel u.monitor → session.context.isError = false → session.context.cause = none →
        s.probe.session.context.cause ≠ some (.monitor, "value")) := by
  have hobeys : Obeys (⟨session, []⟩ : Probe M).calls := by
    intro before tid after he
    simp at he
  obtain ⟨s, h, hs⟩ := run_metered (obeys_kept u) hne hty htrace helapsed hobeys hin
  refine ⟨s, h, hs, ?_⟩
  intro hu herr hcause
  have hstart : Watching u ⟨session, []⟩ :=
    ⟨⟨by simp [herr, hcause], by simp [hcause]⟩, fun _ x hx => by simp [Running] at hx⟩
  obtain ⟨s', h', hwatch⟩ := run_metered (watching_kept hu.perTask) hne hty htrace helapsed hstart hin
  obtain rfl := Option.some.inj (h'.symm.trans h)
  exact hwatch.spared.cause

/-- `twoPinnings` with process tracing. -/
def tracedPinnings : Setup (Random Int) Int := { twoPinnings with trace := true }

/-- The task ends while it is measured. -/
theorem tracedPinnings_obeys :
    ∃ s, run (step tracedPinnings) (ready ⟨{}, {}, {}⟩)
        [.initTimeout oneTask, .warmupTimeout oneTask, .taskTerminated 10] = some s ∧
      Obeys s.probe.calls ∧ s.probe.session.context.cause ≠ some (.monitor, "value") := by
  have hin : Admitted (step tracedPinnings) InTime (ready ⟨{}, {}, {}⟩)
      [.initTimeout oneTask, .warmupTimeout oneTask, .taskTerminated 10] := by
    refine ⟨trivial, fun s hs => ⟨trivial, fun t ht => ⟨?_, fun _ _ => trivial⟩⟩⟩
    obtain rfl := Option.some.inj hs
    obtain rfl := Option.some.inj ht
    intro _ t ht _
    obtain rfl := List.mem_singleton.mp ht
    exact ⟨rfl, rfl⟩
  obtain ⟨s, hs, hobeys, hcause⟩ := run_obeys tracedPinnings _ _ (by decide) (by decide) rfl
    (fun n => Int.natCast_nonneg n) hin
  exact ⟨s, hs, hobeys, hcause .random rfl rfl⟩

/-- The task ends in the warm-up: its monitor is stopped before it was started, which is
reported as a failed `value`. -/
theorem tracedPinnings_warmup_end :
    ∃ s, run (step tracedPinnings) (ready ⟨{}, {}, {}⟩) [.initTimeout oneTask, .taskTerminated 10] =
        some s ∧ ¬ Obeys s.probe.calls ∧
      s.probe.session.context.isError = true ∧
      s.probe.session.context.cause = some (.monitor, "value") := by
  refine ⟨_, rfl, ?_, rfl, rfl⟩
  intro h
  have := h [] 10 [] rfl
  simp [Running] at this

end Autopin1

end AutopinPlus
