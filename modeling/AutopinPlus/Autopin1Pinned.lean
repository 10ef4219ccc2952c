import AutopinPlus.Autopin1Round

/-!
# Tasks actually pinned to cores

`setAffinity` returns what `sched_setaffinity` returns. `ControlStrategy::changePinning`
looks at it, autopin1 does not: a task is listed in `pinned_tasks`, and measured for the
pinning under test, also where the call for it failed. So the list says what its comment
says exactly in the runs in which no call fails.
-/
namespace AutopinPlus

namespace Host

/-- The last `setAffinity` call for a tid, with its return value. -/
def lastCall (h : Host) (tid : Int) : Option AffinityCall := h.affinity.find? (fun c => c.tid = tid)

theorem lastCall_append_of_mem {h h' : Host} {calls : List AffinityCall} {c : AffinityCall}
    (hh : h'.affinity = calls ++ h.affinity) (hnodup : (calls.map AffinityCall.tid).Nodup) (hc : c ∈ calls) :
    h'.lastCall c.tid = some c := by
  rw [lastCall, hh]
  clear hh
  induction calls with
  | nil => cases hc
  | cons d calls ih =>
    rw [List.map_cons] at hnodup
    obtain ⟨hd, hnodup'⟩ := List.nodup_cons.mp hnodup
    rcases List.mem_cons.mp hc with rfl | hc
    · simp
    · have hne : d.tid ≠ c.tid := fun he => hd (List.mem_map.mpr ⟨c, hc, he.symm⟩)
      rw [List.cons_append, List.find?_cons_of_neg (by simpa using hne)]
      exact ih hnodup' hc

theorem lastCall_append_of_not_mem {h h' : Host} {calls : List AffinityCall} {tid : Int}
    (hh : h'.affinity = calls ++ h.affinity) (htid : tid ∉ calls.map AffinityCall.tid) :
    h'.lastCall tid = h.lastCall tid := by
  have hnone : calls.find? (fun c => c.tid = tid) = none := by
    rw [List.find?_eq_none]
    intro c hc he
    exact htid (List.mem_map.mpr ⟨c, hc, by simpa using he⟩)
  rw [lastCall, hh, List.find?_append, hnone]
  rfl

end Host

namespace Autopin1

open PartialStep

variable {M D : Type} {u : Setup M D}

/-- The last call for each task in `pinned_tasks` was to a core of the pinning under test, and
succeeded. -/
def ReallyPinned (s : State M D) : Prop :=
  ∀ x ∈ pinnedTids s, ∃ c, s.probe.session.host.lastCall x = some c ∧ c.cpu ∈ underTest s ∧ c.ret = 0

/-! ## The calls of a step -/

/-- The calls of a step are for different tasks, which it leaves listed; a listed task it makes no call
for was listed under the same pinning. -/
structure NewCalls (s t : State M D) (calls : List AffinityCall) : Prop where
  affinity : t.probe.session.host.affinity = calls ++ s.probe.session.host.affinity
  nodup : (calls.map AffinityCall.tid).Nodup
  listed : ∀ c ∈ calls, c.tid ∈ pinnedTids t ∧ c.cpu ∈ underTest t
  kept : ∀ x ∈ pinnedTids t, x ∈ calls.map AffinityCall.tid ∨ (x ∈ pinnedTids s ∧ underTest t = underTest s)

/-- The listed tasks are really pinned after a step exactly if its calls succeed. -/
theorem NewCalls.reallyPinned_iff {s t : State M D} {calls : List AffinityCall} (h : NewCalls s t calls)
    (hs : ReallyPinned s) : ReallyPinned t ↔ ∀ c ∈ calls, c.ret = 0 := by
  constructor
  · intro ht c hc
    obtain ⟨d, hd, -, hret⟩ := ht c.tid (h.listed c hc).1
    rw [Host.lastCall_append_of_mem h.affinity h.nodup hc] at hd
    exact Option.some.inj hd ▸ hret
  · intro hcalls x hx
    by_cases hmem : x ∈ calls.map AffinityCall.tid
    · obtain ⟨c, hc, rfl⟩ := List.mem_map.mp hmem
      exact ⟨c, Host.lastCall_append_of_mem h.affinity h.nodup hc, (h.listed c hc).2, hcalls c hc⟩
    · obtain ⟨hold, htest⟩ := (h.kept x hx).resolve_left hmem
      obtain ⟨c, hc, hcpu, hret⟩ := hs x hold
      refine ⟨c, ?_, htest ▸ hcpu, hret⟩
      rw [Host.lastCall_append_of_not_mem h.affinity hmem]
      exact hc

/-- A step without calls takes tasks from the list at most, and applies no pinning. -/
theorem NewCalls.none {s t : State M D} (haff : t.probe.session.host.affinity = s.probe.session.host.affinity)
    (htids : pinnedTids t ⊆ pinnedTids s) (happlied : t.applied = s.applied) : NewCalls s t [] := by
  refine ⟨haff, List.nodup_nil, by simp, fun x hx => .inr ⟨htids hx, ?_⟩⟩
  rw [underTest, happlied, underTest]

/-- The calls of `applyPinning` are for the tasks it lists, in their order, and to cores of the pinning. -/
theorem applyPinning_calls {pinning : List Int} {s t : State M D} (h : applyPinning u pinning s = some t) :
    ∃ calls : List AffinityCall,
      t.probe.session.host.affinity = calls ++ s.probe.session.host.affinity ∧
      pinnedTids t = pinnedTids s ++ (calls.map AffinityCall.tid).reverse ∧ ∀ c ∈ calls, c.cpu ∈ pinning := by
  obtain ⟨acc, hrun, rfl⟩ := Option.map_eq_some_iff.mp h
  refine foldlM_invariant (fun acc : Nat × State M D => ∃ calls : List AffinityCall,
    acc.2.probe.session.host.affinity = calls ++ s.probe.session.host.affinity ∧
    pinnedTids acc.2 = pinnedTids s ++ (calls.map AffinityCall.tid).reverse ∧ ∀ c ∈ calls, c.cpu ∈ pinning)
    _ ?_ ⟨[], rfl, by simp [pinnedTids], by simp⟩ hrun
  rintro acc j acc' - ⟨calls, haff, htids, hcpus⟩ hnext
  unfold pinNext at hnext
  split at hnext
  · cases hnext
    exact ⟨calls, haff, htids, hcpus⟩
  · split at hnext
    · cases hnext
      exact ⟨calls, haff, htids, hcpus⟩
    · split at hnext
      · cases hnext
        exact ⟨calls, haff, htids, hcpus⟩
      · obtain ⟨tid, -, hnext⟩ := Option.bind_eq_some_iff.mp hnext
        obtain ⟨cpu, hcpu, hnext⟩ := Option.bind_eq_some_iff.mp hnext
        cases hnext
        refine ⟨⟨tid, cpu, (acc.2.probe.session.host.setAffinity u.kernel tid cpu).1⟩ :: calls, ?_, ?_, ?_⟩
        · simp only [pin, Probe.setAffinity, Host.setAffinity_affinity, haff, List.cons_append]
        · have hpin : pinnedTids (pin u tid cpu acc.2) = pinnedTids acc.2 ++ [tid] := by simp [pinnedTids, pin]
          rw [hpin, htids]
          simp
        · exact List.forall_mem_cons.mpr ⟨List.mem_of_getElem? hcpu, hcpus⟩

theorem applyPinning_newCalls {pinning : List Int} {s t : State M D} (hnil : s.pinnedTasks = [])
    (hnodup : s.tasks.Nodup) (h : applyPinning u pinning s = some t) : ∃ calls, NewCalls s t calls := by
  obtain ⟨calls, haff, htids, hcpus⟩ := applyPinning_calls h
  have hlisted : pinnedTids t = (calls.map AffinityCall.tid).reverse := by simpa [pinnedTids, hnil] using htids
  obtain ⟨host, tids, happly, hsub, -⟩ := applyPinning_spec u pinning s
  have ht := Option.some.inj (happly.symm.trans h)
  have htest : underTest t = pinning := underTest_append s pinning (ht ▸ rfl)
  have hsame : pinnedTids t = tids := by
    rw [← ht, pinnedTids, hnil, List.nil_append, map_tid_unread]
  refine ⟨calls, haff, ?_, ?_, ?_⟩
  · rw [← List.nodup_reverse, ← hlisted, hsame]
    exact hsub.nodup hnodup
  · intro c hc
    refine ⟨?_, htest ▸ hcpus c hc⟩
    rw [hlisted, List.mem_reverse]
    exact List.mem_map_of_mem hc
  · intro x hx
    rw [hlisted, List.mem_reverse] at hx
    exact .inl hx

/-! ## Steps -/

/-- The list is empty before a pinning is applied, and while signals are looked at the pinning under test
is the current one. -/
structure InRound (u : Setup M D) (s : State M D) : Prop where
  cleared : s.initTimer = true ∨ 0 < s.restarts → s.pinnedTasks = []
  current : s.notifications = true → subscript u.pinnings s.currentPinning = some (underTest s)

theorem slotStartPinning_calls {sc : Scanner} {s t : State M D} (hq : Quiescent s)
    (hsearch : Searching u s False) (hnil : s.pinnedTasks = []) (h : slotStartPinning u sc s = some t) :
    (∃ calls, NewCalls s t calls) ∧ InRound u t := by
  obtain ⟨pinning, hp⟩ := hsearch.pinning id
  obtain ⟨t', ht', rfl⟩ := Option.map_eq_some_iff.mp ((slotStartPinning_eq hp).symm.trans h)
  obtain ⟨calls, hcalls⟩ := applyPinning_newCalls (s := { refreshTasks sc s with notifications := true }) hnil
    (SortedSet.elems_nodup _) ht'
  refine ⟨⟨calls, hcalls.affinity, hcalls.nodup, hcalls.listed, hcalls.kept⟩, ?_⟩
  obtain ⟨host, tids, happly, -, -⟩ :=
    applyPinning_spec u pinning { refreshTasks sc s with notifications := true }
  obtain rfl := Option.some.inj (happly.symm.trans ht')
  refine ⟨by simp [refreshTasks, hq.initTimer, hq.restarts], fun _ => ?_⟩
  rw [underTest_append s pinning rfl]
  exact hp

theorem nextPinning_calls {refresh : Scanner} {s t : State M D} (hq : Quiescent s)
    (hn : s.notifications = false) (hnil : s.pinnedTasks = []) (h : nextPinning u refresh s = some t) :
    (∃ calls, NewCalls s t calls) ∧ InRound u t := by
  unfold nextPinning at h
  split at h
  · cases h
    exact ⟨⟨[], .none rfl (List.Subset.refl _) rfl⟩, fun _ => hnil, by simp [hn]⟩
  · obtain ⟨best, -, h⟩ := Option.bind_eq_some_iff.mp h
    obtain ⟨calls, hcalls⟩ := applyPinning_newCalls (s := refreshTasks refresh s) hnil
      (SortedSet.elems_nodup _) h
    refine ⟨⟨calls, hcalls.affinity, hcalls.nodup, hcalls.listed, hcalls.kept⟩, ?_⟩
    obtain ⟨host, tids, happly, -, -⟩ := applyPinning_spec u best (refreshTasks refresh s)
    obtain rfl := Option.some.inj (happly.symm.trans h)
    exact ⟨by simp [refreshTasks, hq.initTimer, hq.restarts], by simp [refreshTasks, hn]⟩

theorem slotStartMonitor_calls (hu : u.monitor.Pinless) (check : Scanner) {s : State M D}
    (hq : Quiescent { s with warmupTimer := false }) (hs : InRound u s) :
    NewCalls s (slotStartMonitor u check { s with warmupTimer := false }) [] ∧
      InRound u (slotStartMonitor u check { s with warmupTimer := false }) := by
  have hinit : s.initTimer = false := hq.initTimer
  have hrestarts : s.restarts = 0 := hq.restarts
  obtain ⟨hsub, haff⟩ := slotStartMonitor_position hu check { s with warmupTimer := false }
  refine ⟨.none haff hsub.subset rfl, ?_, hs.current⟩
  simp [slotStartMonitor, checkPinnedTasks, hinit, hrestarts]

theorem slotTaskCreated_calls (hu : u.monitor.Pinless) {tid : Int} {s t : State M D} (hs : InRound u s)
    (hidle : s.notifications = true → s.initTimer = false ∧ s.restarts = 0)
    (h : slotTaskCreated u tid s = some t) : (∃ calls, NewCalls s t calls) ∧ InRound u t := by
  obtain ⟨probe, ts, tasks, rfl, -, ⟨rfl, rfl⟩ | ⟨hn, -, pinning, c, hp, rfl, hcpu, htids, haff⟩⟩ :=
    slotTaskCreated_position hu h
  · exact ⟨⟨[], .none rfl (List.Subset.refl _) rfl⟩, hs.cleared, hs.current⟩
  · obtain ⟨hinit, hrestarts⟩ := hidle hn
    have htest : pinning = underTest s := Option.some.inj (hp.symm.trans (hs.current hn))
    refine ⟨⟨[c], haff, by simp, ?_, ?_⟩, by simp [hinit, hrestarts], hs.current⟩
    · rintro d hd
      obtain rfl := List.mem_singleton.mp hd
      refine ⟨?_, ?_⟩
      · simp [pinnedTids, htids]
      · exact htest ▸ List.mem_of_getElem? hcpu
    · intro x hx
      rcases List.mem_append.mp (htids ▸ hx : x ∈ pinnedTids s ++ [c.tid]) with hx | hx
      · exact .inr ⟨hx, rfl⟩
      · exact .inl hx

theorem slotTaskTerminated_calls (hu : u.monitor.Pinless) {tid : Int} {s : State M D} (hs : InRound u s) :
    NewCalls s (slotTaskTerminated u tid s) [] ∧ InRound u (slotTaskTerminated u tid s) := by
  obtain ⟨probe, ts, he, hsub, haff⟩ := slotTaskTerminated_position hu tid s
  rw [he]
  refine ⟨.none haff hsub.subset rfl, fun hc => ?_, hs.current⟩
  have hnil : pinnedTids s = [] := by simp [pinnedTids, hs.cleared hc]
  rw [hnil, List.sublist_nil] at hsub
  exact List.map_eq_nil_iff.mp hsub

theorem slotPhaseChanged_calls {s : State M D} (hs : InRound u s) :
    NewCalls s (slotPhaseChanged s) [] ∧ InRound u (slotPhaseChanged s) := by
  unfold slotPhaseChanged
  split
  · exact ⟨.none rfl (by simp [pinnedTids]) rfl, fun _ => rfl, by simp⟩
  · exact ⟨.none rfl (List.Subset.refl _) rfl, hs⟩

/-! ## Runs -/

section Runs

variable [Zero D] [Add D] [Div D] [IntCast D] [NatCast D] [LT D] [DecidableLT D]

theorem Effect.calls (hu : u.monitor.Pinless) {stage : Stage} {s t : State M D} {e : Event}
    (he : Effect u s e t) (hin : InStage u stage s) (hstep : step u s e = some t) (hs : InRound u s) :
    (∃ calls, NewCalls s t calls) ∧ InRound u t := by
  cases he with
  | ignored => exact ⟨⟨[], .none rfl (List.Subset.refl _) rfl⟩, hs⟩
  | startPinning hfire hq hsearch hslot =>
    obtain ⟨hdue, initTimer, restarts, rfl⟩ := hfire.due
    obtain ⟨⟨calls, hcalls⟩, hround⟩ := slotStartPinning_calls hq hsearch (hs.cleared hdue) hslot
    exact ⟨⟨calls, hcalls.affinity, hcalls.nodup, hcalls.listed, hcalls.kept⟩, hround⟩
  | startMonitor hq =>
    obtain ⟨hcalls, hround⟩ := slotStartMonitor_calls hu _ hq hs
    exact ⟨⟨[], hcalls⟩, hround⟩
  | @stopPinning check refresh sum current performance ts probe best t ht hq hsearch hread hch hnext =>
    have haff := (readTasks_affinity hu hread).trans (checkPinned_affinity hu _ _ _)
    have hq' : Quiescent (measuredState { s with measureTimer := false } probe current best performance) :=
      ⟨hq.initTimer, hq.restarts, hq.warmupTimer, hq.measureTimer⟩
    obtain ⟨⟨calls, hcalls⟩, hround⟩ := nextPinning_calls hq' rfl rfl hnext
    refine ⟨⟨calls, ?_, hcalls.nodup, hcalls.listed, ?_⟩, hround⟩
    · rw [hcalls.affinity]
      exact congrArg _ haff
    · -- the list is cleared first, so all that is listed afterwards is new
      exact fun x hx => (hcalls.kept x hx).imp id (fun hold => by simp [pinnedTids, measuredState] at hold)
  | created => exact slotTaskCreated_calls hu hs hin.idle hstep
  | terminated =>
    obtain ⟨hcalls, hround⟩ := slotTaskTerminated_calls hu hs
    exact ⟨⟨[], hcalls⟩, hround⟩
  | phaseChanged =>
    obtain ⟨hcalls, hround⟩ := slotPhaseChanged_calls hs
    exact ⟨⟨[], hcalls⟩, hround⟩

/-- In every run, whatever the kernel answers, the tasks in `pinned_tasks` are really pinned in all states
exactly if every `setAffinity` call of the run succeeds. -/
theorem run_really_pinned_iff (u : Setup M D) (session : Session M) (es : List Event) (hne : u.pinnings ≠ [])
    (hty : u.monitorType ≠ .unknown) (hu : u.monitor.Pinless) :
    ∃ (s : State M D) (calls : List AffinityCall), run (step u) (ready session) es = some s ∧
      s.probe.session.host.affinity = calls ++ session.host.affinity ∧
      (Throughout (step u) ReallyPinned (ready session) es ↔ ∀ c ∈ calls, c.ret = 0) := by
  have hready : InRound u (ready session : State M D) := ⟨fun _ => rfl, fun hn => by cases hn⟩
  have hstep : ∀ (s : State M D) (e : Event), (∃ stage, InStage u stage s) ∧ InRound u s →
      ∃ t calls, step u s e = some t ∧ ((∃ stage, InStage u stage t) ∧ InRound u t) ∧
        t.probe.session.host.affinity = calls ++ s.probe.session.host.affinity ∧
        (ReallyPinned s → (ReallyPinned t ↔ ∀ c ∈ calls, c.ret = 0)) := by
    rintro s e ⟨⟨stage, hin⟩, hround⟩
    obtain ⟨t, hstep, he⟩ := step_effect hty hin e
    obtain ⟨⟨calls, hcalls⟩, hround'⟩ := he.calls hu hin hstep hround
    exact ⟨t, calls, hstep, ⟨he.stage hin, hround'⟩, hcalls.affinity, hcalls.reallyPinned_iff⟩
  obtain ⟨s, calls, hrun, haff, hiff⟩ := run_throughout_iff (fun s : State M D => s.probe.session.host.affinity)
    ReallyPinned (fun c => c.ret = 0) _ hstep es ⟨⟨_, ready_inStage session hne⟩, hready⟩
  exact ⟨s, calls, hrun, haff, hiff (fun x hx => by simp [pinnedTids, ready, slotWatchdogReady] at hx)⟩

/-- On a host on which every call succeeds, with a task that is created during the measurement. -/
theorem tracedSampling_really_pinned :
    Throughout (step tracedSampling) ReallyPinned (ready ⟨{}, {}, {}⟩ : State (PageMigrate Int) Int)
      [.initTimeout threeTasks, .warmupTimeout threeTasks, .taskCreated 13] := by
  obtain ⟨s, calls, hrun, haff, hiff⟩ := run_really_pinned_iff tracedSampling ⟨{}, {}, {}⟩
    [.initTimeout threeTasks, .warmupTimeout threeTasks, .taskCreated 13] (by decide) (by decide)
    (PageMigrate.monitor_pinless id)
  obtain rfl := Option.some.inj hrun
  refine hiff.mpr ?_
  rw [← List.append_nil calls, ← haff]
  decide

/-- A host with four cores, and two pinnings of which the first names a core it does not have. -/
def fourCores : Setup (PageMigrate Int) Int :=
  { tracedSampling with
    kernel := { Kernel.succeeding with schedSetaffinity := fun _ _ cpu => if 0 ≤ cpu ∧ cpu < 4 then 0 else -1 },
    pinnings := [[7], [0]] }

/-- The call for the only pinned task fails, which is not reported; the task is measured, and its result
is the one of the pinning. -/
theorem fourCores_not_pinned :
    ∃ s t : State (PageMigrate Int) Int,
      run (step fourCores) (ready ⟨{}, {}, {}⟩) [.initTimeout threeTasks, .warmupTimeout threeTasks] = some s ∧
      s.probe.session.context.isError = false ∧ pinnedTids s = [10] ∧
      s.probe.session.host.affinity = [⟨10, 7, -1⟩] ∧ ¬ ReallyPinned s ∧
      step fourCores s (.measureTimeout threeTasks threeTasks) = some t ∧
      t.probe.session.context.isError = false ∧ t.stops = [(0, 0)] ∧ t.bestPinning = 0 := by
  refine ⟨_, _, rfl, rfl, rfl, rfl, ?_, rfl, rfl, rfl, rfl⟩
  intro h
  obtain ⟨c, hc, -, hret⟩ := h 10 (by decide)
  obtain rfl := Option.some.inj hc
  exact absurd hret (by decide)

end Runs

end Autopin1

end AutopinPlus
