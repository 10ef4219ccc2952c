import AutopinPlus.Autopin1Monitor
import AutopinPlus.SelfPinning

/-!
# One round of autopin1

In a round autopin1 pins the tasks it finds to the cores of the pinning under test, and
tasks that are created later to the core whose position is the number of pinned tasks.
The file says where that number is not the first unused position, and what a late
signal does to a task that is in the list already.
-/
namespace AutopinPlus

variable {D : Type}

namespace Host

/-- The CPU of the last `setAffinity` call for a tid, whether or not it succeeded. -/
def lastRequest (h : Host) (tid : Int) : Option Int :=
  (h.affinity.find? (fun c => c.tid = tid)).map AffinityCall.cpu

theorem lastRequest_congr {h h' : Host} (hh : h'.affinity = h.affinity) (tid : Int) :
    h'.lastRequest tid = h.lastRequest tid := by
  simp [lastRequest, hh]

theorem lastRequest_cons_self {h : Host} {c : AffinityCall} {calls : List AffinityCall}
    (hh : h.affinity = c :: calls) : h.lastRequest c.tid = some c.cpu := by
  simp [lastRequest, hh]

theorem lastRequest_cons_other {h h' : Host} {c : AffinityCall} {tid : Int}
    (hh : h'.affinity = c :: h.affinity) (hc : c.tid ≠ tid) : h'.lastRequest tid = h.lastRequest tid := by
  simp [lastRequest, hh, hc]

end Host

namespace Autopin1

open PartialStep

variable {M : Type}

/-! ## Tasks on their positions -/

/-- Each task was sent to the core at its own position of the pinning. -/
def Aligned (pinning tids : List Int) (h : Host) : Prop :=
  ∀ (k : Nat) (tid : Int), tids[k]? = some tid → ∃ cpu, pinning[k]? = some cpu ∧ h.lastRequest tid = some cpu

theorem Aligned.nil (pinning : List Int) (h : Host) : Aligned pinning [] h := by
  intro k tid hk
  simp at hk

theorem Aligned.congr {pinning tids : List Int} {h h' : Host} (ha : Aligned pinning tids h)
    (hh : h'.affinity = h.affinity) : Aligned pinning tids h' := by
  intro k tid hk
  rw [Host.lastRequest_congr hh]
  exact ha k tid hk

/-- A new task goes to the position past those of the others. -/
theorem Aligned.append {pinning tids : List Int} {h h' : Host} {c : AffinityCall} (ha : Aligned pinning tids h)
    (hh : h'.affinity = c :: h.affinity) (hnew : c.tid ∉ tids) (hcpu : pinning[tids.length]? = some c.cpu) :
    Aligned pinning (tids ++ [c.tid]) h' := by
  intro k tid hk
  by_cases hlt : k < tids.length
  · rw [List.getElem?_append_left hlt] at hk
    have hne : c.tid ≠ tid := fun he => hnew (he ▸ List.mem_of_getElem? hk)
    rw [Host.lastRequest_cons_other hh hne]
    exact ha k tid hk
  · have hk' : k = tids.length ∧ c.tid = tid := by
      rw [List.getElem?_append_right (by omega)] at hk
      cases hsub : k - tids.length with
      | zero => exact ⟨by omega, by simpa [hsub] using hk⟩
      | succ n => simp [hsub] at hk
    obtain ⟨rfl, rfl⟩ := hk'
    exact ⟨c.cpu, hcpu, Host.lastRequest_cons_self hh⟩

/-- Taking away the last task leaves the others on their positions. -/
theorem Aligned.of_append {pinning tids more : List Int} {h : Host} (ha : Aligned pinning (tids ++ more) h) :
    Aligned pinning tids h := by
  intro k tid hk
  refine ha k tid ?_
  rw [List.getElem?_append_left (List.getElem?_eq_some_iff.mp hk).1]
  exact hk

/-- The tids of the pinned tasks. -/
def pinnedTids (s : State M D) : List Int := s.pinnedTasks.map PinnedTask.tid

/-- The loop of `applyPinning` before the task `j`: the tasks pinned so far stand before `j` and are on
the first positions. -/
structure Placed (pinning tasks : List Int) (j : Nat) (acc : Nat × State M D) : Prop where
  same : acc.2.tasks = tasks
  count : acc.1 = (pinnedTids acc.2).length
  before : ∀ tid ∈ pinnedTids acc.2, tid ∈ tasks.take j
  aligned : Aligned pinning (pinnedTids acc.2) acc.2.probe.session.host

theorem Placed.skip {pinning tasks : List Int} {j : Nat} {acc : Nat × State M D}
    (h : Placed pinning tasks j acc) : Placed pinning tasks (j + 1) acc where
  same := h.same
  count := h.count
  before := fun tid ht => List.take_subset_take_left tasks (Nat.le_succ j) (h.before tid ht)
  aligned := h.aligned

/-- The task at `j` is not among those before it, and gets the next position. -/
theorem Placed.pin {u : Setup M D} {pinning tasks : List Int} {i j : Nat} {s : State M D} {tid cpu : Int}
    (hnodup : tasks.Nodup) (h : Placed pinning tasks j (i, s)) (htid : tasks[j]? = some tid)
    (hcpu : pinning[i]? = some cpu) : Placed pinning tasks (j + 1) (i + 1, Autopin1.pin u tid cpu s) := by
  obtain ⟨hj, rfl⟩ := List.getElem?_eq_some_iff.mp htid
  have hcount : i = (pinnedTids s).length := h.count
  have htids : pinnedTids (Autopin1.pin u tasks[j] cpu s) = pinnedTids s ++ [tasks[j]] := by
    simp [pinnedTids, Autopin1.pin]
  have hfresh : tasks[j] ∉ pinnedTids s := by
    intro hin
    obtain ⟨j', hj', he⟩ := List.mem_take_iff_getElem.mp (h.before _ hin)
    have := hnodup.getElem_inj_iff.mp he
    omega
  refine ⟨h.same, ?_, ?_, ?_⟩
  · simp only [htids, List.length_append, List.length_singleton]
    omega
  · intro x hx
    rcases List.mem_append.mp (htids ▸ hx) with hx | hx
    · exact h.skip.before x hx
    · rw [List.mem_singleton.mp hx]
      exact List.mem_take_iff_getElem.mpr ⟨j, by omega, rfl⟩
  · rw [htids]
    exact h.aligned.append (Host.setAffinity_affinity u.kernel _ _ _) hfresh (hcount ▸ hcpu)

theorem pinNext_placed {u : Setup M D} {pinning tasks : List Int} {j : Nat} {acc : Nat × State M D}
    (hnodup : tasks.Nodup) (hj : j < tasks.length) (h : Placed pinning tasks j acc) :
    ∃ acc', pinNext u pinning acc j = some acc' ∧ Placed pinning tasks (j + 1) acc' := by
  unfold pinNext
  split
  · exact ⟨acc, rfl, h.skip⟩
  · rename_i hlen
    split
    · exact ⟨acc, rfl, h.skip⟩
    · split
      · exact ⟨acc, rfl, h.skip⟩
      · have htid : tasks[j]? = some tasks[j] := List.getElem?_eq_getElem hj
        have hcpu : pinning[acc.1]? = some pinning[acc.1] := List.getElem?_eq_getElem (by omega)
        refine ⟨_, ?_, h.pin (u := u) hnodup htid hcpu⟩
        simp only [h.same, htid, hcpu, Option.bind_eq_bind, Option.bind_some]

theorem applyPinning_aligned {u : Setup M D} {pinning : List Int} {s t : State M D} (hnil : s.pinnedTasks = [])
    (hnodup : s.tasks.Nodup) (h : applyPinning u pinning s = some t) :
    Aligned pinning (pinnedTids t) t.probe.session.host := by
  have hfirst : Placed pinning s.tasks 0 (0, { s with applied := s.applied ++ [pinning] }) := by
    have htids : pinnedTids { s with applied := s.applied ++ [pinning] } = [] := by simp [pinnedTids, hnil]
    refine ⟨rfl, by rw [htids]; rfl, by simp [htids], ?_⟩
    rw [htids]
    exact Aligned.nil pinning _
  obtain ⟨⟨i, t'⟩, hrun, hplaced⟩ := foldlM_range_isSome (Placed pinning s.tasks) s.tasks.length
    (fun j acc hj hacc => pinNext_placed (u := u) hnodup hj hacc) hfirst
  have ht : t = t' := by
    rw [applyPinning, hrun] at h
    exact (Option.some.inj h).symm
  exact ht ▸ hplaced.aligned

/-! ## Positions over whole runs -/

/-- The pinning that was applied last. -/
def underTest (s : State M D) : List Int := s.applied.getLast?.getD []

/-- The pinned tasks are on their positions of the pinning under test. -/
structure Positioned (u : Setup M D) (s : State M D) : Prop where
  nodup : (pinnedTids s).Nodup
  cleared : s.initTimer = true ∨ 0 < s.restarts → s.pinnedTasks = []
  applied : ∀ pinning ∈ s.applied, pinning ∈ u.pinnings
  current : s.notifications = true → subscript u.pinnings s.currentPinning = some (underTest s)
  aligned : Aligned (underTest s) (pinnedTids s) s.probe.session.host

/-- A pinned task whose end is reported in the warm-up is the last of `pinned_tasks`. -/
def EndsLast (s : State M D) : Event → Prop
  | .taskTerminated tid => s.notifications = true → s.measureTimer = false → tid ∈ pinnedTids s →
      (pinnedTids s).getLast? = some tid
  | _ => True

variable {u : Setup M D}

theorem mem_of_subscript {α : Type} {v : List α} {i : Int} {a : α} (h : subscript v i = some a) : a ∈ v :=
  List.mem_of_getElem? (subscript_eq_some h).2.2

theorem underTest_append (s : State M D) (pinning : List Int) {s' : State M D}
    (h : s'.applied = s.applied ++ [pinning]) : underTest s' = pinning := by
  simp [underTest, h]

theorem slotStartPinning_eq {sc : Scanner} {s : State M D} {pinning : List Int}
    (hp : subscript u.pinnings s.currentPinning = some pinning) :
    slotStartPinning u sc s = (applyPinning u pinning { refreshTasks sc s with notifications := true }).map
      (fun t => { t with warmupTimer := true }) := by
  have hcur : subscript u.pinnings (refreshTasks sc s).currentPinning = some pinning := hp
  simp only [slotStartPinning, hcur, Option.bind_eq_bind, Option.bind_some]
  cases applyPinning u pinning { refreshTasks sc s with notifications := true } <;> rfl

theorem slotStartPinning_positioned {sc : Scanner} {s t : State M D} (hq : Quiescent s)
    (hsearch : Searching u s False) (hnil : s.pinnedTasks = [])
    (happlied : ∀ pinning ∈ s.applied, pinning ∈ u.pinnings) (h : slotStartPinning u sc s = some t) :
    Positioned u t := by
  obtain ⟨pinning, hp⟩ := hsearch.pinning id
  obtain ⟨host, tids, hslot, hsub, -⟩ := slotStartPinning_spec u sc hp
  obtain ⟨t', ht', he⟩ := Option.map_eq_some_iff.mp ((slotStartPinning_eq hp).symm.trans h)
  have hal' := applyPinning_aligned (s := { refreshTasks sc s with notifications := true }) hnil
    (SortedSet.elems_nodup _) ht'
  have hal : Aligned pinning (pinnedTids t) t.probe.session.host := by
    subst he
    exact hal'
  clear he
  obtain rfl := Option.some.inj (hslot.symm.trans h)
  refine ⟨?_, by simp [hq.initTimer, hq.restarts], ?_, fun _ => ?_, ?_⟩
  · rw [pinnedTids, hnil, List.nil_append, map_tid_unread]
    exact scan_nodup sc _ hsub
  · intro p hmem
    rcases List.mem_append.mp hmem with hmem | hmem
    · exact happlied p hmem
    · rw [List.mem_singleton.mp hmem]
      exact mem_of_subscript hp
  · rw [underTest_append s pinning rfl]
    exact hp
  · rw [underTest_append s pinning rfl]
    exact hal

theorem nextPinning_positioned {refresh : Scanner} {s t : State M D} (hq : Quiescent s)
    (hn : s.notifications = false) (hnil : s.pinnedTasks = [])
    (happlied : ∀ pinning ∈ s.applied, pinning ∈ u.pinnings) (h : nextPinning u refresh s = some t) :
    Positioned u t := by
  unfold nextPinning at h
  split at h
  · cases h
    refine ⟨by simp [pinnedTids, hnil], fun _ => hnil, happlied, by simp [hn], ?_⟩
    simpa [pinnedTids, hnil] using Aligned.nil _ _
  · obtain ⟨best, hbest, h⟩ := Option.bind_eq_some_iff.mp h
    have hal := applyPinning_aligned (s := refreshTasks refresh s) hnil (SortedSet.elems_nodup _) h
    obtain ⟨host, tids, happly, hsub, -⟩ := applyPinning_spec u best (refreshTasks refresh s)
    obtain rfl := Option.some.inj (happly.symm.trans h)
    refine ⟨?_, ?_, ?_, ?_, ?_⟩
    · simp only [pinnedTids, refreshTasks, hnil, List.nil_append, map_tid_unread]
      exact scan_nodup refresh _ hsub
    · simp [refreshTasks, hq.initTimer, hq.restarts]
    · intro p hmem
      rcases List.mem_append.mp hmem with hmem | hmem
      · exact happlied p hmem
      · rw [List.mem_singleton.mp hmem]
        exact mem_of_subscript hbest
    · simp [refreshTasks, hn]
    · rw [underTest_append s best rfl]
      exact hal

/-- Same pinned tasks, same positions. -/
theorem Positioned.of_data {s : State M D} (hs : Positioned u s) {probe : Probe M} {ts : List (PinnedTask D)}
    (tasks : List Int) (htids : ts.map PinnedTask.tid = pinnedTids s)
    (haff : probe.session.host.affinity = s.probe.session.host.affinity) :
    Positioned u { s with probe := probe, pinnedTasks := ts, tasks := tasks } := by
  refine ⟨?_, ?_, hs.applied, hs.current, ?_⟩
  · rw [pinnedTids, htids]
    exact hs.nodup
  · intro hc
    have hnil : pinnedTids s = [] := by simp [pinnedTids, hs.cleared hc]
    exact List.map_eq_nil_iff.mp (htids.trans hnil)
  · rw [pinnedTids, htids]
    exact hs.aligned.congr haff

/-- `slot_startMonitor` makes no call, and takes tasks off the list at most. -/
theorem slotStartMonitor_position (hu : u.monitor.Pinless) (sc : Scanner) (s : State M D) :
    (pinnedTids (slotStartMonitor u sc s)).Sublist (pinnedTids s) ∧
      (slotStartMonitor u sc s).probe.session.host.affinity = s.probe.session.host.affinity := by
  constructor
  · simp only [slotStartMonitor, checkPinnedTasks, pinnedTids, map_tid_startTasks]
    exact (checkPinned_sublist ..).map _
  · exact (startTasks_affinity hu _ _).trans (checkPinned_affinity hu _ _ _)

theorem slotStartMonitor_positioned (hu : u.monitor.Pinless) (htrace : u.trace = true) (sc : Scanner)
    {s : State M D} (hs : Positioned u s) :
    Positioned u (slotStartMonitor u sc { s with warmupTimer := false }) := by
  have hcheck : checkPinnedTasks u sc { s with warmupTimer := false } = { s with warmupTimer := false } := by
    simp [checkPinnedTasks, checkPinned_trace htrace]
  rw [slotStartMonitor, hcheck]
  have htids := map_tid_startTasks (u := u) s.pinnedTasks s.probe
  have haff := startTasks_affinity hu s.pinnedTasks s.probe
  obtain ⟨hnodup, hcleared, happlied, hcurrent, haligned⟩ := hs.of_data s.tasks htids haff
  exact ⟨hnodup, hcleared, happlied, hcurrent, haligned⟩

/-- What `slot_TaskCreated` does to the pinned tasks: nothing, or the next position is taken. -/
theorem slotTaskCreated_position (hu : u.monitor.Pinless) {tid : Int} {s t : State M D}
    (h : slotTaskCreated u tid s = some t) :
    ∃ probe ts tasks, t = { s with probe := probe, pinnedTasks := ts, tasks := tasks } ∧ s.tasks ⊆ tasks ∧
      ((ts = s.pinnedTasks ∧ probe = s.probe) ∨
        (s.notifications = true ∧ tid ∉ pinnedTids s ∧ ∃ pinning c,
          subscript u.pinnings s.currentPinning = some pinning ∧ c.tid = tid ∧
          pinning[(pinnedTids s).length]? = some c.cpu ∧
          ts.map PinnedTask.tid = pinnedTids s ++ [tid] ∧
          probe.session.host.affinity = c :: s.probe.session.host.affinity)) := by
  unfold slotTaskCreated at h
  split at h
  · rename_i hn
    split at h
    · cases h
      exact ⟨_, _, _, rfl, List.Subset.refl _, .inl ⟨rfl, rfl⟩⟩
    · rename_i hany
      have hnew : tid ∉ pinnedTids s := by simpa [pinnedTids] using hany
      have hsub : s.tasks ⊆ s.tasks ++ [tid] := List.subset_append_left _ _
      obtain ⟨pinning, hp, h⟩ := Option.bind_eq_some_iff.mp h
      obtain ⟨s', hpin, h⟩ := Option.bind_eq_some_iff.mp h
      cases h
      simp only [pinCreated] at hpin
      split at hpin
      · obtain ⟨cpu, hcpu, hpin⟩ := Option.bind_eq_some_iff.mp hpin
        have hcpu' : pinning[(pinnedTids s).length]? = some cpu := by simpa [pinnedTids] using hcpu
        let c : AffinityCall := ⟨tid, cpu, (s.probe.session.host.setAffinity u.kernel tid cpu).1⟩
        have haff : (s.probe.setAffinity u tid cpu).session.host.affinity =
            c :: s.probe.session.host.affinity := rfl
        split at hpin
        · cases hpin
          refine ⟨_, _, _, rfl, hsub, .inr ⟨hn, hnew, pinning, c, hp, rfl, hcpu', by simp [pinnedTids], ?_⟩⟩
          exact (hu.start tid (s.probe.setAffinity u tid cpu).session).trans haff
        · cases hpin
          exact ⟨_, _, _, rfl, hsub, .inr ⟨hn, hnew, pinning, c, hp, rfl, hcpu', by simp [pinnedTids], haff⟩⟩
      · cases hpin
        exact ⟨_, _, _, rfl, hsub, .inl ⟨rfl, rfl⟩⟩
  · cases h
    exact ⟨_, _, _, rfl, List.Subset.refl _, .inl ⟨rfl, rfl⟩⟩

theorem slotTaskCreated_positioned (hu : u.monitor.Pinless) {tid : Int} {s t : State M D}
    (hs : Positioned u s) (hidle : s.notifications = true → s.initTimer = false ∧ s.restarts = 0)
    (h : slotTaskCreated u tid s = some t) : Positioned u t := by
  obtain ⟨probe, ts, tasks, rfl, -, ⟨rfl, rfl⟩ | ⟨hn, hnew, pinning, c, hp, rfl, hcpu, htids, haff⟩⟩ :=
    slotTaskCreated_position hu h
  · exact hs.of_data _ rfl rfl
  · obtain ⟨hinit, hrestarts⟩ := hidle hn
    have htest : underTest s = pinning := Option.some.inj ((hs.current hn).symm.trans hp)
    refine ⟨?_, by simp [hinit, hrestarts], hs.applied, hs.current, ?_⟩
    · rw [pinnedTids, htids]
      refine List.nodup_append.mpr ⟨hs.nodup, by simp, ?_⟩
      rintro a ha b hb rfl
      rw [List.mem_singleton.mp hb] at ha
      exact hnew ha
    · rw [pinnedTids, htids]
      exact hs.aligned.append haff hnew (htest ▸ hcpu)

theorem map_tid_eraseP {tid : Int} (ts : List (PinnedTask D)) :
    (ts.eraseP (fun t => t.tid = tid)).map PinnedTask.tid = (ts.map PinnedTask.tid).erase tid := by
  induction ts with
  | nil => rfl
  | cons t ts ih =>
    by_cases ht : t.tid = tid
    · simp [ht]
    · simp [ht, ih]

/-- `slot_TaskTerminated` makes no call, and takes a task off the list at most. -/
theorem slotTaskTerminated_position (hu : u.monitor.Pinless) (tid : Int) (s : State M D) :
    ∃ probe ts, slotTaskTerminated u tid s = { s with probe := probe, pinnedTasks := ts } ∧
      (ts.map PinnedTask.tid).Sublist (pinnedTids s) ∧
      probe.session.host.affinity = s.probe.session.host.affinity := by
  rcases slotTaskTerminated_cases u tid s with he | ⟨-, -, ⟨-, he⟩ | ⟨-, he⟩⟩
  · exact ⟨_, _, he, .refl _, rfl⟩
  · refine ⟨_, _, he, ?_, hu.stop tid s.probe.session⟩
    have htids := map_tid_updateFirst tid (fun t : PinnedTask D => { t with
      stop := some ((s.probe.stop u tid).2.elapsed u).1, result := some (s.probe.stop u tid).1 })
      (fun _ => rfl) s.pinnedTasks
    rw [htids]
    exact .refl _
  · exact ⟨_, _, he, List.eraseP_sublist.map _, hu.stop tid s.probe.session⟩

/-- In a list without repetitions the last element is removed alone. -/
theorem erase_last {tids : List Int} {tid : Int} (hnodup : tids.Nodup) (h : tids.getLast? = some tid) :
    ∃ rest, tids = rest ++ [tid] ∧ tids.erase tid = rest := by
  obtain ⟨rest, rfl⟩ := List.getLast?_eq_some_iff.mp h
  have hnot : tid ∉ rest := fun hmem => List.disjoint_of_nodup_append hnodup hmem (by simp)
  refine ⟨rest, rfl, ?_⟩
  rw [List.erase_append_right _ hnot]
  simp

theorem slotTaskTerminated_positioned (hu : u.monitor.Pinless) {tid : Int} {s : State M D}
    (hs : Positioned u s) (hlast : EndsLast s (.taskTerminated tid)) :
    Positioned u (slotTaskTerminated u tid s) := by
  rcases slotTaskTerminated_cases u tid s with he | ⟨hn, ⟨t, ht, htid⟩, ⟨-, he⟩ | ⟨hmeas, he⟩⟩
  · rw [he]
    exact hs
  · rw [he]
    have htids := map_tid_updateFirst tid (fun t : PinnedTask D => { t with
      stop := some ((s.probe.stop u tid).2.elapsed u).1, result := some (s.probe.stop u tid).1 })
      (fun _ => rfl) s.pinnedTasks
    exact hs.of_data _ htids (hu.stop tid s.probe.session)
  · have hmem : tid ∈ pinnedTids s := List.mem_map.mpr ⟨t, ht, htid⟩
    obtain ⟨rest, hrest, herase⟩ := erase_last hs.nodup (hlast hn hmeas hmem)
    have htids : (s.pinnedTasks.eraseP (fun t => t.tid = tid)).map PinnedTask.tid = rest := by
      rw [map_tid_eraseP]
      exact herase
    rw [he]
    refine ⟨?_, ?_, hs.applied, hs.current, ?_⟩
    · rw [pinnedTids, htids]
      exact (List.nodup_append.mp (hrest ▸ hs.nodup)).1
    · intro hc
      simp [hs.cleared hc]
    · rw [pinnedTids, htids]
      refine Aligned.congr (h := s.probe.session.host) ?_ (hu.stop tid s.probe.session)
      exact Aligned.of_append (hrest ▸ hs.aligned)

theorem slotPhaseChanged_positioned {s : State M D} (hs : Positioned u s) :
    Positioned u (slotPhaseChanged s) := by
  unfold slotPhaseChanged
  split
  · exact ⟨List.nodup_nil, fun _ => rfl, hs.applied, by simp, Aligned.nil _ _⟩
  · exact hs

theorem ready_positioned (session : Session M) : Positioned u (ready session : State M D) := by
  refine ⟨List.nodup_nil, fun _ => rfl, ?_, ?_, Aligned.nil _ _⟩
  · simp [ready, slotWatchdogReady]
  · simp [ready, slotWatchdogReady]

section Runs

variable [Zero D] [Add D] [Div D] [IntCast D] [NatCast D] [LT D] [DecidableLT D]

theorem Effect.positioned (hu : u.monitor.Pinless) (htrace : u.trace = true) {stage : Stage}
    {s t : State M D} {e : Event} (he : Effect u s e t) (hin : InStage u stage s) (h : step u s e = some t)
    (hlast : EndsLast s e) (hs : Positioned u s) : Positioned u t := by
  cases he with
  | ignored => exact hs
  | startPinning hfire hq hsearch hslot =>
    obtain ⟨hdue, initTimer, restarts, rfl⟩ := hfire.due
    exact slotStartPinning_positioned hq hsearch (hs.cleared hdue) hs.applied hslot
  | startMonitor => exact slotStartMonitor_positioned hu htrace _ hs
  | stopPinning ht hq hsearch hread hch hnext =>
    refine nextPinning_positioned ?_ ?_ ?_ ?_ hnext
    · exact ⟨hq.initTimer, hq.restarts, hq.warmupTimer, hq.measureTimer⟩
    · rfl
    · rfl
    · exact hs.applied
  | created => exact slotTaskCreated_positioned hu hs hin.idle h
  | terminated => exact slotTaskTerminated_positioned hu hs hlast
  | phaseChanged => exact slotPhaseChanged_positioned hs

/-- With tracing on and pinnings without repeated cores, in every run in which a pinned task ends in
the warm-up only as the last entry of `pinned_tasks`, no two entries are on one position, nor on one
core, of the pinning under test. -/
theorem run_positions (u : Setup M D) (session : Session M) (es : List Event) (hne : u.pinnings ≠ [])
    (hty : u.monitorType ≠ .unknown) (htrace : u.trace = true) (hu : u.monitor.Pinless)
    (hcores : ∀ pinning ∈ u.pinnings, pinning.Nodup)
    (hes : Admitted (step u) EndsLast (ready session) es) :
    ∃ s, run (step u) (ready session : State M D) es = some s ∧
      (s.notifications = true → subscript u.pinnings s.currentPinning = some (underTest s)) ∧
      ∀ (k l : Nat) (a b : PinnedTask D), s.pinnedTasks[k]? = some a → s.pinnedTasks[l]? = some b → k ≠ l →
        ∃ (i j : Nat) (c d : Int), (underTest s)[i]? = some c ∧ (underTest s)[j]? = some d ∧
          s.probe.session.host.lastRequest a.tid = some c ∧
          s.probe.session.host.lastRequest b.tid = some d ∧ i ≠ j ∧ c ≠ d := by
  obtain ⟨s, stage, hrun, hin, hs⟩ := run_steps (Positioned u) hty
    (fun _ _ _ _ hin hstep he hlast hs => he.positioned hu htrace hin hstep hlast hs)
    (ready_inStage session hne) (ready_positioned session) hes
  refine ⟨s, hrun, hs.current, ?_⟩
  intro k l a b ha hb hkl
  obtain ⟨c, hc, hac⟩ := hs.aligned k a.tid (by simp [pinnedTids, ha])
  obtain ⟨d, hd, hbd⟩ := hs.aligned l b.tid (by simp [pinnedTids, hb])
  refine ⟨k, l, c, d, hc, hd, hac, hbd, hkl, ?_⟩
  rintro rfl
  have hnodup : (underTest s).Nodup := by
    rw [underTest]
    cases hlast : s.applied.getLast? with
    | none => simp
    | some p => exact hcores p (hs.applied p (List.mem_of_getLast? hlast))
  have hlt := (List.getElem?_eq_some_iff.mp hc).1
  exact hkl ((List.getElem?_inj hlt hnodup).mp (hc.trans hd.symm))

/-- One pinning for four tasks, traced and watched by the page migration monitor. -/
def tracedSampling : Setup (PageMigrate Int) Int where
  kernel := .succeeding
  monitor := PageMigrate.monitor id
  monitorType := .max
  pinnings := [[0, 1, 2, 3]]
  trace := true

/-- A process with three tasks. -/
def threeTasks : Scanner := fun _ => { tree := .node 10 (.ofList [10, 11, 12]) [] }

/-- The second of three tasks ends in the warm-up; the next one is sent to the core of the third. -/
theorem tracedSampling_doubled :
    tracedSampling.trace = true ∧ (∀ pinning ∈ tracedSampling.pinnings, pinning.Nodup) ∧
    ∃ (s : State (PageMigrate Int) Int) (a b : PinnedTask Int),
      run (step tracedSampling) (ready ⟨{}, {}, {}⟩)
        [.initTimeout threeTasks, .taskTerminated 11, .taskCreated 13] = some s ∧
      s.probe.session.context.isError = false ∧
      s.pinnedTasks[1]? = some a ∧ s.pinnedTasks[2]? = some b ∧ a.tid = 12 ∧ b.tid = 13 ∧
      s.probe.session.host.lastRequest 12 = some 2 ∧ s.probe.session.host.lastRequest 13 = some 2 := by
  refine ⟨rfl, by decide, _, _, _, rfl, rfl, rfl, rfl, rfl, rfl, rfl, rfl⟩

/-- The last of three tasks ends in the warm-up, and its position is used again. -/
theorem tracedSampling_positions :
    ∃ s : State (PageMigrate Int) Int, run (step tracedSampling) (ready ⟨{}, {}, {}⟩)
        [.initTimeout threeTasks, .taskTerminated 12, .taskCreated 13] = some s ∧
      pinnedTids s = [10, 11, 13] ∧
      ∀ (k l : Nat) (a b : PinnedTask Int), s.pinnedTasks[k]? = some a → s.pinnedTasks[l]? = some b → k ≠ l →
        ∃ (i j : Nat) (c d : Int), (underTest s)[i]? = some c ∧ (underTest s)[j]? = some d ∧
          s.probe.session.host.lastRequest a.tid = some c ∧
          s.probe.session.host.lastRequest b.tid = some d ∧ i ≠ j ∧ c ≠ d := by
  have hes : Admitted (step tracedSampling) EndsLast (ready ⟨{}, {}, {}⟩ : State (PageMigrate Int) Int)
      [.initTimeout threeTasks, .taskTerminated 12, .taskCreated 13] := by
    refine ⟨trivial, ?_⟩
    rintro _ ⟨⟩
    exact ⟨fun _ _ _ => rfl, fun _ _ => ⟨trivial, fun _ _ => trivial⟩⟩
  obtain ⟨s, hs, -, hsep⟩ := run_positions tracedSampling ⟨{}, {}, {}⟩ _ (by decide) (by decide) rfl
    (PageMigrate.monitor_pinless id) (by decide) hes
  refine ⟨s, hs, ?_, hsep⟩
  cases hs
  rfl

end Runs

/-! ## Late signals -/

/-- `slot_TaskCreated` changes neither list of tasks, pins nothing and calls no monitor. -/
def Harmless (u : Setup M D) (tid : Int) (s : State M D) : Prop :=
  ∃ t, slotTaskCreated u tid s = some t ∧ t.tasks = s.tasks ∧ t.pinnedTasks = s.pinnedTasks ∧
    t.probe.session.host.affinity = s.probe.session.host.affinity ∧ t.probe.calls = s.probe.calls

theorem harmless_iff {s : State M D} {tid : Int} (hn : s.notifications = true) :
    Harmless u tid s ↔ tid ∈ pinnedTids s := by
  have hany : s.pinnedTasks.any (fun t => t.tid = tid) = true ↔ tid ∈ pinnedTids s := by simp [pinnedTids]
  constructor
  · rintro ⟨t, ht, htasks, -, -, -⟩
    by_contra hnot
    have hnew : ¬ s.pinnedTasks.any (fun t => t.tid = tid) = true := fun h => hnot (hany.mp h)
    simp only [slotTaskCreated, if_pos hn, if_neg hnew, Option.bind_eq_bind] at ht
    obtain ⟨pinning, -, ht⟩ := Option.bind_eq_some_iff.mp ht
    obtain ⟨s', hpin, ht⟩ := Option.bind_eq_some_iff.mp ht
    have hsame : s'.tasks = s.tasks := by
      obtain ⟨probe, ts, hspec, -⟩ := pinCreated_spec u tid pinning hn (by simpa using hnew)
      obtain rfl := Option.some.inj (hspec.symm.trans hpin)
      rfl
    cases ht
    -- the tid is pushed a second time
    have hlen := congrArg List.length htasks
    rw [hsame, List.length_append, List.length_singleton] at hlen
    omega
  · intro hmem
    refine ⟨s, ?_, rfl, rfl, rfl, rfl⟩
    rw [slotTaskCreated, if_pos hn, if_pos (hany.mpr hmem)]

/-- A signal for a task that is in the list already is for a pinned task. -/
def LatePinned (s : State M D) : Event → Prop
  | .taskCreated tid => s.notifications = true → tid ∈ s.tasks → tid ∈ pinnedTids s
  | _ => True

/-- The `setAffinity` calls for a task. -/
def requests (s : State M D) (tid : Int) : List AffinityCall :=
  s.probe.session.host.affinity.filter (fun c => c.tid = tid)

/-- Since `s` either a pinning was applied, or the task was not pinned. -/
structure StaysUnpinned (x : Int) (s t : State M D) : Prop where
  applied : s.applied.length ≤ t.applied.length
  unpinned : t.applied.length = s.applied.length →
    x ∈ t.tasks ∧ x ∉ pinnedTids t ∧ requests t x = requests s x

theorem requests_congr {s t : State M D}
    (h : t.probe.session.host.affinity = s.probe.session.host.affinity) (x : Int) :
    requests t x = requests s x := by
  rw [requests, h, requests]

/-- A step that applies no pinning, takes no task off the list and does not pin the task. -/
theorem StaysUnpinned.step {x : Int} {s₀ s t : State M D} (h : StaysUnpinned x s₀ s)
    (happlied : t.applied = s.applied)
    (hstep : x ∈ s.tasks → x ∉ pinnedTids s → x ∈ t.tasks ∧ x ∉ pinnedTids t ∧ requests t x = requests s x) :
    StaysUnpinned x s₀ t := by
  refine ⟨happlied ▸ h.applied, ?_⟩
  intro hlen
  rw [happlied] at hlen
  obtain ⟨htask, hnot, hreq⟩ := h.unpinned hlen
  obtain ⟨htask', hnot', hreq'⟩ := hstep htask hnot
  exact ⟨htask', hnot', hreq'.trans hreq⟩

/-- A step that applies a pinning ends the round. -/
theorem StaysUnpinned.of_applied {x : Int} {s₀ s t : State M D} (h : StaysUnpinned x s₀ s) {pinning : List Int}
    (happlied : t.applied = s.applied ++ [pinning]) : StaysUnpinned x s₀ t := by
  have hlen := congrArg List.length happlied
  rw [List.length_append, List.length_singleton] at hlen
  have := h.applied
  exact ⟨by omega, fun he => by omega⟩

theorem slotStartMonitor_unpinned (hu : u.monitor.Pinless) (check : Scanner) {x : Int} {s₀ s : State M D}
    (h : StaysUnpinned x s₀ s) :
    StaysUnpinned x s₀ (slotStartMonitor u check { s with warmupTimer := false }) := by
  obtain ⟨hsub, haff⟩ := slotStartMonitor_position hu check { s with warmupTimer := false }
  refine h.step rfl (fun htask hnot => ⟨htask, fun hmem => hnot (hsub.subset hmem), ?_⟩)
  exact requests_congr (s := s) haff x

theorem slotTaskCreated_unpinned (hu : u.monitor.Pinless) {tid x : Int} {s₀ s t : State M D}
    (h : StaysUnpinned x s₀ s) (hlate : LatePinned s (.taskCreated tid))
    (hstep : slotTaskCreated u tid s = some t) : StaysUnpinned x s₀ t := by
  obtain ⟨probe, ts, tasks, rfl, hsub, ⟨rfl, rfl⟩ | ⟨hn, -, pinning, c, -, rfl, -, htids, haff⟩⟩ :=
    slotTaskCreated_position hu hstep
  · exact h.step rfl (fun htask hnot => ⟨hsub htask, hnot, rfl⟩)
  · refine h.step rfl (fun htask hnot => ?_)
    have hne : c.tid ≠ x := by
      rintro rfl
      exact hnot (hlate hn htask)
    refine ⟨hsub htask, ?_, ?_⟩
    · rw [pinnedTids, htids]
      simp [hnot, Ne.symm hne]
    · simp [requests, haff, hne]

theorem slotTaskTerminated_unpinned (hu : u.monitor.Pinless) {tid x : Int} {s₀ s : State M D}
    (h : StaysUnpinned x s₀ s) : StaysUnpinned x s₀ (slotTaskTerminated u tid s) := by
  obtain ⟨probe, ts, he, hsub, haff⟩ := slotTaskTerminated_position hu tid s
  rw [he]
  refine h.step rfl (fun htask hnot => ⟨htask, fun hmem => hnot (hsub.subset hmem), ?_⟩)
  exact requests_congr haff x

theorem slotPhaseChanged_unpinned {x : Int} {s₀ s : State M D} (h : StaysUnpinned x s₀ s) :
    StaysUnpinned x s₀ (slotPhaseChanged s) := by
  unfold slotPhaseChanged
  split
  · exact h.step rfl (fun htask _ => ⟨htask, by simp [pinnedTids], rfl⟩)
  · exact h

theorem nextPinning_unpinned {refresh : Scanner} {x : Int} {s₀ s t : State M D} (h : StaysUnpinned x s₀ s)
    (hstep : nextPinning u refresh s = some t) : StaysUnpinned x s₀ t := by
  unfold nextPinning at hstep
  split at hstep
  · cases hstep
    exact h.step rfl (fun htask hnot => ⟨htask, hnot, rfl⟩)
  · obtain ⟨best, -, hstep⟩ := Option.bind_eq_some_iff.mp hstep
    obtain ⟨host, tids, happly, -, -⟩ := applyPinning_spec u best (refreshTasks refresh s)
    obtain rfl := Option.some.inj (happly.symm.trans hstep)
    exact h.of_applied rfl

section Runs

variable [Zero D] [Add D] [Div D] [IntCast D] [NatCast D] [LT D] [DecidableLT D]

theorem Effect.unpinned (hu : u.monitor.Pinless) {x : Int} {s₀ s t : State M D} {e : Event}
    (he : Effect u s e t) (hstep : step u s e = some t) (hlate : LatePinned s e) (h : StaysUnpinned x s₀ s) :
    StaysUnpinned x s₀ t := by
  cases he with
  | ignored => exact h
  | startPinning hfire hq hsearch hslot =>
    obtain ⟨-, initTimer, restarts, rfl⟩ := hfire.due
    obtain ⟨pinning, hp⟩ := hsearch.pinning id
    obtain ⟨host, tids, hspec, -, -⟩ := slotStartPinning_spec u _ hp
    obtain rfl := Option.some.inj (hspec.symm.trans hslot)
    exact h.of_applied rfl
  | startMonitor => exact slotStartMonitor_unpinned hu _ h
  | stopPinning ht hq hsearch hread hch hnext =>
    refine nextPinning_unpinned ?_ hnext
    refine h.step rfl (fun htask _ => ⟨htask, by simp [pinnedTids, measuredState], ?_⟩)
    exact requests_congr ((readTasks_affinity hu hread).trans (checkPinned_affinity hu _ _ _)) x
  | created => exact slotTaskCreated_unpinned hu h hlate hstep
  | terminated => exact slotTaskTerminated_unpinned hu h
  | phaseChanged => exact slotPhaseChanged_unpinned h

/-- A signal for a task that is in the list already is harmless exactly if the task is pinned. In every
run in which each such signal is for a pinned task, a task of the list that is not pinned stays so until
the next pinning is applied. -/
theorem late_created_harmless_iff (u : Setup M D) (session : Session M) (hne : u.pinnings ≠ [])
    (hty : u.monitorType ≠ .unknown) (hu : u.monitor.Pinless) :
    (∀ (s : State M D) (tid : Int), s.notifications = true → tid ∈ s.tasks →
      (Harmless u tid s ↔ tid ∈ pinnedTids s)) ∧
    ∀ (es fs : List Event) (s t : State M D) (x : Int), run (step u) (ready session) es = some s →
      Admitted (step u) LatePinned s fs → run (step u) s fs = some t → t.applied = s.applied →
      x ∈ s.tasks → x ∉ pinnedTids s → x ∉ pinnedTids t ∧ requests t x = requests s x := by
  refine ⟨fun s tid hn _ => harmless_iff hn, ?_⟩
  intro es fs s t x hes hlate hfs happlied htask hnot
  obtain ⟨s', stage, hs', hin, -⟩ := run_effect (fun _ => True) hty (fun _ _ _ _ _ _ _ _ => trivial)
    (ready_inStage session hne) trivial (admitted_true _ _ es)
  obtain rfl := Option.some.inj (hs'.symm.trans hes)
  obtain ⟨t', -, ht', -, hstays⟩ := run_steps (StaysUnpinned x s') hty
    (fun _ _ _ _ _ hstep he hlate h => he.unpinned hu hstep hlate h) hin
    ⟨le_refl _, fun _ => ⟨htask, hnot, rfl⟩⟩ hlate
  obtain rfl := Option.some.inj (ht'.symm.trans hfs)
  exact (hstays.unpinned (congrArg List.length happlied)).2

/-- `tracedSampling` where the task at position 1 is skipped. -/
def skipSecond : Setup (PageMigrate Int) Int := { tracedSampling with skip := .singleton 1 }

/-- The second of three tasks is skipped. The late signal for it pushes it a second time, and pins it
as the task at position 3. -/
theorem skipSecond_late_pinned :
    ∃ s t : State (PageMigrate Int) Int,
      run (step skipSecond) (ready ⟨{}, {}, {}⟩) [.initTimeout threeTasks] = some s ∧
      s.notifications = true ∧ s.tasks = [10, 11, 12] ∧ pinnedTids s = [10, 12] ∧
      step skipSecond s (.taskCreated 11) = some t ∧ t.applied = s.applied ∧
      t.tasks = [10, 11, 12, 11] ∧ pinnedTids t = [10, 12, 11] ∧ requests s 11 = [] ∧
      requests t 11 = [⟨11, 2, 0⟩] ∧ ¬ Harmless skipSecond 11 s := by
  refine ⟨_, _, rfl, rfl, rfl, rfl, rfl, rfl, rfl, rfl, rfl, rfl, ?_⟩
  rintro ⟨t, ht, htasks, -⟩
  cases ht
  exact absurd htasks (by decide)

/-- A late signal for a pinned task, after which the skipped one is still not pinned. -/
theorem skipSecond_harmless :
    ∃ s t : State (PageMigrate Int) Int,
      run (step skipSecond) (ready ⟨{}, {}, {}⟩) [.initTimeout threeTasks] = some s ∧
      Harmless skipSecond 12 s ∧
      run (step skipSecond) s [.taskCreated 12, .taskCreated 13] = some t ∧ 11 ∉ pinnedTids t ∧
      requests t 11 = [] := by
  obtain ⟨hiff, hrun⟩ := late_created_harmless_iff skipSecond ⟨{}, {}, {}⟩ (by decide) (by decide)
    (PageMigrate.monitor_pinless id)
  refine ⟨_, _, rfl, (hiff _ 12 rfl (by decide)).mpr (by decide), rfl, ?_⟩
  refine hrun [.initTimeout threeTasks] [.taskCreated 12, .taskCreated 13] _ _ 11 rfl ?_ rfl rfl (by decide)
    (by decide)
  refine ⟨fun _ _ => by decide, ?_⟩
  rintro _ ⟨⟩
  exact ⟨fun _ hmem => absurd hmem (by decide), fun _ _ => trivial⟩

end Runs

end Autopin1

end AutopinPlus
