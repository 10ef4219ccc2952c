import AutopinPlus.Tracers

/-!
# A tracer and its tasks

While each report of a task is returned to the thread that traces it, a task that the thread does not know is new and
stopped, or has not reported its first stop yet, and a clone event is returned once. If all reports were returned to
the thread, a stopped task has a clone event that will be.
-/
namespace AutopinPlus

namespace Tracers

variable {w w' : Tracers} {k : Nat} {s t : TraceThread}

/-- Where the tasks of thread `k` stand. -/
def stage (w : Tracers) (k : Nat) (tid : Int) : Option TaskStage :=
  match w.tracees tid with
  | some x => if x.tracer = k then some x.stage else none
  | none => none

theorem stage_eq_some {tid : Int} {x : TaskStage} : w.stage k tid = some x ↔ w.tracees tid = some ⟨k, x⟩ := by
  unfold stage
  cases h : w.tracees tid with
  | none => simp
  | some y =>
    obtain ⟨j, y⟩ := y
    by_cases hj : j = k <;> simp [hj]

theorem stage_of_tracees {tid : Int} {x : Tracee} (h : w.tracees tid = some x) :
    w.stage k tid = if x.tracer = k then some x.stage else none := by
  rw [stage, h]

theorem put_tracees (w : Tracers) (tid : Int) (x : Tracee) : (w.put tid x).tracees = enter w.tracees tid x := rfl

theorem stage_put (w : Tracers) (k : Nat) (tid : Int) (x : TaskStage) :
    (w.put tid ⟨k, x⟩).stage k = enter (w.stage k) tid x := by
  funext y
  by_cases hy : y = tid
  · simp [stage, put, hy]
  · simp [stage, put, enter_ne _ _ hy]

theorem stage_put_ne {j : Nat} (hj : j ≠ k) {tid : Int} (h : w.stage k tid = none) (x : TaskStage) :
    (w.put tid ⟨j, x⟩).stage k = w.stage k := by
  funext y
  by_cases hy : y = tid
  · rw [hy, h]
    simp [stage, put, hj]
  · simp [stage, put, enter_ne _ _ hy]

/-- Other threads continue only their own tasks. -/
theorem stage_resume_ne {j : Nat} (hj : j ≠ k) (w : Tracers) (s t : TraceThread) :
    (w.resume j s t).stage k = w.stage k := by
  funext y
  by_cases hcont : w.tracees y = some ⟨j, .stopped⟩ ∧ (t.history.drop s.history.length).any (TraceAction.continues y)
  · have hresumed : (w.resume j s t).tracees y = some ⟨j, .running⟩ := if_pos hcont
    rw [stage_of_tracees hresumed, stage_of_tracees hcont.1, if_neg hj, if_neg hj]
  · have hkept : (w.resume j s t).tracees y = w.tracees y := if_neg hcont
    rw [stage, hkept, stage]

theorem stage_resume (w : Tracers) (k : Nat) (s t : TraceThread) (tid : Int) :
    (w.resume k s t).stage k tid =
      if w.stage k tid = some .stopped ∧ (t.history.drop s.history.length).any (TraceAction.continues tid) then
        some .running
      else w.stage k tid := by
  split_ifs with hcont
  · have hresumed : (w.resume k s t).tracees tid = some ⟨k, .running⟩ := if_pos (by rwa [← stage_eq_some])
    exact stage_eq_some.mpr hresumed
  · have hkept : (w.resume k s t).tracees tid = w.tracees tid := if_neg (by rwa [← stage_eq_some])
    rw [stage, hkept, stage]

/-! ## What can happen to a thread and its tasks -/

/-- The clone event of the task has not been returned yet. -/
def Announces (stage : Int → Option TaskStage) (child : Int) : Prop :=
  ∃ tid event, event ≠ .other ∧ stage tid = some (.reporting (.stopped (.sigtrap event (some child))))

/-- A thread and its tasks, while no report goes astray. -/
structure Sound (s : TraceThread) (stage : Int → Option TaskStage) : Prop where
  isError : s.context.isError = false
  emitted : ∀ call ∈ s.emitted, (stage call.tid).isSome
  known : ∀ tid ∈ s.tasks, (stage tid).isSome
  unborn : ∀ tid x, stage tid = some x → tid ∉ s.tasks →
    x = .reporting (.stopped .sigstop) ∨ x = .stopped ∨ x = .gone
  halfway : ∀ tid ∈ s.newTasks, tid ∉ s.tasks ∧
    (stage tid = some (.reporting (.stopped .sigstop)) ∧ ¬ Announces stage tid ∨ stage tid = some .stopped)
  announced : ∀ tid, Announces stage tid → tid ∉ s.tasks ∧
    (stage tid = some (.reporting (.stopped .sigstop)) ∧ tid ∉ s.newTasks ∨ stage tid = some .stopped)
  once : ∀ child tid tid' event event', stage tid = some (.reporting (.stopped (.sigtrap event (some child)))) →
    stage tid' = some (.reporting (.stopped (.sigtrap event' (some child)))) → event ≠ .other → event' ≠ .other →
    tid = tid'
  legible : ∀ tid status, stage tid = some (.reporting status) → status.legible = true

/-- What a thread and its tasks become by one event, if its report does not go astray. -/
inductive Moves (s : TraceThread) (stage : Int → Option TaskStage) (t : TraceThread)
    (stage' : Int → Option TaskStage) : Prop
  | same (htasks : t.tasks = s.tasks) (hnew : t.newTasks = s.newTasks) (hemitted : t.emitted = s.emitted)
      (herror : t.context.isError = s.context.isError) (hstage : stage' = stage)
  | cloned (tid child : Int) (event : PtraceEvent) (hrun : stage tid = some .running) (hborn : stage child = none)
      (hevent : event ≠ .other) (ht : t = s)
      (hstage : stage' = enter (enter stage tid (.reporting (.stopped (.sigtrap event (some child))))) child
        (.reporting (.stopped .sigstop)))
  | stops (tid : Int) (sig : StopSignal) (hrun : stage tid = some .running) (hplain : sig.plain = true) (ht : t = s)
      (hstage : stage' = enter stage tid (.reporting (.stopped sig)))
  | dies (tid : Int) (status : WaitStatus) (hends : status.ends = true) (hknown : tid ∈ s.tasks)
      (htimely : stage tid = some .running ∨
        ∃ sig, stage tid = some (.reporting (.stopped sig)) ∧ sig.plain = true)
      (ht : t = s) (hstage : stage' = enter stage tid (.reporting status))
  | ended (tid : Int) (status : WaitStatus) (hreport : stage tid = some (.reporting status))
      (hends : status.ends = true) (hknown : tid ∈ s.tasks) (htasks : t.tasks = s.tasks.erase tid)
      (hnew : t.newTasks = s.newTasks) (hemitted : t.emitted = s.emitted ++ [.terminated tid])
      (herror : t.context.isError = false) (hstage : stage' = enter stage tid .gone)
  | plain (tid : Int) (sig : StopSignal) (hreport : stage tid = some (.reporting (.stopped sig)))
      (hplain : sig.plain = true) (hknown : tid ∈ s.tasks) (htasks : t.tasks = s.tasks)
      (hnew : t.newTasks = s.newTasks) (hemitted : t.emitted = s.emitted) (herror : t.context.isError = false)
      (hstage : stage' = enter stage tid .running)
  | firstClone (tid child : Int) (event : PtraceEvent) (hevent : event ≠ .other)
      (hreport : stage tid = some (.reporting (.stopped (.sigtrap event (some child))))) (hknown : tid ∈ s.tasks)
      (hfirst : child ∉ s.newTasks) (htasks : t.tasks = s.tasks) (hnew : t.newTasks = s.newTasks.insert child)
      (hemitted : t.emitted = s.emitted) (herror : t.context.isError = false)
      (hstage : stage' = enter stage tid .running)
  | secondClone (tid child : Int) (event : PtraceEvent) (hevent : event ≠ .other)
      (hreport : stage tid = some (.reporting (.stopped (.sigtrap event (some child))))) (hknown : tid ∈ s.tasks)
      (hsecond : child ∈ s.newTasks) (hstopped : stage child = some .stopped)
      (htasks : t.tasks = s.tasks.insert child) (hnew : t.newTasks = s.newTasks.erase child)
      (hemitted : t.emitted = s.emitted ++ [.created child]) (herror : t.context.isError = false)
      (hstage : stage' = enter (enter stage tid .running) child .running)
  | firstStop (tid : Int) (hreport : stage tid = some (.reporting (.stopped .sigstop))) (hunknown : tid ∉ s.tasks)
      (hfirst : tid ∉ s.newTasks) (htasks : t.tasks = s.tasks) (hnew : t.newTasks = s.newTasks.insert tid)
      (hemitted : t.emitted = s.emitted) (herror : t.context.isError = false)
      (hstage : stage' = enter stage tid .stopped)
  | secondStop (tid : Int) (hreport : stage tid = some (.reporting (.stopped .sigstop))) (hunknown : tid ∉ s.tasks)
      (hsecond : tid ∈ s.newTasks) (htasks : t.tasks = s.tasks.insert tid) (hnew : t.newTasks = s.newTasks.erase tid)
      (hemitted : t.emitted = s.emitted ++ [.created tid]) (herror : t.context.isError = false)
      (hstage : stage' = enter stage tid .running)

variable {stage stage' : Int → Option TaskStage}

theorem announces_enter {tid c : Int} {x : TaskStage} (h : Announces (enter stage tid x) c)
    (hx : ∀ event, event ≠ .other → x ≠ .reporting (.stopped (.sigtrap event (some c)))) :
    ∃ y event, y ≠ tid ∧ event ≠ .other ∧ stage y = some (.reporting (.stopped (.sigtrap event (some c)))) := by
  obtain ⟨y, event, hevent, hy⟩ := h
  by_cases htid : y = tid
  · rw [htid, enter_self, Option.some.injEq] at hy
    exact absurd hy (hx event hevent)
  · rw [enter_ne _ _ htid] at hy
    exact ⟨y, event, htid, hevent, hy⟩

theorem announces_of_running {tid c : Int} (h : Announces (enter stage tid .running) c) : Announces stage c := by
  obtain ⟨y, event, -, hevent, hreport⟩ := announces_enter h (by simp)
  exact ⟨y, event, hevent, hreport⟩

theorem announces_of_report {tid c : Int} {event : PtraceEvent} (hevent : event ≠ .other)
    (h : stage tid = some (.reporting (.stopped (.sigtrap event (some c))))) : Announces stage c :=
  ⟨tid, event, hevent, h⟩

theorem legible_of_plain {sig : StopSignal} (h : sig.plain = true) : (WaitStatus.stopped sig).legible = true := by
  cases sig with
  | sigtrap event msg => exact (Bool.and_eq_true_iff.mp h).2
  | sigstop => rfl
  | other sig => rfl

theorem legible_of_ends {status : WaitStatus} (h : status.ends = true) : status.legible = true := by
  cases status with
  | stopped sig => cases h
  | other => cases h
  | exited => rfl
  | signaled => rfl

/-- Only a clone makes a clone event. -/
theorem Moves.announces (hm : Moves s stage t stage') {c : Int} (h : Announces stage' c) :
    Announces stage c ∨ stage c = none ∧ stage' c = some (.reporting (.stopped .sigstop)) ∧ t = s := by
  cases hm with
  | cloned tid child event hrun hborn hevent ht hstage =>
    subst hstage
    by_cases hc : c = child
    · exact .inr ⟨hc ▸ hborn, by simp [hc], ht⟩
    · obtain ⟨y, e, hy, he, hreport⟩ := announces_enter h (by simp)
      have hne : y ≠ tid := by
        rintro rfl
        simp [Ne.symm hc] at hreport
      rw [enter_ne _ _ hne] at hreport
      exact .inl ⟨y, e, he, hreport⟩
  | same htasks hnew hemitted herror hstage => exact .inl (hstage ▸ h)
  | stops tid sig hrun hplain ht hstage =>
    subst hstage
    obtain ⟨y, e, -, he, hreport⟩ := announces_enter h (by
      rintro e he h
      cases h
      simp [StopSignal.plain, he] at hplain)
    exact .inl ⟨y, e, he, hreport⟩
  | dies tid status hends hknown htimely ht hstage =>
    subst hstage
    obtain ⟨y, e, -, he, hreport⟩ := announces_enter h (by
      rintro e he h
      cases h
      cases hends)
    exact .inl ⟨y, e, he, hreport⟩
  | secondClone tid child event hevent hreport hknown hsecond hstopped htasks hnew hemitted herror hstage =>
    subst hstage
    obtain ⟨y, e, hy, he, hreport⟩ := announces_enter h (by simp)
    obtain ⟨y, e, hy, he, hreport⟩ := announces_enter ⟨y, e, he, hreport⟩ (by simp)
    exact .inl ⟨y, e, he, hreport⟩
  | _ =>
    subst_vars
    obtain ⟨y, e, hy, he, hreport⟩ := announces_enter h (by simp)
    exact .inl ⟨y, e, he, hreport⟩

/-- A clone event that has been returned will not come again. -/
theorem Sound.announced_once (h : Sound s stage) {tid child : Int} {event : PtraceEvent} (hevent : event ≠ .other)
    (hreport : stage tid = some (.reporting (.stopped (.sigtrap event (some child))))) :
    ¬ Announces (enter stage tid .running) child := by
  intro hannounces
  obtain ⟨y, e, hy, he, hreport'⟩ := announces_enter hannounces (by simp)
  exact hy (h.once child y tid e event hreport' hreport he hevent)

theorem Sound.task_of_running (h : Sound s stage) {tid : Int} (hrun : stage tid = some .running) : tid ∈ s.tasks := by
  by_contra hunknown
  rcases h.unborn tid _ hrun hunknown with heq | heq | heq <;> cases heq

/-- Only a new task reports SIGSTOP without being known. -/
theorem Sound.task_of_reporting (h : Sound s stage) {tid : Int} {status : WaitStatus}
    (hreport : stage tid = some (.reporting status)) (hne : status ≠ .stopped .sigstop) : tid ∈ s.tasks := by
  by_contra hunknown
  rcases h.unborn tid _ hreport hunknown with heq | heq | heq
  · exact hne (TaskStage.reporting.inj heq)
  · cases heq
  · cases heq

theorem enter_eq_some {tid y : Int} {x z : TaskStage} :
    enter stage tid x y = some z ↔ y = tid ∧ z = x ∨ y ≠ tid ∧ stage y = some z := by
  by_cases hy : y = tid
  · rw [hy, enter_self, Option.some.injEq]
    simp [eq_comm]
  · rw [enter_ne _ _ hy]
    simp [hy]

theorem isSome_enter {tid y : Int} (x : TaskStage) (h : (stage y).isSome) : (enter stage tid x y).isSome := by
  by_cases hy : y = tid
  · rw [hy, enter_self]
    rfl
  · rwa [enter_ne _ _ hy]

theorem Moves.isSome (hm : Moves s stage t stage') {tid : Int} (h : (stage tid).isSome) : (stage' tid).isSome := by
  cases hm with
  | same htasks hnew hemitted herror hstage => rwa [hstage]
  | cloned | secondClone =>
    subst_vars
    exact isSome_enter _ (isSome_enter _ h)
  | stops | dies | ended | plain | firstClone | firstStop | secondStop =>
    subst_vars
    exact isSome_enter _ h

/-- Only a second report makes a task known, and lets it run. -/
theorem Moves.new_task (hm : Moves s stage t stage') {tid : Int} (h : tid ∈ t.tasks) :
    tid ∈ s.tasks ∨ stage' tid = some .running := by
  cases hm with
  | cloned | stops | dies => exact .inl (‹t = s› ▸ h)
  | same | plain | firstClone | firstStop => exact .inl (‹t.tasks = s.tasks› ▸ h)
  | ended y status hreport hends hknown htasks hnew hemitted herror hstage =>
    rw [htasks, SortedSet.mem_erase] at h
    exact .inl h.1
  | secondClone y child event hevent hreport hknown hsecond hstopped htasks hnew hemitted herror hstage =>
    rw [htasks, SortedSet.mem_insert] at h
    rcases h with rfl | h
    · exact .inr (by rw [hstage, enter_self])
    · exact .inl h
  | secondStop y hreport hunknown hsecond htasks hnew hemitted herror hstage =>
    rw [htasks, SortedSet.mem_insert] at h
    rcases h with rfl | h
    · exact .inr (by rw [hstage, enter_self])
    · exact .inl h

/-- Only the report of its end makes a task unknown. -/
theorem Moves.keeps_task (hm : Moves s stage t stage') {tid : Int} (h : tid ∈ s.tasks) :
    tid ∈ t.tasks ∨ (∃ status, stage tid = some (.reporting status)) ∧ stage' tid = some .gone := by
  cases hm with
  | cloned | stops | dies => exact .inl (‹t = s› ▸ h)
  | same | plain | firstClone | firstStop => exact .inl (‹t.tasks = s.tasks› ▸ h)
  | ended y status hreport hends hknown htasks hnew hemitted herror hstage =>
    by_cases hy : tid = y
    · exact .inr ⟨⟨status, hy ▸ hreport⟩, by rw [hstage, hy, enter_self]⟩
    · exact .inl (by rw [htasks, SortedSet.mem_erase]; exact ⟨h, hy⟩)
  | secondClone y child event hevent hreport hknown hsecond hstopped htasks hnew hemitted herror hstage =>
    exact .inl (by rw [htasks, SortedSet.mem_insert]; exact .inr h)
  | secondStop y hreport hunknown hsecond htasks hnew hemitted herror hstage =>
    exact .inl (by rw [htasks, SortedSet.mem_insert]; exact .inr h)

/-- A task halfway through its birth remains so until the second report. -/
theorem Moves.keeps_new (hm : Moves s stage t stage') {tid : Int} (h : tid ∈ s.newTasks) :
    tid ∈ t.newTasks ∨ stage' tid = some .running := by
  cases hm with
  | cloned | stops | dies => exact .inl (‹t = s› ▸ h)
  | same | plain | ended => exact .inl (‹t.newTasks = s.newTasks› ▸ h)
  | firstClone y child event hevent hreport hknown hfirst htasks hnew hemitted herror hstage =>
    exact .inl (by rw [hnew, SortedSet.mem_insert]; exact .inr h)
  | firstStop y hreport hunknown hfirst htasks hnew hemitted herror hstage =>
    exact .inl (by rw [hnew, SortedSet.mem_insert]; exact .inr h)
  | secondClone y child event hevent hreport hknown hsecond hstopped htasks hnew hemitted herror hstage =>
    by_cases hy : tid = child
    · exact .inr (by rw [hstage, hy, enter_self])
    · exact .inl (by rw [hnew, SortedSet.mem_erase]; exact ⟨h, hy⟩)
  | secondStop y hreport hunknown hsecond htasks hnew hemitted herror hstage =>
    by_cases hy : tid = y
    · exact .inr (by rw [hstage, hy, enter_self])
    · exact .inl (by rw [hnew, SortedSet.mem_erase]; exact ⟨h, hy⟩)

/-- How a task came to stand where it stands after an event. -/
inductive Arrives (s t : TraceThread) (stage stage' : Int → Option TaskStage) (tid : Int) : TaskStage → Prop
  | stays {x : TaskStage} (hstays : stage tid = some x) : Arrives s t stage stage' tid x
  | runs (hcame : (∃ status, stage tid = some (.reporting status)) ∨ tid ∈ s.newTasks ∧ Announces stage tid)
      (hknown : tid ∈ t.tasks) (hnew : tid ∉ t.newTasks) (hquiet : ¬ Announces stage' tid) :
    Arrives s t stage stage' tid .running
  | waits (hreport : stage tid = some (.reporting (.stopped .sigstop))) (hunknown : tid ∉ s.tasks)
      (hfirst : tid ∉ s.newTasks) (hnew : tid ∈ t.newTasks) : Arrives s t stage stage' tid .stopped
  | leaves (hreport : ∃ status, stage tid = some (.reporting status)) (hknown : tid ∈ s.tasks)
      (hunknown : tid ∉ t.tasks) : Arrives s t stage stage' tid .gone
  | reports {status : WaitStatus} (hlives : stage tid = some .running ∨ ∃ status, stage tid = some (.reporting status))
      (hknown : tid ∈ s.tasks) (ht : t = s) (hlegible : status.legible = true)
      (hplain : ∀ event child, event ≠ .other → status ≠ .stopped (.sigtrap event (some child))) :
    Arrives s t stage stage' tid (.reporting status)
  | clones {event : PtraceEvent} {child : Int} (hrun : stage tid = some .running) (hknown : tid ∈ s.tasks) (ht : t = s)
      (honly : ∀ y e, e ≠ .other → stage' y = some (.reporting (.stopped (.sigtrap e (some child)))) → y = tid) :
    Arrives s t stage stage' tid (.reporting (.stopped (.sigtrap event (some child))))
  | born (hborn : stage tid = none) (hannounced : Announces stage' tid) :
    Arrives s t stage stage' tid (.reporting (.stopped .sigstop))

theorem Sound.quiet_of_task (h : Sound s stage) {tid : Int} (hknown : tid ∈ s.tasks) :
    tid ∉ s.newTasks ∧ ¬ Announces stage tid :=
  ⟨fun hnew => (h.halfway tid hnew).1 hknown, fun hannounces => (h.announced tid hannounces).1 hknown⟩

theorem Sound.arrives_cloned (h : Sound s stage) {tid y child : Int} {event : PtraceEvent} {x : TaskStage}
    (hrun : stage y = some .running) (hborn : stage child = none) (hevent : event ≠ .other) (ht : t = s)
    (hstage : stage' = enter (enter stage y (.reporting (.stopped (.sigtrap event (some child))))) child
      (.reporting (.stopped .sigstop)))
    (hx : stage' tid = some x) : Arrives s t stage stage' tid x := by
  have hne : y ≠ child := by
    rintro rfl
    simp [hborn] at hrun
  rw [hstage, enter_eq_some, enter_eq_some] at hx
  rcases hx with ⟨rfl, rfl⟩ | ⟨hchild, ⟨rfl, rfl⟩ | ⟨hy, hx⟩⟩
  · exact .born hborn ⟨y, event, hevent, by rw [hstage, enter_ne _ _ hne, enter_self]⟩
  · refine .clones hrun (h.task_of_running hrun) ht ?_
    intro z e he hz
    -- Nobody has announced a task that was not there.
    rw [hstage, enter_eq_some, enter_eq_some] at hz
    rcases hz with ⟨-, hz⟩ | ⟨-, ⟨hz, -⟩ | ⟨-, hz⟩⟩
    · cases hz
    · exact hz
    · rcases (h.announced child ⟨z, e, he, hz⟩).2 with ⟨hstop, -⟩ | hstop <;> simp [hborn] at hstop
  · exact .stays hx

theorem Sound.arrives_secondClone (h : Sound s stage) {tid y child : Int} {event : PtraceEvent} {x : TaskStage}
    (hevent : event ≠ .other) (hreport : stage y = some (.reporting (.stopped (.sigtrap event (some child)))))
    (hknown : y ∈ s.tasks) (hsecond : child ∈ s.newTasks) (htasks : t.tasks = s.tasks.insert child)
    (hnew : t.newTasks = s.newTasks.erase child) (hstage : stage' = enter (enter stage y .running) child .running)
    (hx : stage' tid = some x) : Arrives s t stage stage' tid x := by
  obtain ⟨hhalf, hquiet⟩ := h.quiet_of_task hknown
  have hreturned {c : Int} (ha : Announces stage' c) : Announces (enter stage y .running) c :=
    announces_of_running (hstage ▸ ha)
  rw [hstage, enter_eq_some, enter_eq_some] at hx
  rcases hx with ⟨rfl, rfl⟩ | ⟨hchild, ⟨rfl, rfl⟩ | ⟨hy, hx⟩⟩
  · refine .runs (.inr ⟨hsecond, announces_of_report hevent hreport⟩) (by simp [htasks]) (by simp [hnew]) ?_
    exact mt hreturned (h.announced_once hevent hreport)
  · refine .runs (.inl ⟨_, hreport⟩) (by simp [htasks, hknown]) (by simp [hnew, hhalf]) ?_
    exact mt (fun ha => announces_of_running (hreturned ha)) hquiet
  · exact .stays hx

theorem Sound.arrives (h : Sound s stage) (hm : Moves s stage t stage') {tid : Int} {x : TaskStage}
    (hx : stage' tid = some x) : Arrives s t stage stage' tid x := by
  cases hm with
  | same htasks hnew hemitted herror hstage => exact .stays (hstage ▸ hx)
  | cloned y child event hrun hborn hevent ht hstage => exact h.arrives_cloned hrun hborn hevent ht hstage hx
  | stops y sig hrun hplain ht hstage =>
    rw [hstage, enter_eq_some] at hx
    rcases hx with ⟨rfl, rfl⟩ | ⟨hy, hx⟩
    · refine .reports (.inl hrun) (h.task_of_running hrun) ht (legible_of_plain hplain) ?_
      rintro event child hevent heq
      cases heq
      simp [StopSignal.plain, hevent] at hplain
    · exact .stays hx
  | dies y status hends hknown htimely ht hstage =>
    rw [hstage, enter_eq_some] at hx
    rcases hx with ⟨rfl, rfl⟩ | ⟨hy, hx⟩
    · have hlives : stage tid = some .running ∨ ∃ status, stage tid = some (.reporting status) := by
        rcases htimely with hrun | ⟨sig, hreport, -⟩
        · exact .inl hrun
        · exact .inr ⟨_, hreport⟩
      refine .reports hlives hknown ht (legible_of_ends hends) ?_
      rintro event child - heq
      cases heq
      cases hends
    · exact .stays hx
  | ended y status hreport hends hknown htasks hnew hemitted herror hstage =>
    rw [hstage, enter_eq_some] at hx
    rcases hx with ⟨rfl, rfl⟩ | ⟨hy, hx⟩
    · exact .leaves ⟨status, hreport⟩ hknown (by simp [htasks])
    · exact .stays hx
  | plain y sig hreport hplain hknown htasks hnew hemitted herror hstage =>
    obtain ⟨hhalf, hquiet⟩ := h.quiet_of_task hknown
    have hreturned : Announces stage' y → Announces stage y := fun ha => announces_of_running (hstage ▸ ha)
    rw [hstage, enter_eq_some] at hx
    rcases hx with ⟨rfl, rfl⟩ | ⟨hy, hx⟩
    · exact .runs (.inl ⟨_, hreport⟩) (htasks ▸ hknown) (hnew ▸ hhalf) (mt hreturned hquiet)
    · exact .stays hx
  | firstClone y child event hevent hreport hknown hfirst htasks hnew hemitted herror hstage =>
    obtain ⟨hhalf, hquiet⟩ := h.quiet_of_task hknown
    have hreturned : Announces stage' y → Announces stage y := fun ha => announces_of_running (hstage ▸ ha)
    have hchild := (h.announced child (announces_of_report hevent hreport)).1
    rw [hstage, enter_eq_some] at hx
    rcases hx with ⟨rfl, rfl⟩ | ⟨hy, hx⟩
    · refine .runs (.inl ⟨_, hreport⟩) (htasks ▸ hknown) ?_ (mt hreturned hquiet)
      rw [hnew, SortedSet.mem_insert, not_or]
      exact ⟨fun hself => hchild (hself ▸ hknown), hhalf⟩
    · exact .stays hx
  | secondClone y child event hevent hreport hknown hsecond hstopped htasks hnew hemitted herror hstage =>
    exact h.arrives_secondClone hevent hreport hknown hsecond htasks hnew hstage hx
  | firstStop y hreport hunknown hfirst htasks hnew hemitted herror hstage =>
    rw [hstage, enter_eq_some] at hx
    rcases hx with ⟨rfl, rfl⟩ | ⟨hy, hx⟩
    · exact .waits hreport hunknown hfirst (by simp [hnew])
    · exact .stays hx
  | secondStop y hreport hunknown hsecond htasks hnew hemitted herror hstage =>
    have hquiet : ¬ Announces stage y := by
      rcases (h.halfway y hsecond).2 with ⟨-, hquiet⟩ | hstopped
      · exact hquiet
      · simp [hreport] at hstopped
    have hreturned : Announces stage' y → Announces stage y := fun ha => announces_of_running (hstage ▸ ha)
    rw [hstage, enter_eq_some] at hx
    rcases hx with ⟨rfl, rfl⟩ | ⟨hy, hx⟩
    · exact .runs (.inl ⟨_, hreport⟩) (by simp [htasks]) (by simp [hnew]) (mt hreturned hquiet)
    · exact .stays hx

/-- Only a first report makes a task one halfway through its birth. -/
theorem Sound.new_new (h : Sound s stage) (hm : Moves s stage t stage') {tid : Int} (hmem : tid ∈ t.newTasks) :
    tid ∈ s.newTasks ∨ Announces stage tid ∧ ¬ Announces stage' tid ∧ stage' tid = stage tid ∨
      stage tid = some (.reporting (.stopped .sigstop)) ∧ tid ∉ s.tasks ∧ stage' tid = some .stopped := by
  cases hm with
  | cloned | stops | dies => exact .inl (‹t = s› ▸ hmem)
  | same | plain | ended => exact .inl (‹t.newTasks = s.newTasks› ▸ hmem)
  | firstClone y child event hevent hreport hknown hfirst htasks hnew hemitted herror hstage =>
    have hannounces := announces_of_report hevent hreport
    rw [hnew, SortedSet.mem_insert] at hmem
    rcases hmem with rfl | hmem
    · have hne : tid ≠ y := fun hself => (h.announced tid hannounces).1 (hself ▸ hknown)
      exact .inr (.inl ⟨hannounces, by rw [hstage]; exact h.announced_once hevent hreport,
        by rw [hstage, enter_ne _ _ hne]⟩)
    · exact .inl hmem
  | firstStop y hreport hunknown hfirst htasks hnew hemitted herror hstage =>
    rw [hnew, SortedSet.mem_insert] at hmem
    rcases hmem with rfl | hmem
    · exact .inr (.inr ⟨hreport, hunknown, by rw [hstage, enter_self]⟩)
    · exact .inl hmem
  | secondClone y child event hevent hreport hknown hsecond hstopped htasks hnew hemitted herror hstage =>
    rw [hnew, SortedSet.mem_erase] at hmem
    exact .inl hmem.1
  | secondStop y hreport hunknown hsecond htasks hnew hemitted herror hstage =>
    rw [hnew, SortedSet.mem_erase] at hmem
    exact .inl hmem.1

theorem Sound.moves_isError (h : Sound s stage) (hm : Moves s stage t stage') : t.context.isError = false := by
  cases hm with
  | same htasks hnew hemitted herror hstage => exact herror.trans h.isError
  | cloned | stops | dies => exact ‹t = s› ▸ h.isError
  | ended | plain | firstClone | secondClone | firstStop | secondStop => assumption

theorem Sound.moves_emitted (h : Sound s stage) (hm : Moves s stage t stage') :
    ∀ call ∈ t.emitted, (stage' call.tid).isSome := by
  have hold : ∀ call ∈ s.emitted, (stage' call.tid).isSome := fun call hcall => hm.isSome (h.emitted call hcall)
  have hsignal {call : SlotCall} (hemitted : t.emitted = s.emitted ++ [call]) (hcall : (stage' call.tid).isSome) :
      ∀ call ∈ t.emitted, (stage' call.tid).isSome := by
    rw [hemitted, List.forall_mem_append, List.forall_mem_singleton]
    exact ⟨hold, hcall⟩
  cases hm with
  | cloned | stops | dies => exact ‹t = s› ▸ hold
  | same | plain | firstClone | firstStop => exact ‹t.emitted = s.emitted› ▸ hold
  | ended y status hreport hends hknown htasks hnew hemitted herror hstage =>
    exact hsignal hemitted (by simp [hstage, SlotCall.tid])
  | secondClone y child event hevent hreport hknown hsecond hstopped htasks hnew hemitted herror hstage =>
    exact hsignal hemitted (by simp [hstage, SlotCall.tid])
  | secondStop y hreport hunknown hsecond htasks hnew hemitted herror hstage =>
    exact hsignal hemitted (by simp [hstage, SlotCall.tid])

theorem Sound.moves_known (h : Sound s stage) (hm : Moves s stage t stage') :
    ∀ tid ∈ t.tasks, (stage' tid).isSome := by
  intro tid hmem
  rcases hm.new_task hmem with hmem | hrun
  · exact hm.isSome (h.known tid hmem)
  · rw [hrun]
    rfl

theorem Sound.moves_unborn (h : Sound s stage) (hm : Moves s stage t stage') :
    ∀ tid x, stage' tid = some x → tid ∉ t.tasks →
    x = .reporting (.stopped .sigstop) ∨ x = .stopped ∨ x = .gone := by
  intro tid x hx hunknown
  cases h.arrives hm hx with
  | stays hstays =>
    by_cases hknown : tid ∈ s.tasks
    · rcases hm.keeps_task hknown with hknown | ⟨-, hgone⟩
      · exact absurd hknown hunknown
      · exact .inr (.inr (Option.some.inj (hx.symm.trans hgone)))
    · exact h.unborn tid x hstays hknown
  | runs _ hknown _ _ => exact absurd hknown hunknown
  | waits => exact .inr (.inl rfl)
  | leaves => exact .inr (.inr rfl)
  | reports _ hknown ht _ _ => exact absurd (ht ▸ hknown) hunknown
  | clones _ hknown ht _ => exact absurd (ht ▸ hknown) hunknown
  | born => exact .inl rfl

/-- A task that was not known and does not run now is still not known. -/
theorem Moves.unknown (hm : Moves s stage t stage') {tid : Int} (hunknown : tid ∉ s.tasks)
    (hrun : stage' tid ≠ some .running) : tid ∉ t.tasks := by
  intro hmem
  rcases hm.new_task hmem with hknown | hrun'
  · exact hunknown hknown
  · exact hrun hrun'

theorem idle_of_halfway {tid : Int} {q : Prop}
    (h : stage tid = some (.reporting (.stopped .sigstop)) ∧ q ∨ stage tid = some .stopped) :
    stage tid ≠ none ∧ stage tid ≠ some .running := by
  rcases h with ⟨h, -⟩ | h
  · simp [h]
  · simp [h]

/-- A task halfway through its birth, after its first report. -/
theorem Sound.moves_halfway (h : Sound s stage) (hm : Moves s stage t stage') :
    ∀ tid ∈ t.newTasks, tid ∉ t.tasks ∧
      (stage' tid = some (.reporting (.stopped .sigstop)) ∧ ¬ Announces stage' tid ∨ stage' tid = some .stopped) := by
  intro tid hmem
  rcases h.new_new hm hmem with hhalf | ⟨hannounces, hreturned, hkept⟩ | ⟨-, hunknown, hstop⟩
  · obtain ⟨hunknown, hstage⟩ := h.halfway tid hhalf
    obtain ⟨hborn, hidle⟩ := idle_of_halfway hstage
    have hquiet : ¬ Announces stage tid → ¬ Announces stage' tid := by
      intro hquiet hannounces
      rcases hm.announces hannounces with hannounces | ⟨hnone, -, -⟩
      · exact hquiet hannounces
      · exact hborn hnone
    obtain ⟨x, hx⟩ := Option.isSome_iff_exists.mp (hm.isSome (Option.isSome_iff_ne_none.mpr hborn))
    cases h.arrives hm hx with
    | stays hstays =>
      have hkept : stage' tid = stage tid := hx.trans hstays.symm
      rw [hkept]
      exact ⟨hm.unknown hunknown (hkept ▸ hidle), hstage.imp_left (And.imp_right hquiet)⟩
    | runs _ _ hnew _ => exact absurd hmem hnew
    | waits _ _ hfirst _ => exact absurd hhalf hfirst
    | leaves _ hknown _ => exact absurd hknown hunknown
    | reports _ hknown _ _ _ => exact absurd hknown hunknown
    | clones _ hknown _ _ => exact absurd hknown hunknown
    | born hnone _ => exact absurd hnone hborn
  · obtain ⟨hunknown, hstage⟩ := h.announced tid hannounces
    have hidle := (idle_of_halfway hstage).2
    rw [hkept]
    exact ⟨hm.unknown hunknown (hkept ▸ hidle), hstage.imp_left fun hstop => ⟨hstop.1, hreturned⟩⟩
  · exact ⟨hm.unknown hunknown (by simp [hstop]), .inr hstop⟩

/-- A task whose clone event will come. -/
theorem Sound.moves_announced (h : Sound s stage) (hm : Moves s stage t stage') :
    ∀ tid, Announces stage' tid → tid ∉ t.tasks ∧
      (stage' tid = some (.reporting (.stopped .sigstop)) ∧ tid ∉ t.newTasks ∨ stage' tid = some .stopped) := by
  intro tid hannounces
  rcases hm.announces hannounces with hbefore | ⟨hnone, hstop, ht⟩
  · obtain ⟨hunknown, hstage⟩ := h.announced tid hbefore
    obtain ⟨hborn, hidle⟩ := idle_of_halfway hstage
    obtain ⟨x, hx⟩ := Option.isSome_iff_exists.mp (hm.isSome (Option.isSome_iff_ne_none.mpr hborn))
    cases h.arrives hm hx with
    | stays hstays =>
      have hkept : stage' tid = stage tid := hx.trans hstays.symm
      refine ⟨hm.unknown hunknown (hkept ▸ hidle), ?_⟩
      rcases hstage with ⟨hstop, hfirst⟩ | hstop
      · refine .inl ⟨hkept.trans hstop, fun hmem => ?_⟩
        rcases h.new_new hm hmem with hhalf | ⟨-, hreturned, -⟩ | ⟨-, -, hstop'⟩
        · exact hfirst hhalf
        · exact hreturned hannounces
        · simp [hkept, hstop] at hstop'
      · exact .inr (hkept.trans hstop)
    | runs _ _ _ hquiet => exact absurd hannounces hquiet
    | waits => exact ⟨hm.unknown hunknown (by simp [hx]), .inr hx⟩
    | leaves _ hknown _ => exact absurd hknown hunknown
    | reports _ hknown _ _ _ => exact absurd hknown hunknown
    | clones _ hknown _ _ => exact absurd hknown hunknown
    | born hnone _ => exact absurd hnone hborn
  · have hunknown : tid ∉ s.tasks := fun hmem => by simpa [hnone] using h.known tid hmem
    have hfirst : tid ∉ s.newTasks := fun hmem => (idle_of_halfway (h.halfway tid hmem).2).1 hnone
    exact ht ▸ ⟨hunknown, .inl ⟨hstop, hfirst⟩⟩

theorem Sound.moves_once (h : Sound s stage) (hm : Moves s stage t stage') :
    ∀ child tid tid' event event', stage' tid = some (.reporting (.stopped (.sigtrap event (some child)))) →
    stage' tid' = some (.reporting (.stopped (.sigtrap event' (some child)))) → event ≠ .other → event' ≠ .other →
    tid = tid' := by
  intro child tid tid' event event' hreport hreport' hevent hevent'
  cases h.arrives hm hreport with
  | stays hstays =>
    cases h.arrives hm hreport' with
    | stays hstays' => exact h.once child tid tid' event event' hstays hstays' hevent hevent'
    | reports _ _ _ _ hplain => exact absurd rfl (hplain event' child hevent')
    | clones _ _ _ honly => exact honly tid event hevent hreport
  | reports _ _ _ _ hplain => exact absurd rfl (hplain event child hevent)
  | clones _ _ _ honly => exact (honly tid' event' hevent' hreport').symm

theorem Sound.moves_legible (h : Sound s stage) (hm : Moves s stage t stage') :
    ∀ tid status, stage' tid = some (.reporting status) → status.legible = true := by
  intro tid status hreport
  cases h.arrives hm hreport with
  | stays hstays => exact h.legible tid status hstays
  | reports _ _ _ hlegible _ => exact hlegible
  | clones => rfl
  | born => rfl

theorem Sound.moves (h : Sound s stage) (hm : Moves s stage t stage') : Sound t stage' where
  isError := h.moves_isError hm
  emitted := h.moves_emitted hm
  known := h.moves_known hm
  unborn := h.moves_unborn hm
  halfway := h.moves_halfway hm
  announced := h.moves_announced hm
  once := h.moves_once hm
  legible := h.moves_legible hm

/-- No report has gone astray: only tasks halfway through their birth are stopped, and what they wait for will come. -/
structure Whole (s : TraceThread) (stage : Int → Option TaskStage) : Prop extends Sound s stage where
  stopped : ∀ tid, stage tid = some .stopped → tid ∈ s.newTasks ∧ Announces stage tid
  live : ∀ tid ∈ s.tasks, stage tid = some .running ∨ ∃ status, stage tid = some (.reporting status)
  waiting : ∀ tid, stage tid = some (.reporting (.stopped .sigstop)) → tid ∉ s.tasks → tid ∉ s.newTasks →
    Announces stage tid

/-- The mark of a report that went astray: a task stays stopped, or the thread never learns of its end. -/
def Loss (s : TraceThread) (stage : Int → Option TaskStage) : Prop :=
  ∃ tid, stage tid = some .stopped ∧ ¬ (tid ∈ s.newTasks ∧ Announces stage tid) ∨
    stage tid = some .gone ∧ tid ∈ s.tasks

/-- Only its return takes a clone event away. -/
theorem Moves.keeps_report (hm : Moves s stage t stage') {tid c : Int} {event : PtraceEvent} (hevent : event ≠ .other)
    (hreport : stage tid = some (.reporting (.stopped (.sigtrap event (some c))))) :
    stage' tid = stage tid ∨
      c ∉ s.newTasks ∧ c ∈ t.newTasks ∧ tid ∈ s.tasks ∧ stage' = enter stage tid .running ∨
      stage' c = some .running := by
  have hother {y : Int} {x : Option TaskStage} (hy : stage y = x)
      (hx : x ≠ some (.reporting (.stopped (.sigtrap event (some c))))) : tid ≠ y := by
    rintro rfl
    exact hx (hy.symm.trans hreport)
  cases hm with
  | same htasks hnew hemitted herror hstage => exact .inl (by rw [hstage])
  | cloned y child e hrun hborn he ht hstage =>
    exact .inl (by rw [hstage, enter_ne _ _ (hother hborn (by simp)), enter_ne _ _ (hother hrun (by simp))])
  | stops y sig hrun hplain ht hstage => exact .inl (by rw [hstage, enter_ne _ _ (hother hrun (by simp))])
  | dies y status hends hknown htimely ht hstage =>
    have hy : tid ≠ y := by
      rcases htimely with hrun | ⟨sig, hstop, hplain⟩
      · exact hother hrun (by simp)
      · refine hother hstop ?_
        rintro ⟨⟩
        simp [StopSignal.plain, hevent] at hplain
    exact .inl (by rw [hstage, enter_ne _ _ hy])
  | ended y status hreport' hends hknown htasks hnew hemitted herror hstage =>
    have hy : tid ≠ y := by
      refine hother hreport' ?_
      rintro ⟨⟩
      cases hends
    exact .inl (by rw [hstage, enter_ne _ _ hy])
  | plain y sig hreport' hplain hknown htasks hnew hemitted herror hstage =>
    have hy : tid ≠ y := by
      refine hother hreport' ?_
      rintro ⟨⟩
      simp [StopSignal.plain, hevent] at hplain
    exact .inl (by rw [hstage, enter_ne _ _ hy])
  | firstClone y child e he hreport' hknown hfirst htasks hnew hemitted herror hstage =>
    by_cases hy : tid = y
    · subst hy
      obtain ⟨rfl, rfl⟩ : e = event ∧ child = c := by simpa [hreport] using hreport'.symm
      exact .inr (.inl ⟨hfirst, by simp [hnew], hknown, hstage⟩)
    · exact .inl (by rw [hstage, enter_ne _ _ hy])
  | secondClone y child e he hreport' hknown hsecond hstopped htasks hnew hemitted herror hstage =>
    by_cases hy : tid = y
    · subst hy
      obtain ⟨rfl, rfl⟩ : e = event ∧ child = c := by simpa [hreport] using hreport'.symm
      exact .inr (.inr (by rw [hstage, enter_self]))
    · exact .inl (by rw [hstage, enter_ne _ _ (hother hstopped (by simp)), enter_ne _ _ hy])
  | firstStop y hreport' hunknown hfirst htasks hnew hemitted herror hstage =>
    exact .inl (by rw [hstage, enter_ne _ _ (hother hreport' (by simp))])
  | secondStop y hreport' hunknown hsecond htasks hnew hemitted herror hstage =>
    exact .inl (by rw [hstage, enter_ne _ _ (hother hreport' (by simp))])

theorem Sound.keeps_announces (h : Sound s stage) (hm : Moves s stage t stage') {c : Int} (hc : Announces stage c) :
    Announces stage' c ∨ c ∉ s.newTasks ∧ c ∈ t.newTasks ∧ stage' c = stage c ∨ stage' c = some .running := by
  obtain ⟨tid, event, hevent, hreport⟩ := id hc
  rcases hm.keeps_report hevent hreport with hkept | ⟨hfirst, hnew, hknown, hstage⟩ | hrun
  · exact .inl ⟨tid, event, hevent, hkept.trans hreport⟩
  · have hne : c ≠ tid := by
      rintro rfl
      exact (h.announced c hc).1 hknown
    exact .inr (.inl ⟨hfirst, hnew, by rw [hstage, enter_ne _ _ hne]⟩)
  · exact .inr (.inr hrun)

theorem Whole.moves_stopped (h : Whole s stage) (hm : Moves s stage t stage') :
    ∀ tid, stage' tid = some .stopped → tid ∈ t.newTasks ∧ Announces stage' tid := by
  intro tid hstop
  cases h.toSound.arrives hm hstop with
  | stays hstays =>
    obtain ⟨hhalf, hannounces⟩ := h.stopped tid hstays
    refine ⟨?_, ?_⟩
    · rcases hm.keeps_new hhalf with hnew | hrun
      · exact hnew
      · simp [hstop] at hrun
    · rcases h.toSound.keeps_announces hm hannounces with hannounces | ⟨hfirst, -, -⟩ | hrun
      · exact hannounces
      · exact absurd hhalf hfirst
      · simp [hstop] at hrun
  | waits hreport hunknown hfirst hnew =>
    refine ⟨hnew, ?_⟩
    rcases h.toSound.keeps_announces hm (h.waiting tid hreport hunknown hfirst) with hannounces | ⟨-, -, hkept⟩ | hrun
    · exact hannounces
    · simp [hstop, hreport] at hkept
    · simp [hstop] at hrun

theorem Whole.moves_live (h : Whole s stage) (hm : Moves s stage t stage') :
    ∀ tid ∈ t.tasks, stage' tid = some .running ∨ ∃ status, stage' tid = some (.reporting status) := by
  intro tid hmem
  rcases hm.new_task hmem with hknown | hrun
  · obtain ⟨x, hx⟩ := Option.isSome_iff_exists.mp (hm.isSome (h.known tid hknown))
    cases h.toSound.arrives hm hx with
    | stays hstays => exact (hx.trans hstays.symm) ▸ h.live tid hknown
    | runs => exact .inl hx
    | waits _ hunknown _ _ => exact absurd hknown hunknown
    | leaves _ _ hunknown => exact absurd hmem hunknown
    | reports | clones | born => exact .inr ⟨_, hx⟩
  · exact .inl hrun

theorem Whole.moves_waiting (h : Whole s stage) (hm : Moves s stage t stage') :
    ∀ tid, stage' tid = some (.reporting (.stopped .sigstop)) → tid ∉ t.tasks → tid ∉ t.newTasks →
      Announces stage' tid := by
  intro tid hstop hunknown hfirst
  cases h.toSound.arrives hm hstop with
  | stays hstays =>
    have hunknown' : tid ∉ s.tasks := by
      intro hknown
      rcases hm.keeps_task hknown with hknown | ⟨-, hgone⟩
      · exact hunknown hknown
      · simp [hstop] at hgone
    have hfirst' : tid ∉ s.newTasks := by
      intro hhalf
      rcases hm.keeps_new hhalf with hnew | hrun
      · exact hfirst hnew
      · simp [hstop] at hrun
    rcases h.toSound.keeps_announces hm (h.waiting tid hstays hunknown' hfirst') with hannounces | ⟨-, hnew, -⟩ | hrun
    · exact hannounces
    · exact absurd hnew hfirst
    · simp [hstop] at hrun
  | reports _ hknown ht _ _ => exact absurd (ht ▸ hknown) hunknown
  | born _ hannounced => exact hannounced

theorem Whole.moves (h : Whole s stage) (hm : Moves s stage t stage') : Whole t stage' where
  toSound := h.toSound.moves hm
  stopped := h.moves_stopped hm
  live := h.moves_live hm
  waiting := h.moves_waiting hm

/-- A thread that has just attached. -/
theorem whole_attached (hfresh : s.Fresh)
    (hstage : ∀ tid, stage tid = if tid ∈ s.tasks then some .running else none) : Whole s stage := by
  obtain ⟨hnew, hemitted, hended, herror, hpos⟩ := hfresh
  have hrun {tid : Int} {x : TaskStage} (h : stage tid = some x) : tid ∈ s.tasks ∧ x = .running := by
    rw [hstage] at h
    split at h
    · exact ⟨‹_›, (Option.some.inj h).symm⟩
    · cases h
  have hquiet (tid : Int) (status : WaitStatus) : stage tid ≠ some (.reporting status) :=
    fun h => by cases (hrun h).2
  have hsilent (child : Int) : ¬ Announces stage child := fun ⟨y, _, _, hy⟩ => hquiet y _ hy
  have hsound : Sound s stage := {
    isError := herror
    emitted := by simp [hemitted]
    known := fun tid hmem => by simp [hstage, hmem]
    unborn := fun tid x h hunknown => absurd (hrun h).1 hunknown
    halfway := fun tid hmem => absurd (hnew ▸ hmem) (SortedSet.not_mem_empty tid)
    announced := fun tid h => absurd h (hsilent tid)
    once := fun child tid _ _ _ h => absurd h (hquiet tid _)
    legible := fun tid status h => absurd h (hquiet tid status) }
  have hstopped (tid : Int) : stage tid ≠ some .stopped := fun h => by cases (hrun h).2
  exact ⟨hsound, fun tid h => absurd h (hstopped tid), fun tid hmem => .inl (by simp [hstage, hmem]),
    fun tid h => absurd h (hquiet tid _)⟩

theorem Loss.moves (hl : Loss s stage) (h : Sound s stage) (hm : Moves s stage t stage') : Loss t stage' := by
  obtain ⟨tid, ⟨hstop, hlost⟩ | ⟨hgone, hknown⟩⟩ := hl
  · have hborn : (stage tid).isSome := by rw [hstop]; rfl
    obtain ⟨x, hx⟩ := Option.isSome_iff_exists.mp (hm.isSome hborn)
    refine ⟨tid, .inl ?_⟩
    cases h.arrives hm hx with
    | stays hstays =>
      refine ⟨hx.trans (hstays.symm.trans hstop), fun ⟨hmem, hannounces⟩ => ?_⟩
      have hbefore : Announces stage tid := by
        rcases hm.announces hannounces with hbefore | ⟨hnone, -, -⟩
        · exact hbefore
        · simp [hstop] at hnone
      rcases h.new_new hm hmem with hhalf | ⟨-, hreturned, -⟩ | ⟨hreport, -, -⟩
      · exact hlost ⟨hhalf, hbefore⟩
      · exact hreturned hannounces
      · simp [hstop] at hreport
    | runs hcame _ _ _ =>
      rcases hcame with ⟨status, hreport⟩ | hhalf
      · simp [hstop] at hreport
      · exact absurd hhalf hlost
    | waits hreport _ _ _ => simp [hstop] at hreport
    | leaves hreport _ _ => simp [hstop] at hreport
    | reports hlives _ _ _ _ => simp [hstop] at hlives
    | clones hrun _ _ _ => simp [hstop] at hrun
    | born hnone _ => simp [hstop] at hnone
  · have hborn : (stage tid).isSome := by rw [hgone]; rfl
    obtain ⟨x, hx⟩ := Option.isSome_iff_exists.mp (hm.isSome hborn)
    refine ⟨tid, .inr ?_⟩
    cases h.arrives hm hx with
    | stays hstays =>
      refine ⟨hx.trans (hstays.symm.trans hgone), ?_⟩
      rcases hm.keeps_task hknown with hknown | ⟨⟨status, hreport⟩, -⟩
      · exact hknown
      · simp [hgone] at hreport
    | runs hcame _ _ _ =>
      rcases hcame with ⟨status, hreport⟩ | ⟨hhalf, -⟩
      · simp [hgone] at hreport
      · exact absurd hknown (h.halfway tid hhalf).1
    | waits hreport _ _ _ => simp [hgone] at hreport
    | leaves hreport _ _ => simp [hgone] at hreport
    | reports hlives _ _ _ _ => simp [hgone] at hlives
    | clones hrun _ _ _ => simp [hgone] at hrun
    | born hnone _ => simp [hgone] at hnone

/-- A report that is returned to somebody else. -/
theorem Sound.lose (h : Sound s stage) {tid : Int} {status : WaitStatus}
    (hreport : stage tid = some (.reporting status)) :
    Sound s (enter stage tid status.returned) ∧ Loss s (enter stage tid status.returned) := by
  have hfewer {c : Int} (hc : Announces (enter stage tid status.returned) c) : Announces stage c := by
    obtain ⟨y, event, -, hevent, hy⟩ := announces_enter hc (by
      intro event hevent
      unfold WaitStatus.returned
      split <;> simp)
    exact ⟨y, event, hevent, hy⟩
  have hreturned : status.returned = if status.ends then .gone else .stopped := rfl
  have hemitted := h.emitted
  have hknown := h.known
  have hunborn := h.unborn
  have hhalf := h.halfway
  have hannounced := h.announced
  have honce := h.once
  have hlegible := h.legible
  refine ⟨⟨h.isError, ?_, ?_, ?_, ?_, ?_, ?_, ?_⟩, tid, ?_⟩
  · grind [enter]
  · grind [enter]
  · grind [enter]
  · grind [enter, WaitStatus.ends]
  · grind [enter, WaitStatus.ends]
  · grind [enter]
  · grind [enter]
  · grind [enter, WaitStatus.ends]

end Tracers

end AutopinPlus
