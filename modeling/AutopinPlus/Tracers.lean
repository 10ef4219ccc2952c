import AutopinPlus.TaskSignals

/-!
# Several tracers in one process

Every process that is traced has a `TraceThread` of its own. All of them wait with `waitpid(-1, …)`, which returns
the reports of the tasks of every thread, and so does the handler of `SIGCHLD`. A ptrace request succeeds only for
the thread that traces the task, while the task is stopped.
-/
namespace AutopinPlus

open PartialStep

/-- Where a task stands that some thread traces. -/
inductive TaskStage where
  | running
  /-- No `waitpid` has returned the report yet. -/
  | reporting (status : WaitStatus)
  | stopped
  | gone
  deriving DecidableEq, Repr

structure Tracee where
  tracer : Nat
  stage : TaskStage
  deriving DecidableEq, Repr

/-- A stop that is not about a new task. A plain SIGTRAP has a message too. -/
def StopSignal.plain : StopSignal → Bool
  | .sigtrap event msg => event == .other && msg.isSome
  | _ => true

namespace WaitStatus

def ends : WaitStatus → Bool
  | .exited | .signaled => true
  | _ => false

/-- The reports that the kernel makes. A thread can read those of its own tasks. -/
def legible : WaitStatus → Bool
  | .stopped (.sigtrap _ msg) => msg.isSome
  | .other => false
  | _ => true

/-- What the task is when the report has been returned. -/
def returned (status : WaitStatus) : TaskStage := if status.ends then .gone else .stopped

/-- PTRACE_GETEVENTMSG fails for a task of another thread. -/
def seenBy (own : Bool) : WaitStatus → WaitStatus
  | .stopped (.sigtrap event msg) => .stopped (.sigtrap event (if own then msg else none))
  | status => status

end WaitStatus

/-- A task that is reporting its end cannot die again. -/
def TaskStage.alive : TaskStage → Bool
  | .running | .stopped => true
  | .reporting status => !status.ends
  | .gone => false

def TraceAction.continues (tid : Int) : TraceAction → Bool
  | .cont y _ => y == tid
  | _ => false

/-- The task that a signal is about. -/
def SlotCall.tid : SlotCall → Int
  | .created tid => tid
  | .terminated tid => tid

/-- The map with one more entry. -/
def enter {α : Type} (f : Int → Option α) (i : Int) (x : α) : Int → Option α := fun j => if j = i then some x else f j

@[simp] theorem enter_self {α : Type} (f : Int → Option α) (i : Int) (x : α) : enter f i x i = some x := by simp [enter]

theorem enter_ne {α : Type} (f : Int → Option α) {i j : Int} (x : α) (h : j ≠ i) : enter f i x j = f j := by
  simp [enter, h]

structure Tracers where
  threads : List TraceThread := []
  tracees : Int → Option Tracee := fun _ => none

inductive TracingEvent where
  /-- A thread has attached to the tasks of its process. -/
  | attached (s : TraceThread)
  | clone (tid child : Int) (event : PtraceEvent)
  | stop (tid : Int) (sig : StopSignal)
  | die (tid : Int) (signaled : Bool)
  /-- The `waitpid` of a thread returns the report of a task. -/
  | wake (k : Nat) (tid : Int) (alarmOccured exreq : Bool)
  /-- The `waitpid` of a thread fails. The threads share the flag of the alarm, so it need not be set. -/
  | failed (k : Nat) (alarmOccured exreq : Bool)
  /-- The `waitpid` in the handler of `SIGCHLD` returns it. -/
  | reap (tid : Int)

/-- A thread before its first wait. -/
def TraceThread.Fresh (s : TraceThread) : Prop :=
  s.newTasks = .empty ∧ s.emitted = [] ∧ s.ended = false ∧ s.context.isError = false ∧ ∀ tid ∈ s.tasks.elems, 0 < tid

instance (s : TraceThread) : Decidable s.Fresh := inferInstanceAs (Decidable (_ ∧ _))

namespace Tracers

/-- The tasks of a thread that has ended are not traced any more. -/
def traced (w : Tracers) (tid : Int) : Option Tracee := do
  let x ← w.tracees tid
  let s ← w.threads[x.tracer]?
  if s.ended then none else some x

def put (w : Tracers) (tid : Int) (x : Tracee) : Tracers := { w with tracees := enter w.tracees tid x }

/-- The answers that thread `k` gets. -/
def answers (w : Tracers) (k : Nat) : Ptrace where
  attach _ _ := some .esrch
  exited _ _ := false
  attachOptions _ _ := some .esrch
  setOptions _ tid := if w.tracees tid = some ⟨k, .stopped⟩ then none else some .esrch
  cont _ tid := if w.tracees tid = some ⟨k, .stopped⟩ then none else some .esrch

/-- What thread `k` continued between `s` and `t` is running. -/
def resume (w : Tracers) (k : Nat) (s t : TraceThread) : Tracers where
  threads := w.threads.set k t
  tracees tid :=
    if w.tracees tid = some ⟨k, .stopped⟩ ∧ (t.history.drop s.history.length).any (TraceAction.continues tid) then
      some ⟨k, .running⟩
    else w.tracees tid

def step (w : Tracers) : TracingEvent → Option Tracers
  | .attached s =>
    if s.Fresh ∧ ∀ tid ∈ s.tasks.elems, w.tracees tid = none then
      some {
        threads := w.threads ++ [s]
        tracees := fun tid => if tid ∈ s.tasks then some ⟨w.threads.length, .running⟩ else w.tracees tid }
    else none
  | .clone tid child event => do
    let x ← w.traced tid
    if x.stage = .running ∧ event ≠ .other ∧ 0 < child ∧ w.tracees child = none then
      some ((w.put tid ⟨x.tracer, .reporting (.stopped (.sigtrap event (some child)))⟩).put child
        ⟨x.tracer, .reporting (.stopped .sigstop)⟩)
    else none
  | .stop tid sig => do
    let x ← w.traced tid
    if x.stage = .running ∧ sig.plain then some (w.put tid ⟨x.tracer, .reporting (.stopped sig)⟩) else none
  | .die tid signaled => do
    let x ← w.traced tid
    if x.stage.alive then
      some (w.put tid ⟨x.tracer, .reporting (if signaled then .signaled else .exited)⟩)
    else none
  | .wake k tid alarmOccured exreq => do
    let s ← w.threads[k]?
    let x ← w.traced tid
    match x.stage with
    | .reporting status =>
      let w := w.put tid ⟨x.tracer, status.returned⟩
      let t ← s.step (w.answers k) ⟨tid, status.seenBy (x.tracer == k), alarmOccured, exreq⟩
      some (w.resume k s t)
    | _ => none
  | .failed k alarmOccured exreq => do
    let s ← w.threads[k]?
    let t ← s.step (w.answers k) ⟨-1, .other, alarmOccured, exreq⟩
    some { w with threads := w.threads.set k t }
  | .reap tid => do
    let x ← w.traced tid
    match x.stage with
    | .reporting status => some (w.put tid ⟨x.tracer, status.returned⟩)
    | _ => none

end Tracers

/-! ## What a thread does with a report -/

namespace TraceThread

variable {p : Ptrace} {s t : TraceThread}

/-- The kernel refuses the request whenever it is made. -/
def Refuses (p : Ptrace) (a : TraceAction) : Prop := ∃ tid sig, a = .cont tid sig ∧ (p.cont 0 tid).isSome

/-- From `s` to `t`: the two sets, what was done, and the error state if the answers do not depend on the number of
the request. -/
structure Becomes (p : Ptrace) (s : TraceThread) (tasks newTasks : TidSet) (actions : List TraceAction)
    (t : TraceThread) : Prop where
  tasks : t.tasks = tasks
  newTasks : t.newTasks = newTasks
  history : t.history = s.history ++ actions
  isError : t.context.isError = true ↔ s.context.isError = true ∨ ∃ a ∈ actions, Refuses p a

theorem ptraceContinue_isError (hp : ∀ n tid, p.cont n tid = p.cont 0 tid) (s : TraceThread) (tid : Int) (sig : Nat) :
    (s.ptraceContinue p tid sig).context.isError = true ↔
      s.context.isError = true ∨ (p.cont 0 tid).isSome := by
  simp only [ptraceContinue, hp]
  split_ifs with hfailed
  · simp [report, act, hfailed, setsError]
  · simp [act, hfailed]

theorem Becomes.act {tasks newTasks : TidSet} {actions : List TraceAction} (h : Becomes p s tasks newTasks actions t)
    {a : TraceAction} (ha : ¬ Refuses p a) : Becomes p s tasks newTasks (actions ++ [a]) (t.act a) where
  tasks := h.tasks
  newTasks := h.newTasks
  history := by simp [TraceThread.act, h.history]
  isError := by
    have herror := h.isError
    simp only [TraceThread.act, List.mem_append, List.mem_singleton, or_and_right, exists_or, exists_eq_left, ha,
      or_false]
    exact herror

theorem Becomes.ptraceContinue (hp : ∀ n tid, p.cont n tid = p.cont 0 tid) {tasks newTasks : TidSet}
    {actions : List TraceAction} (h : Becomes p s tasks newTasks actions t) (tid : Int) (sig : Nat) :
    Becomes p s tasks newTasks (actions ++ [.cont tid sig]) (t.ptraceContinue p tid sig) where
  tasks := by simp [h.tasks]
  newTasks := by simp [h.newTasks]
  history := by simp [h.history]
  isError := by
    rw [ptraceContinue_isError hp, h.isError, or_assoc]
    simp [Refuses, or_and_right, exists_or]

theorem Becomes.emitted {tasks newTasks : TidSet} {actions : List TraceAction}
    (h : Becomes p s tasks newTasks actions t) : t.emitted = s.emitted ++ actions.filterMap signal :=
  emitted_append h.history

theorem Becomes.continued {tasks newTasks : TidSet} {actions : List TraceAction}
    (h : Becomes p s tasks newTasks actions t) (tid : Int) :
    (t.history.drop s.history.length).any (TraceAction.continues tid) = actions.any (TraceAction.continues tid) := by
  rw [h.history, List.drop_left]

theorem Becomes.report {tasks newTasks : TidSet} {actions : List TraceAction}
    (h : Becomes p s tasks newTasks actions t) {error : AutopinErrors} {opt : String} (msg : String)
    (hopt : setsError error opt = false) : Becomes p s tasks newTasks actions (t.report error opt msg) where
  tasks := h.tasks
  newTasks := h.newTasks
  history := h.history
  isError := by
    have herror := h.isError
    simpa [TraceThread.report, hopt] using herror

theorem Becomes.refl (p : Ptrace) (s : TraceThread) : Becomes p s s.tasks s.newTasks [] s :=
  ⟨rfl, rfl, by simp, by simp⟩

/-- All that a legible report leads to. -/
inductive Deals (p : Ptrace) (s : TraceThread) (tid : Int) (t : TraceThread) : WaitStatus → Prop
  | ended {status : WaitStatus} (hends : status.ends = true)
      (becomes : Becomes p s (s.tasks.erase tid) s.newTasks [.emit (.terminated tid)] t) : Deals p s tid t status
  | plain {sig : StopSignal} (front : List TraceAction) (n : Nat) (hplain : sig.plain = true)
      (hknown : sig = .sigstop → tid ∈ s.tasks) (hfront : front = [] ∨ front = [.getEventMsg tid])
      (becomes : Becomes p s s.tasks s.newTasks (front ++ [.cont tid n]) t) : Deals p s tid t (.stopped sig)
  | firstClone {event : PtraceEvent} {child : Int} (hevent : event ≠ .other) (hfirst : child ∉ s.newTasks)
      (becomes : Becomes p s s.tasks (s.newTasks.insert child) [.getEventMsg tid, .cont tid 0] t) :
      Deals p s tid t (.stopped (.sigtrap event (some child)))
  | secondClone {event : PtraceEvent} {child : Int} (hevent : event ≠ .other) (hsecond : child ∈ s.newTasks)
      (becomes : Becomes p s (s.tasks.insert child) (s.newTasks.erase child)
        [.getEventMsg tid, .emit (.created child), .setOptions child, .cont child 0, .cont tid 0] t) :
      Deals p s tid t (.stopped (.sigtrap event (some child)))
  | firstStop (hunknown : tid ∉ s.tasks) (hfirst : tid ∉ s.newTasks)
      (becomes : Becomes p s s.tasks (s.newTasks.insert tid) [] t) : Deals p s tid t (.stopped .sigstop)
  | secondStop (hunknown : tid ∉ s.tasks) (hsecond : tid ∈ s.newTasks)
      (becomes : Becomes p s (s.tasks.insert tid) (s.newTasks.erase tid)
        [.emit (.created tid), .setOptions tid, .cont tid 0] t) : Deals p s tid t (.stopped .sigstop)

theorem not_refuses_of {a : TraceAction} (h : ∀ tid sig, a ≠ .cont tid sig) : ¬ Refuses p a := by
  rintro ⟨tid, sig, ha, -⟩
  exact h tid sig ha

/-- The second notification of a task. -/
theorem Becomes.newTask (hp : ∀ n tid, p.cont n tid = p.cont 0 tid) {actions : List TraceAction}
    (h : Becomes p s s.tasks s.newTasks actions t) {tid : Int} (hsecond : tid ∈ s.newTasks) :
    Becomes p s (s.tasks.insert tid) (s.newTasks.erase tid)
      (actions ++ [.emit (.created tid), .setOptions tid, .cont tid 0]) (t.newTask p tid) := by
  have hemit := h.act (a := .emit (.created tid)) (not_refuses_of (by simp))
  have hoptions := hemit.act (a := .setOptions tid) (not_refuses_of (by simp))
  simp only [List.append_assoc, List.cons_append, List.nil_append] at hoptions
  have hmoved (u : TraceThread) (hu : Becomes p s s.tasks s.newTasks
      (actions ++ [.emit (.created tid), .setOptions tid]) u) :
      Becomes p s (s.tasks.insert tid) (s.newTasks.erase tid)
        (actions ++ [.emit (.created tid), .setOptions tid, .cont tid 0])
        (TraceThread.ptraceContinue p { u with newTasks := u.newTasks.erase tid, tasks := u.tasks.insert tid }
          tid 0) := by
    have hsets : Becomes p s (s.tasks.insert tid) (s.newTasks.erase tid)
        (actions ++ [.emit (.created tid), .setOptions tid])
        { u with newTasks := u.newTasks.erase tid, tasks := u.tasks.insert tid } :=
      ⟨by rw [hu.tasks], by rw [hu.newTasks], hu.history, hu.isError⟩
    have hcont := hsets.ptraceContinue hp tid 0
    simpa using hcont
  simp only [TraceThread.newTask, if_pos (show tid ∈ t.newTasks from h.newTasks ▸ hsecond)]
  apply hmoved
  split_ifs with hfailed
  · exact hoptions.report _ rfl
  · exact hoptions

theorem Becomes.getEventMsg {actions : List TraceAction} (h : Becomes p s s.tasks s.newTasks actions t)
    (tid msg : Int) :
    Becomes p s s.tasks s.newTasks (actions ++ [.getEventMsg tid]) (t.getEventMsg tid (some msg)) := by
  have hact := h.act (a := .getEventMsg tid) (not_refuses_of (by simp))
  exact ⟨hact.tasks, hact.newTasks, hact.history, hact.isError⟩

/-- What the loop does with a report that it can read. -/
theorem handle_deals (hp : ∀ n tid, p.cont n tid = p.cont 0 tid) (s : TraceThread) (tid : Int) {status : WaitStatus}
    (hlegible : status.legible = true) : Deals p s tid (s.handle p tid status) status := by
  have hgone : Becomes p s (s.tasks.erase tid) s.newTasks [.emit (.terminated tid)]
      { s.act (.emit (.terminated tid)) with tasks := s.tasks.erase tid, ended := s.pid == tid } := by
    have hact := (Becomes.refl p s).act (a := .emit (.terminated tid)) (not_refuses_of (by simp))
    exact ⟨rfl, rfl, hact.history, hact.isError⟩
  cases status with
  | exited => exact .ended rfl hgone
  | signaled => exact .ended rfl hgone
  | other => cases hlegible
  | stopped sig =>
    cases sig with
    | other sig => exact .plain [] sig rfl (by simp) (.inl rfl) ((Becomes.refl p s).ptraceContinue hp tid sig)
    | sigstop =>
      rw [handle]
      by_cases hknown : tid ∈ s.tasks
      · rw [if_pos hknown]
        exact .plain [] 0 rfl (fun _ => hknown) (.inl rfl) ((Becomes.refl p s).ptraceContinue hp tid 0)
      rw [if_neg hknown]
      by_cases hsecond : tid ∈ s.newTasks
      · exact .secondStop hknown hsecond ((Becomes.refl p s).newTask hp hsecond)
      · rw [newTask_waiting hsecond]
        exact .firstStop hknown hsecond ⟨rfl, rfl, by simp, by simp⟩
    | sigtrap event msg =>
      obtain ⟨msg, rfl⟩ := Option.isSome_iff_exists.mp hlegible
      have hread := (Becomes.refl p s).getEventMsg tid msg
      simp only [handle]
      by_cases hevent : event = .other
      · rw [if_pos hevent]
        exact .plain [.getEventMsg tid] 0 (by simp [StopSignal.plain, hevent]) (by simp) (.inr rfl)
          (hread.ptraceContinue hp tid 0)
      rw [if_neg hevent]
      by_cases hsecond : msg ∈ s.newTasks
      · exact .secondClone hevent hsecond ((hread.newTask hp hsecond).ptraceContinue hp tid 0)
      · have hfirst : msg ∉ (s.getEventMsg tid (some msg)).newTasks := hsecond
        have hremembered : Becomes p s s.tasks (s.newTasks.insert msg) [.getEventMsg tid]
            ((s.getEventMsg tid (some msg)).newTask p msg) := by
          rw [newTask_waiting hfirst]
          exact ⟨hread.tasks, by rw [← hread.newTasks], hread.history, hread.isError⟩
        exact .firstClone hevent hsecond (hremembered.ptraceContinue hp tid 0)

/-! ## What a thread does not undo -/

/-- The error state, the signals and the tasks that have been remembered: only a signal takes one of these away. -/
structure Later (s t : TraceThread) : Prop where
  isError : s.context.isError = true → t.context.isError = true
  emitted : ∀ call ∈ s.emitted, call ∈ t.emitted
  newTasks : ∀ tid ∈ s.newTasks, tid ∈ t.newTasks ∨ .created tid ∈ t.emitted

theorem Later.refl (s : TraceThread) : Later s s := ⟨id, fun _ => id, fun _ => .inl⟩

theorem Later.trans {u : TraceThread} (h : Later s t) (h' : Later t u) : Later s u where
  isError := h'.isError ∘ h.isError
  emitted call hcall := h'.emitted call (h.emitted call hcall)
  newTasks tid htid := by
    rcases h.newTasks tid htid with hnew | hcreated
    · exact h'.newTasks tid hnew
    · exact .inr (h'.emitted _ hcreated)

theorem Becomes.later {newTasks tasks : TidSet} {actions : List TraceAction} (h : Becomes p s tasks newTasks actions t)
    (hnew : ∀ tid ∈ s.newTasks, tid ∈ newTasks ∨ .emit (.created tid) ∈ actions) : Later s t where
  isError herror := h.isError.mpr (.inl herror)
  emitted call hcall := by
    rw [h.emitted]
    exact List.mem_append_left _ hcall
  newTasks tid htid := by
    rw [h.newTasks, h.emitted]
    rcases hnew tid htid with hmem | hmem
    · exact .inl hmem
    · exact .inr (List.mem_append_right _ (List.mem_filterMap.mpr ⟨_, hmem, rfl⟩))

theorem Deals.later {tid : Int} {status : WaitStatus} (h : Deals p s tid t status) : Later s t := by
  cases h with
  | ended hends becomes => exact becomes.later fun y hy => .inl hy
  | plain front n hplain hknown hfront becomes => exact becomes.later fun y hy => .inl hy
  | firstClone hevent hfirst becomes => exact becomes.later fun y hy => .inl (by simp [hy])
  | @secondClone event child hevent hsecond becomes =>
    refine becomes.later fun y hy => ?_
    by_cases hchild : y = child
    · exact .inr (by simp [hchild])
    · exact .inl (by simp [hy, hchild])
  | firstStop hunknown hfirst becomes => exact becomes.later fun y hy => .inl (by simp [hy])
  | secondStop hunknown hsecond becomes =>
    refine becomes.later fun y hy => ?_
    by_cases htid : y = tid
    · exact .inr (by simp [htid])
    · exact .inl (by simp [hy, htid])

theorem newTask_later (hp : ∀ n tid, p.cont n tid = p.cont 0 tid) (s : TraceThread) (tid : Int) :
    Later s (s.newTask p tid) := by
  by_cases hsecond : tid ∈ s.newTasks
  · refine ((Becomes.refl p s).newTask hp hsecond).later fun y hy => ?_
    by_cases htid : y = tid
    · exact .inr (by simp [htid])
    · exact .inl (by simp [hy, htid])
  · rw [newTask_waiting hsecond]
    exact ⟨id, fun _ => id, fun y hy => .inl (by simp [hy])⟩

theorem ptraceContinue_later (hp : ∀ n tid, p.cont n tid = p.cont 0 tid) (s : TraceThread) (tid : Int) (sig : Nat) :
    Later s (s.ptraceContinue p tid sig) :=
  ((Becomes.refl p s).ptraceContinue hp tid sig).later fun _ => .inl

theorem getEventMsg_none_later (s : TraceThread) (tid : Int) :
    Later s (s.getEventMsg tid none) ∧ (s.getEventMsg tid none).context.isError = true := by
  have herror : (s.getEventMsg tid none).context.isError = true := by
    simp [getEventMsg, report, setsError]
  refine ⟨⟨fun _ => herror, fun call hcall => ?_, fun y hy => .inl (by simpa using hy)⟩, herror⟩
  have hemitted : (s.getEventMsg tid none).emitted = s.emitted := by simp [emitted, signal]
  rwa [hemitted]

/-- A clone event whose message cannot be read: the thread takes the message of the last one. -/
theorem handle_illegible (hp : ∀ n tid, p.cont n tid = p.cont 0 tid) (s : TraceThread) (tid : Int)
    (event : PtraceEvent) :
    Later s (s.handle p tid (.stopped (.sigtrap event none))) ∧
      (s.handle p tid (.stopped (.sigtrap event none))).context.isError = true := by
  obtain ⟨hlater, herror⟩ := getEventMsg_none_later s tid
  have hrest : Later (s.getEventMsg tid none) (s.handle p tid (.stopped (.sigtrap event none))) := by
    simp only [handle]
    split_ifs with hevent
    · exact ptraceContinue_later hp _ tid 0
    · exact (newTask_later hp _ _).trans (ptraceContinue_later hp _ tid 0)
  exact ⟨hlater.trans hrest, hrest.isError herror⟩

theorem handle_later (hp : ∀ n tid, p.cont n tid = p.cont 0 tid) (s : TraceThread) (tid : Int) (status : WaitStatus) :
    Later s (s.handle p tid status) := by
  by_cases hlegible : status.legible = true
  · exact (handle_deals hp s tid hlegible).later
  cases status with
  | exited => exact absurd rfl hlegible
  | signaled => exact absurd rfl hlegible
  | other => exact .refl s
  | stopped sig =>
    cases sig with
    | sigstop => exact absurd rfl hlegible
    | other sig => exact absurd rfl hlegible
    | sigtrap event msg =>
      cases msg with
      | none => exact (handle_illegible hp s tid event).1
      | some msg => exact absurd rfl hlegible

/-- What one wait can do to a thread. -/
theorem step_cases {w : Wake} (h : step p s w = some t) : s.ended = false ∧
    ((w.alarmOccured && w.exreq) = true ∧ t = { s with ended := true } ∨
      (w.alarmOccured && w.exreq) = false ∧ w.tracePid = -1 ∧ t = (if w.alarmOccured then s
        else s.report .procTrace "waitpid" "waitpid failed while tracing the observed process") ∨
      (w.alarmOccured && w.exreq) = false ∧ w.tracePid ≠ -1 ∧ t = s.handle p w.tracePid w.status) := by
  simp only [step] at h
  split at h
  · cases h
  rename_i hended
  refine ⟨by simpa using hended, ?_⟩
  split at h
  · cases h
    exact .inl ⟨‹_›, rfl⟩
  rename_i hgoes
  rw [Bool.not_eq_true] at hgoes
  split at h
  · cases h
    exact .inr (.inl ⟨hgoes, ‹_›, rfl⟩)
  · cases h
    exact .inr (.inr ⟨hgoes, ‹_›, rfl⟩)

theorem step_later (hp : ∀ n tid, p.cont n tid = p.cont 0 tid) {w : Wake} (h : step p s w = some t) : Later s t := by
  obtain ⟨-, ⟨-, rfl⟩ | ⟨-, -, rfl⟩ | ⟨-, -, rfl⟩⟩ := step_cases h
  · exact ⟨id, fun _ => id, fun _ => .inl⟩
  · split
    · exact .refl s
    · exact ⟨fun herror => by simp [report, herror], fun _ => id, fun _ => .inl⟩
  · exact handle_later hp s _ _

/-- The thread has met a task that is none of its own. -/
def Strayed (strange : Int → Prop) (s : TraceThread) : Prop :=
  s.context.isError = true ∨ (∃ call ∈ s.emitted, strange call.tid) ∨ ∃ tid ∈ s.newTasks, strange tid

theorem Strayed.later {strange strange' : Int → Prop} (h : Strayed strange s) (hlater : Later s t)
    (hstrange : ∀ tid, strange tid → strange' tid) : Strayed strange' t := by
  rcases h with herror | ⟨call, hcall, htid⟩ | ⟨tid, hnew, htid⟩
  · exact .inl (hlater.isError herror)
  · exact .inr (.inl ⟨call, hlater.emitted call hcall, hstrange _ htid⟩)
  · rcases hlater.newTasks tid hnew with hmem | hmem
    · exact .inr (.inr ⟨tid, hmem, hstrange _ htid⟩)
    · exact .inr (.inl ⟨_, hmem, hstrange _ htid⟩)

theorem Deals.strays {strange : Int → Prop} {tid : Int} {status : WaitStatus} (h : Deals p s tid t status)
    (hstrange : strange tid) (hrefused : (p.cont 0 tid).isSome)
    (hclone : ∀ event child, status = .stopped (.sigtrap event (some child)) → event = .other) :
    Strayed strange t := by
  cases h with
  | ended hends becomes =>
    refine .inr (.inl ⟨.terminated tid, ?_, hstrange⟩)
    simp [becomes.emitted, signal]
  | plain front n hplain hknown hfront becomes =>
    exact .inl (becomes.isError.mpr (.inr ⟨.cont tid n, by simp, tid, n, rfl, hrefused⟩))
  | firstClone hevent hfirst becomes => exact absurd (hclone _ _ rfl) hevent
  | secondClone hevent hsecond becomes => exact absurd (hclone _ _ rfl) hevent
  | firstStop hunknown hfirst becomes => exact .inr (.inr ⟨tid, by simp [becomes.newTasks], hstrange⟩)
  | secondStop hunknown hsecond becomes =>
    refine .inr (.inl ⟨.created tid, ?_, hstrange⟩)
    simp [becomes.emitted, signal]

/-- A report of a strange task leaves its mark, whatever it is. -/
theorem handle_strays (hp : ∀ n tid, p.cont n tid = p.cont 0 tid) (s : TraceThread) {strange : Int → Prop} {tid : Int}
    {status : WaitStatus} (hlegible : status.legible = true) (hstrange : strange tid)
    (hrefused : (p.cont 0 tid).isSome) : Strayed strange (s.handle p tid (status.seenBy false)) := by
  cases status with
  | exited => exact (handle_deals hp s tid rfl).strays hstrange hrefused (by simp [WaitStatus.seenBy])
  | signaled => exact (handle_deals hp s tid rfl).strays hstrange hrefused (by simp [WaitStatus.seenBy])
  | other => cases hlegible
  | stopped sig =>
    cases sig with
    | sigstop => exact (handle_deals hp s tid rfl).strays hstrange hrefused (by simp [WaitStatus.seenBy])
    | other sig => exact (handle_deals hp s tid rfl).strays hstrange hrefused (by simp [WaitStatus.seenBy])
    | sigtrap event msg => exact .inl (handle_illegible hp s tid event).2

end TraceThread

end AutopinPlus
