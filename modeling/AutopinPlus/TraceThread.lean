import AutopinPlus.ObservedProcess

/-!
# The tracer

`TraceThread` attaches to the tasks the observed process has and then handles one
stop or exit after another. A clone is seen twice, as an event in the parent and as
the first SIGSTOP of the new task, in either order; the set `new_tasks` joins the
two. What `waitpid` returns and what `ptrace` answers are inputs.
-/
namespace AutopinPlus

open PartialStep ControlStrategy

inductive Errno where
  | esrch | eperm
  | other (n : Int)
  deriving DecidableEq, Repr

inductive PtraceEvent where
  | clone | fork | vfork | other
  deriving DecidableEq, Repr

/-- What `WSTOPSIG` and `status >> 16` say. A SIGTRAP comes with the message that
PTRACE_GETEVENTMSG finds for it, or none if that request fails. -/
inductive StopSignal where
  | sigtrap (event : PtraceEvent) (msg : Option Int)
  | sigstop
  | other (sig : Nat)
  deriving DecidableEq, Repr

inductive WaitStatus where
  | exited | signaled
  | stopped (sig : StopSignal)
  | other
  deriving DecidableEq, Repr

/-- One return of `waitpid(-1, …)`, with the two flags that are read after it. -/
structure Wake where
  tracePid : Int
  status : WaitStatus
  alarmOccured : Bool := false
  exreq : Bool := false
  deriving DecidableEq, Repr

/-- The answers of the kernel. Those `attach` gets depend on the round and the task, the later
ones on the number of the request; `none` is success. -/
structure Ptrace where
  attach : Nat → Int → Option Errno
  exited : Nat → Int → Bool
  attachOptions : Nat → Int → Option Errno
  setOptions : Nat → Int → Option Errno
  cont : Nat → Int → Option Errno

inductive TraceAction where
  | emit (call : SlotCall)
  | attach (tid : Int)
  | setOptions (tid : Int)
  | detach (tid : Int)
  | getEventMsg (tid : Int)
  | cont (tid : Int) (sig : Nat)
  deriving DecidableEq, Repr

/-- `TraceThread`, with what it has done and what each scan of the process tree showed it.
`eventMsg` is the local variable of `run`, which keeps its value when a request fails. -/
structure TraceThread where
  pid : Int
  tasks : TidSet := .empty
  newTasks : TidSet := .empty
  eventMsg : Int
  context : AutopinContext := {}
  ended : Bool := false
  history : List TraceAction := []
  scans : List TidSet := []
  deriving DecidableEq

namespace TraceThread

/-- The signal of an action. -/
def signal : TraceAction → Option SlotCall
  | .emit call => some call
  | _ => none

/-- The signals emitted so far. -/
def emitted (s : TraceThread) : List SlotCall := s.history.filterMap signal

def act (s : TraceThread) (a : TraceAction) : TraceThread := { s with history := s.history ++ [a] }

def report (s : TraceThread) (error : AutopinErrors) (opt msg : String) : TraceThread :=
  { s with context := s.context.report error opt msg }

def ptraceContinue (p : Ptrace) (s : TraceThread) (tid : Int) (sig : Nat) : TraceThread :=
  let failed := (p.cont s.history.length tid).isSome
  let s := s.act (.cont tid sig)
  if failed then s.report .procTrace "cont_failed" ("Could not continue task " ++ toString tid) else s

def newTask (p : Ptrace) (s : TraceThread) (tid : Int) : TraceThread :=
  if tid ∈ s.newTasks then
    let s := s.act (.emit (.created tid))
    let failed := (p.setOptions s.history.length tid).isSome
    let s := s.act (.setOptions tid)
    let s := if failed then
        s.report .procTrace "set_options" ("Could not set ptrace options for process " ++ toString tid)
      else s
    ptraceContinue p { s with newTasks := s.newTasks.erase tid, tasks := s.tasks.insert tid } tid 0
  else { s with newTasks := s.newTasks.insert tid }

/-- `ptrace(PTRACE_GETEVENTMSG, …)`: the old message stays when the request fails. -/
def getEventMsg (s : TraceThread) (tid : Int) (msg : Option Int) : TraceThread :=
  let s := s.act (.getEventMsg tid)
  match msg with
  | some m => { s with eventMsg := m }
  | none => s.report .procTrace "ptrace_eventmsg" "Could not get ptrace event information"

/-- What the loop does with a status. -/
def handle (p : Ptrace) (s : TraceThread) (tracePid : Int) : WaitStatus → TraceThread
  | .exited | .signaled =>
    { s.act (.emit (.terminated tracePid)) with
      tasks := s.tasks.erase tracePid, ended := s.pid == tracePid }
  | .stopped (.sigtrap event msg) =>
    let s := s.getEventMsg tracePid msg
    let s := if event = .other then s else s.newTask p s.eventMsg
    s.ptraceContinue p tracePid 0
  | .stopped .sigstop =>
    if tracePid ∈ s.tasks then s.ptraceContinue p tracePid 0 else s.newTask p tracePid
  | .stopped (.other sig) => s.ptraceContinue p tracePid sig
  | .other => s

/-- The body of the loop of `run`; none when the thread has left it. -/
def step (p : Ptrace) (s : TraceThread) (w : Wake) : Option TraceThread :=
  if s.ended then none
  else if w.alarmOccured && w.exreq then some { s with ended := true }
  else if w.tracePid = -1 then
    some (if w.alarmOccured then s
      else s.report .procTrace "waitpid" "waitpid failed while tracing the observed process")
  else some (s.handle p w.tracePid w.status)

/-! ## Attaching -/

/-- The locals of `attach`. -/
structure Attaching where
  thread : TraceThread
  noTrace : TidSet := .empty
  tasksChanged : Bool := false

/-- Both requests treat their errors in the same way. -/
def Attaching.deny (a : Attaching) (tid : Int) (opt msg : String) : Errno → Attaching
  | .esrch | .eperm =>
    { a with
      noTrace := a.noTrace.insert tid
      thread := a.thread.report .procTrace "cannot_trace" ("Not going to trace " ++ toString tid) }
  | .other _ => { a with thread := a.thread.report .unknown opt msg }

/-- The body of the inner loop of `attach`. -/
def attachTask (p : Ptrace) (round : Nat) (a : Attaching) (tid : Int) : Attaching :=
  if tid ∈ a.thread.tasks then a
  else if tid ∈ a.noTrace then a
  else
    let a := { a with tasksChanged := true, thread := a.thread.act (.attach tid) }
    match p.attach round tid with
    | some errno =>
      a.deny tid "PTRACE_ATTACH" ("Could not attach to process with pid " ++ toString tid) errno
    | none =>
      if p.exited round tid then
        { a with
          thread := a.thread.report .procTrace "cannot_trace"
            ("Task " ++ toString tid ++ " has already exited") }
      else
        let a := { a with thread := a.thread.act (.setOptions tid) }
        match p.attachOptions round tid with
        | some errno =>
          let a := a.deny tid "PTRACE_SETOPTIONS"
            ("Could set ptrace options for process " ++ toString tid) errno
          { a with thread := a.thread.act (.detach tid) }
        | none => { a with thread := { a.thread with tasks := a.thread.tasks.insert tid } }

/-- The outer loop of `attach`; no result if it is still going after `rounds` scans. -/
def attachLoop (o : ObservedProcess) (p : Ptrace) (fs : Nat → ProcFs) (fuel : Nat) :
    Nat → Nat → TraceThread → TidSet → Option TraceThread
  | 0, _, _, _ => none
  | rounds + 1, round, s, noTrace => do
    let (tree, c) ← o.getProcessTree (fs round) fuel s.context
    let attachTasks := tree.getAllTasks
    let s := { s with context := c, scans := s.scans ++ [attachTasks] }
    let a := attachTasks.elems.foldl (attachTask p round) { thread := s, noTrace := noTrace }
    if a.tasksChanged then attachLoop o p fs fuel rounds (round + 1) a.thread a.noTrace
    else some a.thread

def attach (o : ObservedProcess) (p : Ptrace) (fs : Nat → ProcFs) (fuel : Nat) (s : TraceThread) :
    Option TraceThread := do
  let s ← attachLoop o p fs fuel fuel 0 s .empty
  some (s.tasks.elems.foldl (fun s tid => s.ptraceContinue p tid 0) s)

/-- `run` up to its loop. Nothing has been stored in `event_msg` before, so it may hold anything. -/
def begin (o : ObservedProcess) (p : Ptrace) (fs : Nat → ProcFs) (fuel : Nat) (c : AutopinContext)
    (eventMsg : Int) : Option TraceThread := do
  let s ← attach o p fs fuel { pid := o.pid, eventMsg := eventMsg, context := c }
  some (if s.pid ∈ s.tasks then s
    else s.report .procTrace "observed_process" "Cannot trace the observed_process")

/-! ## What the steps do to the two sets -/

variable {p : Ptrace} {s t : TraceThread}

theorem emitted_append {l : List TraceAction} (h : t.history = s.history ++ l) :
    t.emitted = s.emitted ++ l.filterMap signal := by
  rw [emitted, h, List.filterMap_append, emitted]

@[simp] theorem ptraceContinue_tasks (s : TraceThread) (tid : Int) (sig : Nat) :
    (s.ptraceContinue p tid sig).tasks = s.tasks := by
  simp only [ptraceContinue]
  split <;> rfl

@[simp] theorem ptraceContinue_newTasks (s : TraceThread) (tid : Int) (sig : Nat) :
    (s.ptraceContinue p tid sig).newTasks = s.newTasks := by
  simp only [ptraceContinue]
  split <;> rfl

@[simp] theorem ptraceContinue_history (s : TraceThread) (tid : Int) (sig : Nat) :
    (s.ptraceContinue p tid sig).history = s.history ++ [.cont tid sig] := by
  simp only [ptraceContinue]
  split <;> rfl

@[simp] theorem ptraceContinue_scans (s : TraceThread) (tid : Int) (sig : Nat) :
    (s.ptraceContinue p tid sig).scans = s.scans := by
  simp only [ptraceContinue]
  split <;> rfl

@[simp] theorem ptraceContinue_pid (s : TraceThread) (tid : Int) (sig : Nat) :
    (s.ptraceContinue p tid sig).pid = s.pid := by
  simp only [ptraceContinue]
  split <;> rfl

/-- The second of the two notifications: the task is announced, gets its options and runs. -/
theorem newTask_joined {tid : Int} (h : tid ∈ s.newTasks) :
    (s.newTask p tid).tasks = s.tasks.insert tid ∧ (s.newTask p tid).newTasks = s.newTasks.erase tid ∧
    (s.newTask p tid).history =
      s.history ++ [.emit (.created tid), .setOptions tid, .cont tid 0] := by
  simp only [newTask, h, if_true]
  split <;> simp [act, report]

@[simp] theorem newTask_pid (s : TraceThread) (tid : Int) : (s.newTask p tid).pid = s.pid := by
  simp only [newTask]
  split
  · split <;> simp [act, report]
  · rfl

/-- The first of the two: the task is only remembered. -/
theorem newTask_waiting {tid : Int} (h : tid ∉ s.newTasks) :
    s.newTask p tid = { s with newTasks := s.newTasks.insert tid } := by
  simp only [newTask, h, if_false]

@[simp] theorem getEventMsg_tasks (s : TraceThread) (tid : Int) (msg : Option Int) :
    (s.getEventMsg tid msg).tasks = s.tasks := by
  cases msg <;> rfl

@[simp] theorem getEventMsg_newTasks (s : TraceThread) (tid : Int) (msg : Option Int) :
    (s.getEventMsg tid msg).newTasks = s.newTasks := by
  cases msg <;> rfl

@[simp] theorem getEventMsg_history (s : TraceThread) (tid : Int) (msg : Option Int) :
    (s.getEventMsg tid msg).history = s.history ++ [.getEventMsg tid] := by
  cases msg <;> rfl

end TraceThread

/-! ## The two notifications of a clone -/

inductive Sight where
  | cloned | stopped | exited
  deriving DecidableEq, Repr

namespace Wake

/-- The loop looks at the status. -/
def handled (w : Wake) : Bool := !(w.alarmOccured && w.exreq) && decide (w.tracePid ≠ -1)

/-- What a handled wake tells about which task. -/
def sight (w : Wake) : Option (Int × Sight) :=
  if w.handled then
    match w.status with
    | .exited | .signaled => some (w.tracePid, .exited)
    | .stopped (.sigtrap event msg) => if event = .other then none else msg.map (·, .cloned)
    | .stopped .sigstop => some (w.tracePid, .stopped)
    | .stopped (.other _) => none
    | .other => none
  else none

/-- The kernel tells the tid of the new task with a clone, fork or vfork event. -/
def Readable (w : Wake) : Prop := ∀ event, w.status = .stopped (.sigtrap event none) → event = .other

instance (w : Wake) : Decidable w.Readable :=
  match h : w.status with
  | .stopped (.sigtrap event none) =>
    decidable_of_iff (event = .other) (by simp [Readable, h])
  | .stopped (.sigtrap event (some msg)) => isTrue (by simp [Readable, h])
  | .stopped .sigstop => isTrue (by simp [Readable, h])
  | .stopped (.other sig) => isTrue (by simp [Readable, h])
  | .exited => isTrue (by simp [Readable, h])
  | .signaled => isTrue (by simp [Readable, h])
  | .other => isTrue (by simp [Readable, h])

/-- The requests about the parent before and after a clone event is handled. -/
def asks (w : Wake) : List TraceAction :=
  match w.status with
  | .stopped (.sigtrap _ _) => [.getEventMsg w.tracePid]
  | _ => []

def resumes (w : Wake) : List TraceAction :=
  match w.status with
  | .stopped (.sigtrap _ _) => [.cont w.tracePid 0]
  | _ => []

end Wake

namespace TraceThread

variable {p : Ptrace} {s t : TraceThread} {w : Wake}

@[simp] theorem asks_signal (w : Wake) : w.asks.filterMap signal = [] := by
  unfold Wake.asks
  split <;> rfl

@[simp] theorem resumes_signal (w : Wake) : w.resumes.filterMap signal = [] := by
  unfold Wake.resumes
  split <;> rfl

/-- A step that hands `tid` to `newTask`. -/
def Hands (s : TraceThread) (w : Wake) (tid : Int) : Prop :=
  w.sight = some (tid, .cloned) ∨ w.sight = some (tid, .stopped) ∧ tid ∉ s.tasks

/-- The five things a step can do to the two sets. -/
inductive Joins (s : TraceThread) (w : Wake) (t : TraceThread) : Prop where
  | quiet (sight : w.sight = none) (tasks : t.tasks = s.tasks) (newTasks : t.newTasks = s.newTasks)
      (emitted : t.emitted = s.emitted)
  | exited (tid : Int) (sight : w.sight = some (tid, .exited)) (tasks : t.tasks = s.tasks.erase tid)
      (newTasks : t.newTasks = s.newTasks) (history : t.history = s.history ++ [.emit (.terminated tid)])
  | continued (tid : Int) (sight : w.sight = some (tid, .stopped)) (known : tid ∈ s.tasks)
      (tasks : t.tasks = s.tasks) (newTasks : t.newTasks = s.newTasks)
      (history : t.history = s.history ++ [.cont tid 0])
  | remembered (tid : Int) (hands : s.Hands w tid) (first : tid ∉ s.newTasks) (tasks : t.tasks = s.tasks)
      (newTasks : t.newTasks = s.newTasks.insert tid) (history : t.history = s.history ++ w.asks ++ w.resumes)
  | joined (tid : Int) (hands : s.Hands w tid) (second : tid ∈ s.newTasks)
      (tasks : t.tasks = s.tasks.insert tid) (newTasks : t.newTasks = s.newTasks.erase tid)
      (history : t.history = s.history ++ w.asks ++
        [.emit (.created tid), .setOptions tid, .cont tid 0] ++ w.resumes)

/-- A task that is only remembered is not signalled. -/
theorem emitted_remembered {w : Wake} (h : t.history = s.history ++ w.asks ++ w.resumes) :
    t.emitted = s.emitted := by
  rw [List.append_assoc] at h
  rw [emitted_append h, List.filterMap_append, asks_signal, resumes_signal]
  exact List.append_nil _

theorem emitted_joined {w : Wake} {tid : Int} (h : t.history = s.history ++ w.asks ++
    [.emit (.created tid), .setOptions tid, .cont tid 0] ++ w.resumes) :
    t.emitted = s.emitted ++ [.created tid] := by
  rw [List.append_assoc, List.append_assoc] at h
  rw [emitted_append h, List.filterMap_append, List.filterMap_append, asks_signal, resumes_signal]
  rfl

/-- Two states with the same sets and signals have been through the same. -/
theorem Joins.of_newTask (tid : Int) (u : TraceThread) (hands : s.Hands w tid)
    (htasks : u.tasks = s.tasks) (hnew : u.newTasks = s.newTasks) (hhist : u.history = s.history ++ w.asks)
    (ht : t.tasks = (u.newTask p tid).tasks) (ht' : t.newTasks = (u.newTask p tid).newTasks)
    (hth : t.history = (u.newTask p tid).history ++ w.resumes) : s.Joins w t := by
  by_cases h : tid ∈ u.newTasks
  · obtain ⟨h₁, h₂, h₃⟩ := newTask_joined (p := p) h
    refine .joined tid hands (hnew ▸ h) ?_ ?_ ?_
    · rw [ht, h₁, htasks]
    · rw [ht', h₂, hnew]
    · rw [hth, h₃, hhist]
  · rw [newTask_waiting h] at ht ht' hth
    refine .remembered tid hands (hnew ▸ h) ?_ ?_ ?_
    · rw [ht, htasks]
    · rw [ht', hnew]
    · rw [hth, hhist]

theorem handle_joins (hh : w.handled = true) (hr : w.Readable) :
    s.Joins w (s.handle p w.tracePid w.status) := by
  cases hw : w.status with
  | exited => exact .exited w.tracePid (by simp [Wake.sight, hh, hw]) rfl rfl rfl
  | signaled => exact .exited w.tracePid (by simp [Wake.sight, hh, hw]) rfl rfl rfl
  | other => exact .quiet (by simp [Wake.sight, hh, hw]) rfl rfl rfl
  | stopped sig =>
    cases sig with
    | other sig =>
      exact .quiet (by simp [Wake.sight, hh, hw]) (by simp [handle]) (by simp [handle])
        (by simp [handle, emitted, signal])
    | sigstop =>
      have hsight : w.sight = some (w.tracePid, .stopped) := by simp [Wake.sight, hh, hw]
      rw [handle]
      by_cases hmem : w.tracePid ∈ s.tasks
      · rw [if_pos hmem]
        exact .continued w.tracePid hsight hmem (by simp) (by simp) (by simp)
      · rw [if_neg hmem]
        exact .of_newTask w.tracePid s (.inr ⟨hsight, hmem⟩) rfl rfl (by simp [Wake.asks, hw]) rfl rfl
          (by simp [Wake.resumes, hw])
    | sigtrap event msg =>
      by_cases hevent : event = .other
      · exact .quiet (by simp [Wake.sight, hh, hw, hevent]) (by simp [handle, hevent])
          (by simp [handle, hevent]) (by simp [handle, hevent, emitted, signal])
      · cases msg with
        | none => exact absurd (hr event hw) hevent
        | some tid =>
          refine .of_newTask (p := p) tid (s.getEventMsg w.tracePid (some tid))
            (.inl (by simp [Wake.sight, hh, hw, hevent])) (by simp) (by simp)
            (by simp [Wake.asks, hw]) ?_ ?_ ?_
          all_goals simp [handle, hevent, Wake.resumes, hw, getEventMsg]

theorem step_joins (h : step p s w = some t) (hr : w.Readable) : s.Joins w t := by
  simp only [step] at h
  split at h
  · cases h
  split at h
  · -- the thread was asked to exit
    rename_i hexit
    cases h
    exact .quiet (by simp [Wake.sight, Wake.handled, hexit]) rfl rfl rfl
  split at h
  · -- `waitpid` has failed
    rename_i hfailed
    have hsight : w.sight = none := by simp [Wake.sight, Wake.handled, hfailed]
    cases h
    split <;> exact .quiet hsight rfl rfl rfl
  rename_i hexit hpid
  have hhandled : w.handled = true := by simp [Wake.handled, hexit, hpid]
  cases h
  exact handle_joins hhandled hr

end TraceThread

/-- A task is new, then half announced, then running, then gone. -/
inductive Life where
  | unborn | cloned | stopped | live | gone
  deriving DecidableEq, Repr

/-- One clone event and one first SIGSTOP in either order, then any number of stops, then the
exit; a tid is not used again. -/
def Life.next : Life → Sight → Option Life
  | .unborn, .cloned => some .cloned
  | .unborn, .stopped => some .stopped
  | .cloned, .stopped => some .live
  | .stopped, .cloned => some .live
  | .live, .stopped => some .live
  | .live, .exited => some .gone
  | _, _ => none

/-- What a list of wakes tells about one task. -/
def sightsOf (tid : Int) (ws : List Wake) : List Sight :=
  ws.filterMap fun w => w.sight.bind fun x => if x.1 = tid then some x.2 else none

theorem sightsOf_append (tid : Int) (ws vs : List Wake) :
    sightsOf tid (ws ++ vs) = sightsOf tid ws ++ sightsOf tid vs := List.filterMap_append

theorem exists_sight {tid : Int} {w : Wake} (h : sightsOf tid [w] ≠ []) :
    ∃ x, w.sight = some (tid, x) := by
  cases hw : w.sight with
  | none => simp [sightsOf, hw] at h
  | some y =>
    by_cases hy : y.1 = tid
    · exact ⟨y.2, by rw [← hy]⟩
    · simp [sightsOf, hw, hy] at h

/-- The tasks in `tasks` are live already, every other one is seen from its birth. -/
def Life.initial (tasks : TidSet) (tid : Int) : Life := if tid ∈ tasks then .live else .unborn

/-- Every task goes through its life, however the tasks are mixed. -/
def Orderly (tasks : TidSet) (ws : List Wake) : Prop :=
  ∀ tid, (run Life.next (.initial tasks tid) (sightsOf tid ws)).isSome

/-- Both notifications of `tid` are among the wakes. -/
def BothSeen (tid : Int) (ws : List Wake) : Prop :=
  .cloned ∈ sightsOf tid ws ∧ .stopped ∈ sightsOf tid ws

instance (tid : Int) (ws : List Wake) : Decidable (BothSeen tid ws) :=
  inferInstanceAs (Decidable (_ ∧ _))

/-- The birth of the task is over. -/
def Life.Born (l : Life) : Prop := l = .live ∨ l = .gone

instance (l : Life) : Decidable l.Born := inferInstanceAs (Decidable (_ ∨ _))

theorem Life.Born.next {k l : Life} {x : Sight} (hk : k.Born) (h : k.next x = some l) : l.Born := by
  rcases hk with rfl | rfl <;> cases x <;> cases h
  · exact .inl rfl
  · exact .inr rfl

/-- Halfway through its birth a task waits for one notification. -/
theorem Life.born_iff_of_waiting {k l : Life} {x : Sight} {xs : List Sight} (hk : ¬ k.Born)
    (hwait : ∀ y m, k.next y = some m → y = x ∧ m = .live) (h : run Life.next k xs = some l) :
    l.Born ↔ x ∈ xs := by
  cases xs with
  | nil =>
    cases h
    simp [hk]
  | cons y xs =>
    rw [run_cons] at h
    obtain ⟨m, hm, hrest⟩ := Option.bind_eq_some_iff.mp h
    obtain ⟨rfl, rfl⟩ := hwait y m hm
    have hborn : l.Born := run_invariant Life.Born (fun _ _ _ hk _ hm => hk.next hm) (.inl rfl)
      (admitted_true ..) hrest
    simp [hborn]

/-- Only its exit ends a life. -/
theorem Life.ne_gone {k l : Life} {xs : List Sight} (hk : k ≠ .gone) (hx : .exited ∉ xs)
    (h : run Life.next k xs = some l) : l ≠ .gone := by
  induction xs generalizing k with
  | nil =>
    cases h
    exact hk
  | cons x xs ih =>
    rw [run_cons] at h
    obtain ⟨m, hm, hrest⟩ := Option.bind_eq_some_iff.mp h
    have hne : m ≠ .gone := by
      rintro rfl
      cases x with
      | exited => exact hx (by simp)
      | cloned => cases k <;> cases hm
      | stopped => cases k <;> cases hm
    exact ih hne (fun h => hx (List.mem_cons_of_mem x h)) hrest

/-- A task that was new is born exactly when both notifications are in. -/
theorem Life.born_iff {l : Life} {xs : List Sight} (h : run Life.next .unborn xs = some l) :
    l.Born ↔ .cloned ∈ xs ∧ .stopped ∈ xs := by
  cases xs with
  | nil =>
    cases h
    simp [Life.Born]
  | cons x xs =>
    rw [run_cons] at h
    obtain ⟨m, hm, hrest⟩ := Option.bind_eq_some_iff.mp h
    cases x with
    | exited => cases hm
    | cloned =>
      cases hm
      rw [born_iff_of_waiting (x := .stopped) (by decide) ?_ hrest]
      · simp
      · intro y m hy
        cases y <;> cases hy
        exact ⟨rfl, rfl⟩
    | stopped =>
      cases hm
      rw [born_iff_of_waiting (x := .cloned) (by decide) ?_ hrest]
      · simp
      · intro y m hy
        cases y <;> cases hy
        exact ⟨rfl, rfl⟩

namespace TraceThread

variable {p : Ptrace} {s t : TraceThread} {w : Wake} {tasks : TidSet} {life life' : Int → Life}

/-- The tracer knows each task for what it is, and has announced those that were new. -/
structure Follows (tasks : TidSet) (s : TraceThread) (life : Int → Life) : Prop where
  live : ∀ tid, tid ∈ s.tasks ↔ life tid = .live
  halfway : ∀ tid, tid ∈ s.newTasks ↔ life tid = .cloned ∨ life tid = .stopped
  attached : ∀ tid ∈ tasks, (life tid).Born
  created : ∀ tid, s.emitted.count (.created tid) = if tid ∉ tasks ∧ (life tid).Born then 1 else 0

/-- A wake about one task moves only that one on. -/
theorem moves_of_sight {tid : Int} {x : Sight} (hsight : w.sight = some (tid, x))
    (hlife : ∀ tid, run Life.next (life tid) (sightsOf tid [w]) = some (life' tid)) :
    (life tid).next x = some (life' tid) ∧ ∀ y, y ≠ tid → life' y = life y := by
  constructor
  · simpa [sightsOf, hsight] using hlife tid
  · intro y hy
    have := hlife y
    simp only [sightsOf, hsight, Option.bind_some, if_neg (Ne.symm hy), List.filterMap_cons,
      List.filterMap_nil, run_nil, Option.some.injEq] at this
    exact this.symm

theorem keeps_of_quiet (hsight : w.sight = none)
    (hlife : ∀ tid, run Life.next (life tid) (sightsOf tid [w]) = some (life' tid)) : life' = life := by
  funext tid
  have := hlife tid
  simp only [sightsOf, hsight, Option.bind_none, List.filterMap_cons, List.filterMap_nil, run_nil,
    Option.some.injEq] at this
  exact this.symm

/-- The first notification leaves a task halfway, the second one makes it live. -/
theorem Hands.moves (hs : Follows tasks s life) {tid : Int} (h : s.Hands w tid)
    (hlife : ∀ tid, run Life.next (life tid) (sightsOf tid [w]) = some (life' tid)) :
    tid ∉ tasks ∧ tid ∉ s.tasks ∧
    (tid ∈ s.newTasks → life' tid = .live) ∧
    (tid ∉ s.newTasks → life' tid = .cloned ∨ life' tid = .stopped) ∧
    ¬ (life tid).Born ∧ ∀ y, y ≠ tid → life' y = life y := by
  have hx : ∃ x, w.sight = some (tid, x) ∧ (life tid).next x = some (life' tid) ∧ x ≠ .exited ∧
      (x = .stopped → life tid ≠ .live) := by
    rcases h with h | ⟨h, hmem⟩
    · exact ⟨.cloned, h, (moves_of_sight h hlife).1, by decide, fun he => by cases he⟩
    · exact ⟨.stopped, h, (moves_of_sight h hlife).1, by decide, fun _ => mt (hs.live tid).mpr hmem⟩
  obtain ⟨x, hsight, hnext, hexit, hstop⟩ := hx
  have hborn : ¬ (life tid).Born := by
    rintro (hl | hl) <;> rw [hl] at hnext hstop <;> cases x <;> simp_all [Life.next]
  refine ⟨fun hmem => hborn (hs.attached tid hmem), fun hmem => hborn (.inl ((hs.live tid).mp hmem)),
    ?_, ?_, hborn, (moves_of_sight hsight hlife).2⟩
  · intro hmem
    rcases (hs.halfway tid).mp hmem with hl | hl <;> rw [hl] at hnext <;> cases x <;>
      simp_all [Life.next]
  · intro hmem
    rw [hs.halfway tid] at hmem
    cases hl : life tid <;> rw [hl] at hnext hmem hborn <;> cases x <;>
      simp_all [Life.next, Life.Born]

/-- The part about one task is enough when nothing else has changed. -/
theorem Follows.of_moved (tid : Int) (hs : Follows tasks s life)
    (hothers : ∀ y, y ≠ tid → life' y = life y ∧ (y ∈ t.tasks ↔ y ∈ s.tasks) ∧
      (y ∈ t.newTasks ↔ y ∈ s.newTasks) ∧
      t.emitted.count (.created y) = s.emitted.count (.created y))
    (hlive : tid ∈ t.tasks ↔ life' tid = .live)
    (hhalf : tid ∈ t.newTasks ↔ life' tid = .cloned ∨ life' tid = .stopped)
    (hatt : tid ∈ tasks → (life' tid).Born)
    (hcreated : t.emitted.count (.created tid) = if tid ∉ tasks ∧ (life' tid).Born then 1 else 0) :
    Follows tasks t life' := by
  refine ⟨?_, ?_, ?_, ?_⟩ <;> intro y <;> by_cases hy : y = tid
  · exact hy ▸ hlive
  · rw [(hothers y hy).2.1, (hothers y hy).1]
    exact hs.live y
  · exact hy ▸ hhalf
  · rw [(hothers y hy).2.2.1, (hothers y hy).1]
    exact hs.halfway y
  · exact hy ▸ hatt
  · rw [(hothers y hy).1]
    exact hs.attached y
  · exact hy ▸ hcreated
  · rw [(hothers y hy).2.2.2, (hothers y hy).1]
    exact hs.created y

theorem Follows.of_same (hs : Follows tasks s life) (htasks : t.tasks = s.tasks)
    (hnew : t.newTasks = s.newTasks) (hemitted : t.emitted = s.emitted) : Follows tasks t life := by
  refine ⟨?_, ?_, hs.attached, ?_⟩
  · rw [htasks]
    exact hs.live
  · rw [hnew]
    exact hs.halfway
  · rw [hemitted]
    exact hs.created

/-- A task is never in both sets. -/
theorem Follows.disjoint (hs : Follows tasks s life) (tid : Int) : ¬ (tid ∈ s.tasks ∧ tid ∈ s.newTasks) := by
  rintro ⟨htask, hnewTask⟩
  have hl := (hs.live tid).mp htask
  rcases (hs.halfway tid).mp hnewTask with hl' | hl' <;> simp [hl] at hl'

theorem follows_step (hs : Follows tasks s life) (h : s.Joins w t)
    (hlife : ∀ tid, run Life.next (life tid) (sightsOf tid [w]) = some (life' tid)) :
    Follows tasks t life' := by
  cases h with
  | quiet hsight htasks hnew hemitted =>
    obtain rfl := keeps_of_quiet hsight hlife
    exact hs.of_same htasks hnew hemitted
  | exited tid hsight htasks hnew hhist =>
    obtain ⟨hnext, hothers⟩ := moves_of_sight hsight hlife
    have hlives : life tid = .live ∧ life' tid = .gone := by
      cases hl : life tid <;> simp_all [Life.next]
    have hemitted : ∀ y, t.emitted.count (.created y) = s.emitted.count (.created y) := by
      intro y
      simp [emitted_append hhist, signal]
    refine hs.of_moved tid (fun y hy => ⟨hothers y hy, ?_, by rw [hnew], hemitted y⟩) ?_ ?_ ?_ ?_
    · simp [htasks, hy]
    · simp [htasks, hlives]
    · rw [hnew, hs.halfway tid]
      simp [hlives]
    · exact fun _ => .inr hlives.2
    · rw [hemitted, hs.created tid]
      simp [hlives, Life.Born]
  | continued tid hsight hknown htasks hnew hhist =>
    obtain ⟨hnext, hothers⟩ := moves_of_sight hsight hlife
    have hlives : life' tid = life tid := by
      rw [(hs.live tid).mp hknown] at hnext ⊢
      exact (Option.some.inj hnext).symm
    obtain rfl : life' = life := by
      funext y
      by_cases hy : y = tid
      · exact hy ▸ hlives
      · exact hothers y hy
    have hemitted : t.emitted = s.emitted := by simp [emitted_append hhist, signal]
    exact hs.of_same htasks hnew hemitted
  | remembered tid hands hfirst htasks hnew hhist =>
    obtain ⟨hatt, hout, -, hhalf, hborn, hothers⟩ := hands.moves hs hlife
    have hhalf := hhalf hfirst
    have hborn' : ¬ (life' tid).Born := by rcases hhalf with hl | hl <;> rw [hl] <;> decide
    have hemitted := emitted_remembered hhist
    refine hs.of_moved tid (fun y hy => ⟨hothers y hy, by rw [htasks], ?_, by rw [hemitted]⟩) ?_ ?_ ?_ ?_
    · simp [hnew, hy]
    · rw [htasks]
      exact ⟨fun h => absurd h hout, fun h => absurd (.inl h) hborn'⟩
    · simp [hnew, hhalf]
    · exact fun h => absurd h hatt
    · rw [hemitted, hs.created tid]
      simp [hborn, hborn']
  | joined tid hands hsecond htasks hnew hhist =>
    obtain ⟨hatt, hout, hlive, -, hborn, hothers⟩ := hands.moves hs hlife
    have hlive := hlive hsecond
    have hemitted := emitted_joined hhist
    refine hs.of_moved tid (fun y hy => ⟨hothers y hy, ?_, ?_, ?_⟩) ?_ ?_ ?_ ?_
    · simp [htasks, hy]
    · simp [hnew, hy]
    · simp [hemitted, Ne.symm hy]
    · simp [htasks, hlive]
    · simp [hnew, hlive]
    · exact fun h => absurd h hatt
    · rw [hemitted, List.count_append, hs.created tid, if_neg (fun h => hborn h.2)]
      simp [hlive, hatt, Life.Born]

theorem follows_run {ws : List Wake} (hs : Follows tasks s life) (hread : ∀ w ∈ ws, w.Readable)
    (hlife : ∀ tid, run Life.next (life tid) (sightsOf tid ws) = some (life' tid))
    (hrun : run (step p) s ws = some t) : Follows tasks t life' := by
  induction ws generalizing s life with
  | nil =>
    cases hrun
    obtain rfl : life = life' := funext fun tid => Option.some.inj (hlife tid)
    exact hs
  | cons w ws ih =>
    rw [run_cons] at hrun
    obtain ⟨u, hu, hrest⟩ := Option.bind_eq_some_iff.mp hrun
    have hmid : ∀ tid, ∃ l, run Life.next (life tid) (sightsOf tid [w]) = some l ∧
        run Life.next l (sightsOf tid ws) = some (life' tid) := by
      intro tid
      have h := hlife tid
      rw [show w :: ws = [w] ++ ws from rfl, sightsOf_append, run_append] at h
      exact Option.bind_eq_some_iff.mp h
    choose mid hfirst hlast using hmid
    exact ih (follows_step hs (step_joins hu (hread w (by simp))) hfirst)
      (fun v hv => hread v (List.mem_cons_of_mem w hv)) hlast hrest

theorem follows_initial (hnew : s.newTasks = .empty) (hquiet : s.emitted = []) :
    Follows s.tasks s (Life.initial s.tasks) where
  live tid := by by_cases h : tid ∈ s.tasks <;> simp [Life.initial, h]
  halfway tid := by by_cases h : tid ∈ s.tasks <;> simp [Life.initial, h, hnew]
  attached tid h := by simp [Life.initial, h, Life.Born]
  created tid := by by_cases h : tid ∈ s.tasks <;> simp [Life.initial, h, hquiet, Life.Born]

theorem sight_of_hands {tid : Int} (h : s.Hands w tid) : ∃ x, w.sight = some (tid, x) := by
  rcases h with h | ⟨h, -⟩ <;> exact ⟨_, h⟩

theorem Hands.eq {tid y : Int} {x : Sight} (h : s.Hands w y) (hsight : w.sight = some (tid, x)) : y = tid := by
  obtain ⟨z, hz⟩ := sight_of_hands h
  rw [hsight] at hz
  exact (congrArg Prod.fst (Option.some.inj hz)).symm

/-- A task whose life a wake changes is the one the wake is about. -/
theorem eq_of_sight {tid y : Int} {x : Sight} (hsight : w.sight = some (tid, x))
    (hlife : ∀ tid, run Life.next (life tid) (sightsOf tid [w]) = some (life' tid))
    (hy : life' y ≠ life y) : y = tid := by
  by_contra hne
  exact hy ((moves_of_sight hsight hlife).2 y hne)

/-- The wake that completes a birth is the second of the two notifications. -/
theorem Joins.history_of_birth {tid : Int} (h : s.Joins w t) (hs : Follows tasks s life)
    (hlife : ∀ tid, run Life.next (life tid) (sightsOf tid [w]) = some (life' tid))
    (hborn : ¬ (life tid).Born) (hborn' : (life' tid).Born) :
    t.history = s.history ++ w.asks ++
      [.emit (.created tid), .setOptions tid, .cont tid 0] ++ w.resumes := by
  have hne : life' tid ≠ life tid := fun he => hborn (he ▸ hborn')
  cases h with
  | quiet hsight => exact absurd (congrFun (keeps_of_quiet hsight hlife) tid) hne
  | exited x hsight =>
    obtain rfl := eq_of_sight hsight hlife hne
    have hnext := (moves_of_sight hsight hlife).1
    cases hl : life tid <;> simp_all [Life.next, Life.Born]
  | continued x hsight hknown =>
    obtain rfl := eq_of_sight hsight hlife hne
    exact absurd (.inl ((hs.live tid).mp hknown)) hborn
  | remembered x hands hfirst =>
    obtain ⟨_, hsight⟩ := sight_of_hands hands
    obtain rfl := eq_of_sight hsight hlife hne
    rcases (hands.moves hs hlife).2.2.2.1 hfirst with hl | hl <;> simp_all [Life.Born]
  | joined x hands hsecond htasks hnew hhist =>
    obtain ⟨_, hsight⟩ := sight_of_hands hands
    obtain rfl := eq_of_sight hsight hlife hne
    exact hhist

/-- After the first of them only the parent is asked anything. -/
theorem Joins.history_of_first {tid : Int} {x : Sight} (h : s.Joins w t) (hs : Follows tasks s life)
    (hlife : ∀ tid, run Life.next (life tid) (sightsOf tid [w]) = some (life' tid))
    (hsight : w.sight = some (tid, x)) (hborn' : ¬ (life' tid).Born) :
    t.history = s.history ++ w.asks ++ w.resumes := by
  have hnext := (moves_of_sight hsight hlife).1
  cases h with
  | quiet hnone => simp [hsight] at hnone
  | exited y hy =>
    obtain ⟨rfl, rfl⟩ : tid = y ∧ x = .exited := by simpa [hsight] using hy
    cases hl : life tid <;> simp_all [Life.next, Life.Born]
  | continued y hy hknown =>
    obtain ⟨rfl, rfl⟩ : tid = y ∧ x = .stopped := by simpa [hsight] using hy
    rw [(hs.live tid).mp hknown] at hnext
    exact absurd (.inl (Option.some.inj hnext).symm) hborn'
  | remembered y hands hfirst htasks hnew hhist => exact hhist
  | joined y hands hsecond =>
    obtain rfl := hands.eq hsight
    exact absurd (.inl ((hands.moves hs hlife).2.2.1 hsecond)) hborn'

/-- A SIGSTOP of a task that is born only continues it. -/
theorem Joins.of_later_stop {tid : Int} (h : s.Joins w t) (hs : Follows tasks s life)
    (hlife : ∀ tid, run Life.next (life tid) (sightsOf tid [w]) = some (life' tid))
    (hsight : w.sight = some (tid, .stopped)) (hborn : (life tid).Born) :
    t.tasks = s.tasks ∧ t.newTasks = s.newTasks ∧ t.history = s.history ++ [.cont tid 0] := by
  have hnot : ¬ s.Hands w tid := fun hands => (hands.moves hs hlife).2.2.2.2.1 hborn
  cases h with
  | quiet hnone => simp [hsight] at hnone
  | exited y hy => simp [hsight] at hy
  | continued y hy hknown htasks hnew hhist =>
    obtain rfl : tid = y := by simpa [hsight] using hy
    exact ⟨htasks, hnew, hhist⟩
  | remembered y hands =>
    obtain rfl := hands.eq hsight
    exact absurd hands hnot
  | joined y hands =>
    obtain rfl := hands.eq hsight
    exact absurd hands hnot

theorem born_iff_bothSeen {tid : Int} {ws : List Wake} {l : Life} (hout : tid ∉ tasks)
    (h : run Life.next (.initial tasks tid) (sightsOf tid ws) = some l) : l.Born ↔ BothSeen tid ws := by
  rw [Life.initial, if_neg hout] at h
  exact Life.born_iff h

/-- Each new task is announced exactly once, at the later of its clone event and its first
SIGSTOP, in whatever order these come and whatever other tasks do in between. With the
announcement it gets its options and is continued, after the earlier event nothing is asked of
it; from then until its exit it is in `tasks`, and a later SIGSTOP only continues it. A task is
never in both sets. -/
theorem taskCreated_exactly_once (p : Ptrace) (s₀ s : TraceThread) (ws : List Wake)
    (hnew : s₀.newTasks = .empty) (hquiet : s₀.emitted = []) (hread : ∀ w ∈ ws, w.Readable)
    (horder : Orderly s₀.tasks ws) (hrun : run (step p) s₀ ws = some s) :
    (∀ tid, ¬ (tid ∈ s.tasks ∧ tid ∈ s.newTasks)) ∧
    ∀ tid, tid ∉ s₀.tasks →
      s.emitted.count (.created tid) = (if BothSeen tid ws then 1 else 0) ∧
      (BothSeen tid ws → .exited ∉ sightsOf tid ws → tid ∈ s.tasks ∧ tid ∉ s.newTasks) ∧
      ∀ w t, w.Readable → Orderly s₀.tasks (ws ++ [w]) → step p s w = some t →
        (¬ BothSeen tid ws → BothSeen tid (ws ++ [w]) →
          t.history = s.history ++ w.asks ++
            [.emit (.created tid), .setOptions tid, .cont tid 0] ++ w.resumes) ∧
        (sightsOf tid [w] ≠ [] → ¬ BothSeen tid (ws ++ [w]) →
          t.history = s.history ++ w.asks ++ w.resumes) ∧
        (BothSeen tid ws → w.sight = some (tid, .stopped) →
          t.tasks = s.tasks ∧ t.newTasks = s.newTasks ∧ t.history = s.history ++ [.cont tid 0]) := by
  have hlives : ∀ tid, ∃ l, run Life.next (.initial s₀.tasks tid) (sightsOf tid ws) = some l :=
    fun tid => Option.isSome_iff_exists.mp (horder tid)
  choose life hlife using hlives
  have hs := follows_run (follows_initial hnew hquiet) hread hlife hrun
  refine ⟨hs.disjoint, ?_⟩
  intro tid hout
  have hborn := born_iff_bothSeen hout (hlife tid)
  refine ⟨?_, ?_, ?_⟩
  · rw [hs.created tid]
    simp [hout, hborn]
  · intro hboth hexit
    have hgone : life tid ≠ .gone := by
      refine Life.ne_gone ?_ hexit (hlife tid)
      rw [Life.initial, if_neg hout]
      decide
    have hl : life tid = .live := (hborn.mpr hboth).resolve_right hgone
    have htask : tid ∈ s.tasks := (hs.live tid).mpr hl
    exact ⟨htask, fun hnewTask => hs.disjoint tid ⟨htask, hnewTask⟩⟩
  · intro w t hw horder' hstep
    have hlives' : ∀ tid, ∃ l, run Life.next (.initial s₀.tasks tid) (sightsOf tid (ws ++ [w])) = some l :=
      fun tid => Option.isSome_iff_exists.mp (horder' tid)
    choose life' hlife' using hlives'
    have hmove : ∀ tid, run Life.next (life tid) (sightsOf tid [w]) = some (life' tid) := by
      intro tid
      have h := hlife' tid
      rw [sightsOf_append, run_append, hlife tid] at h
      exact h
    have hjoins := step_joins hstep hw
    rw [← hborn, ← born_iff_bothSeen hout (hlife' tid)]
    refine ⟨hjoins.history_of_birth hs hmove, ?_, fun hb hsight => hjoins.of_later_stop hs hmove hsight hb⟩
    intro hsome hb
    obtain ⟨x, hsight⟩ := exists_sight hsome
    exact hjoins.history_of_first hs hmove hsight hb

/-- Every request succeeds. -/
def obliging : Ptrace where
  attach _ _ := none
  exited _ _ := false
  attachOptions _ _ := none
  setOptions _ _ := none
  cont _ _ := none

/-- Task 10 clones 11 and 12; 12 stops before its clone event is seen, between the two of 11. -/
def twoClones : List Wake :=
  [⟨10, .stopped (.sigtrap .clone (some 11)), false, false⟩, ⟨12, .stopped .sigstop, false, false⟩,
    ⟨11, .stopped .sigstop, false, false⟩, ⟨10, .stopped (.sigtrap .clone (some 12)), false, false⟩]

theorem twoClones_orderly (tid : Int) :
    (run Life.next (.initial (.singleton 10) tid) (sightsOf tid twoClones)).isSome := by
  by_cases h10 : tid = 10
  · subst h10
    decide
  by_cases h11 : tid = 11
  · subst h11
    decide
  by_cases h12 : tid = 12
  · subst h12
    decide
  have hnone : sightsOf tid twoClones = [] := by
    simp [sightsOf, twoClones, Wake.sight, Wake.handled, Ne.symm h11, Ne.symm h12]
  simp [hnone]

/-- Both tasks are announced once. -/
theorem twoClones_announced :
    ∃ s, run (step obliging) { pid := 10, eventMsg := 0, tasks := .singleton 10 } twoClones = some s ∧
      s.emitted.count (.created 11) = 1 ∧ s.emitted.count (.created 12) = 1 := by
  obtain ⟨s, hs⟩ : ∃ s, run (step obliging) { pid := 10, eventMsg := 0, tasks := .singleton 10 } twoClones =
      some s := ⟨_, rfl⟩
  have h := (taskCreated_exactly_once obliging { pid := 10, eventMsg := 0, tasks := .singleton 10 } s
    twoClones rfl rfl (by decide) twoClones_orderly hs).2
  refine ⟨s, hs, ?_, ?_⟩
  · rw [(h 11 (by decide)).1]
    decide
  · rw [(h 12 (by decide)).1]
    decide

end TraceThread

end AutopinPlus
