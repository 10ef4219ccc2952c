import AutopinPlus.TraceThread

/-!
# What the control strategy learns from the tracer

The tracer runs in its own thread, and its signals reach the control strategy
through the event queue of the main thread. `ObservedProcess::start` announces the
observed process itself; for any other task the strategy depends on `newTask`.
-/
namespace AutopinPlus

open PartialStep

/-- The tids announced and not terminated since. -/
def known (tids : TidSet) (calls : List SlotCall) : TidSet :=
  calls.foldl (fun tids call =>
    match call with
    | .created tid => tids.insert tid
    | .terminated tid => tids.erase tid) tids

theorem known_append (tids : TidSet) (calls more : List SlotCall) :
    known tids (calls ++ more) = known (known tids calls) more := List.foldl_append

/-- Without a termination of `tid` it does not matter when `tid` is announced. -/
theorem known_insert {tid : Int} {calls : List SlotCall} (tids : TidSet) (h : .terminated tid ∉ calls) :
    known (tids.insert tid) calls = (known tids calls).insert tid := by
  induction calls generalizing tids with
  | nil => rfl
  | cons call calls ih =>
    have hrest : .terminated tid ∉ calls := fun hm => h (List.mem_cons_of_mem call hm)
    cases call with
    | created y =>
      have hcomm : (tids.insert tid).insert y = (tids.insert y).insert tid :=
        SortedSet.ext_mem (fun x => by simp only [SortedSet.mem_insert]; tauto)
      calc known (tids.insert tid) (.created y :: calls) = known ((tids.insert tid).insert y) calls := rfl
        _ = known ((tids.insert y).insert tid) calls := by rw [hcomm]
        _ = (known (tids.insert y) calls).insert tid := ih _ hrest
    | terminated y =>
      have hy : tid ≠ y := fun he => h (by simp [he])
      have hcomm : (tids.insert tid).erase y = (tids.erase y).insert tid := by
        apply SortedSet.ext_mem
        intro x
        simp only [SortedSet.mem_erase, SortedSet.mem_insert]
        constructor
        · tauto
        · rintro (rfl | hx)
          · exact ⟨.inl rfl, hy⟩
          · exact ⟨.inr hx.1, hx.2⟩
      calc known (tids.insert tid) (.terminated y :: calls) = known ((tids.insert tid).erase y) calls := rfl
        _ = known ((tids.erase y).insert tid) calls := by rw [hcomm]
        _ = (known (tids.erase y) calls).insert tid := ih _ hrest

/-! ## The tracer tells every change of `tasks` -/

namespace TraceThread

variable {p : Ptrace} {s t u : TraceThread} {w : Wake}

/-- From `s` to `t` the tracer has emitted a signal for each change of `tasks`. -/
def Tells (s t : TraceThread) : Prop :=
  t.pid = s.pid ∧ ∃ calls, t.emitted = s.emitted ++ calls ∧ t.tasks = known s.tasks calls

theorem Tells.of_eq (hpid : t.pid = s.pid) (hemitted : t.emitted = s.emitted) (htasks : t.tasks = s.tasks) :
    s.Tells t :=
  ⟨hpid, [], by rw [hemitted, List.append_nil], htasks⟩

theorem Tells.trans (h : s.Tells t) (h' : t.Tells u) : s.Tells u := by
  obtain ⟨hpid, calls, hemitted, htasks⟩ := h
  obtain ⟨hpid', calls', hemitted', htasks'⟩ := h'
  refine ⟨hpid'.trans hpid, calls ++ calls', ?_, ?_⟩
  · rw [hemitted', hemitted, List.append_assoc]
  · rw [htasks', htasks, known_append]

theorem ptraceContinue_tells (s : TraceThread) (tid : Int) (sig : Nat) :
    s.Tells (s.ptraceContinue p tid sig) :=
  .of_eq (by simp) (by simp [emitted, signal]) (by simp)

theorem newTask_tells (s : TraceThread) (tid : Int) : s.Tells (s.newTask p tid) := by
  by_cases h : tid ∈ s.newTasks
  · obtain ⟨htasks, -, hhist⟩ := newTask_joined (p := p) h
    refine ⟨newTask_pid s tid, [.created tid], ?_, htasks⟩
    rw [emitted_append hhist]
    rfl
  · rw [newTask_waiting h]
    exact .of_eq rfl rfl rfl

theorem getEventMsg_tells (s : TraceThread) (tid : Int) (msg : Option Int) :
    s.Tells (s.getEventMsg tid msg) :=
  .of_eq (by cases msg <;> rfl) (by simp [emitted, signal]) (by simp)

theorem handle_tells (s : TraceThread) (tracePid : Int) (status : WaitStatus) :
    s.Tells (s.handle p tracePid status) := by
  have hexit : s.Tells { s.act (.emit (.terminated tracePid)) with
      tasks := s.tasks.erase tracePid, ended := s.pid == tracePid } :=
    ⟨rfl, [.terminated tracePid], by simp [emitted, act, signal], rfl⟩
  cases status with
  | exited => exact hexit
  | signaled => exact hexit
  | other => exact .of_eq rfl rfl rfl
  | stopped sig =>
    cases sig with
    | other sig => exact ptraceContinue_tells s tracePid sig
    | sigstop =>
      rw [handle]
      split
      · exact ptraceContinue_tells s tracePid 0
      · exact newTask_tells s tracePid
    | sigtrap event msg =>
      refine (getEventMsg_tells s tracePid msg).trans (Tells.trans ?_ (ptraceContinue_tells _ tracePid 0))
      split
      · exact .of_eq rfl rfl rfl
      · exact newTask_tells _ _

theorem step_tells (h : step p s w = some t) : s.Tells t := by
  simp only [step] at h
  split at h
  · cases h
  split at h
  · cases h
    exact .of_eq rfl rfl rfl
  split at h
  · cases h
    split <;> exact .of_eq rfl rfl rfl
  · cases h
    exact handle_tells s w.tracePid w.status

/-! ## Which tasks `attach` leaves in `tasks` -/

/-- ESRCH and EPERM settle that a task is not traced, any other error is met again. -/
def settledBy : Errno → Option Bool
  | .esrch | .eperm => some false
  | .other _ => none

/-- What an attempt settles: the task is traced, it never is, or nothing. -/
def settled (p : Ptrace) (round : Nat) (tid : Int) : Option Bool :=
  match p.attach round tid with
  | some errno => settledBy errno
  | none =>
    if p.exited round tid then none
    else
      match p.attachOptions round tid with
      | some errno => settledBy errno
      | none => some true

/-- What the first of the scans settles that shows the task and settles anything about it. -/
def verdict (p : Ptrace) (tid : Int) : Nat → List TidSet → Option Bool
  | _, [] => none
  | round, scan :: scans =>
    (if tid ∈ scan then settled p round tid else none).or (verdict p tid (round + 1) scans)

theorem verdict_append (p : Ptrace) (tid : Int) (round : Nat) (scans : List TidSet) (scan : TidSet) :
    verdict p tid round (scans ++ [scan]) =
      (verdict p tid round scans).or (if tid ∈ scan then settled p (round + scans.length) tid else none) := by
  induction scans generalizing round with
  | nil => simp [verdict]
  | cons x scans ih =>
    have hround : round + 1 + scans.length = round + (x :: scans).length := by
      rw [List.length_cons]
      omega
    rw [List.cons_append, verdict, ih, verdict, Option.or_assoc, hround]

/-- From `a` to `b` an attempt has come out as `outcome`; the rest of the thread is as it was. -/
structure Attaching.Tried (a : Attaching) (tid : Int) (outcome : Option Bool) (b : Attaching) : Prop where
  tasks : b.thread.tasks = if outcome = some true then a.thread.tasks.insert tid else a.thread.tasks
  noTrace : b.noTrace = if outcome = some false then a.noTrace.insert tid else a.noTrace
  pid : b.thread.pid = a.thread.pid
  scans : b.thread.scans = a.thread.scans
  emitted : b.thread.emitted = a.thread.emitted

theorem attachTask_tried {p : Ptrace} {r : Nat} {a : Attaching} {tid : Int}
    (htasks : tid ∉ a.thread.tasks) (hno : tid ∉ a.noTrace) :
    a.Tried tid (settled p r tid) (attachTask p r a tid) := by
  simp only [attachTask, if_neg htasks, if_neg hno, settled]
  cases p.attach r tid with
  | some errno =>
    cases errno <;> exact ⟨rfl, rfl, rfl, rfl, by simp [Attaching.deny, emitted, act, report, signal]⟩
  | none =>
    cases p.exited r tid with
    | true => exact ⟨rfl, rfl, rfl, rfl, by simp [emitted, act, report, signal]⟩
    | false =>
      cases p.attachOptions r tid with
      | some errno =>
        cases errno <;>
          exact ⟨rfl, rfl, rfl, rfl, by simp [Attaching.deny, emitted, act, report, signal]⟩
      | none => exact ⟨rfl, rfl, rfl, rfl, by simp [emitted, act, signal]⟩

/-- The two sets hold exactly what has been settled. -/
structure Attaching.Reflects (a : Attaching) (seen : Int → Option Bool) : Prop where
  tasks : ∀ tid, tid ∈ a.thread.tasks ↔ seen tid = some true
  noTrace : ∀ tid, tid ∈ a.noTrace ↔ seen tid = some false

theorem attachTask_reflects {p : Ptrace} {r : Nat} {a : Attaching} {seen : Int → Option Bool} (tid : Int)
    (h : a.Reflects seen) :
    (attachTask p r a tid).Reflects
      (fun y => if y = tid then (seen y).or (settled p r y) else seen y) := by
  by_cases hsettled : (seen tid).isSome
  · have hsame : attachTask p r a tid = a := by
      obtain ⟨b, hb⟩ := Option.isSome_iff_exists.mp hsettled
      cases b with
      | true => rw [attachTask, if_pos ((h.tasks tid).mpr hb)]
      | false =>
        rw [attachTask, if_neg (fun hm => by rw [(h.tasks tid).mp hm] at hb; cases hb),
          if_pos ((h.noTrace tid).mpr hb)]
    have hseen : (fun y => if y = tid then (seen y).or (settled p r y) else seen y) = seen := by
      funext y
      split_ifs with hy
      · subst hy
        exact Option.or_of_isSome hsettled
      · rfl
    rw [hsame, hseen]
    exact h
  · have hnone : seen tid = none := by simpa using hsettled
    have htasks : tid ∉ a.thread.tasks := fun hm => by simp [(h.tasks tid).mp hm] at hnone
    have hno : tid ∉ a.noTrace := fun hm => by simp [(h.noTrace tid).mp hm] at hnone
    obtain ⟨htried, htriedNo, -, -, -⟩ := attachTask_tried (p := p) (r := r) htasks hno
    constructor
    · intro y
      rw [htried]
      by_cases hy : y = tid
      · subst hy
        simp only [if_true, hnone, Option.none_or]
        split_ifs with hs <;> simp [hs, htasks]
      · simp only [hy, if_false]
        split_ifs <;> simp [hy, h.tasks y]
    · intro y
      rw [htriedNo]
      by_cases hy : y = tid
      · subst hy
        simp only [if_true, hnone, Option.none_or]
        split_ifs with hs <;> simp [hs, hno]
      · simp only [hy, if_false]
        split_ifs <;> simp [hy, h.noTrace y]

/-- The attempts only touch the two sets. -/
theorem attachTask_frame (p : Ptrace) (r : Nat) (a : Attaching) (tid : Int) :
    (attachTask p r a tid).thread.pid = a.thread.pid ∧
    (attachTask p r a tid).thread.scans = a.thread.scans ∧
    (attachTask p r a tid).thread.emitted = a.thread.emitted := by
  by_cases htasks : tid ∈ a.thread.tasks
  · simp [attachTask, htasks]
  by_cases hno : tid ∈ a.noTrace
  · simp [attachTask, htasks, hno]
  obtain ⟨-, -, hpid, hscans, hemitted⟩ := attachTask_tried (p := p) (r := r) htasks hno
  exact ⟨hpid, hscans, hemitted⟩

theorem attachRound_frame (p : Ptrace) (r : Nat) (tids : List Int) (a : Attaching) :
    (tids.foldl (attachTask p r) a).thread.pid = a.thread.pid ∧
    (tids.foldl (attachTask p r) a).thread.scans = a.thread.scans ∧
    (tids.foldl (attachTask p r) a).thread.emitted = a.thread.emitted := by
  induction tids generalizing a with
  | nil => exact ⟨rfl, rfl, rfl⟩
  | cons tid tids ih =>
    obtain ⟨hpid, hscans, hemitted⟩ := attachTask_frame p r a tid
    obtain ⟨hpid', hscans', hemitted'⟩ := ih (attachTask p r a tid)
    exact ⟨hpid'.trans hpid, hscans'.trans hscans, hemitted'.trans hemitted⟩

/-- A round settles what can be settled about the tasks it is shown. -/
theorem attachRound_reflects {p : Ptrace} {r : Nat} (tids : List Int) {a : Attaching}
    {seen : Int → Option Bool} (h : a.Reflects seen) :
    (tids.foldl (attachTask p r) a).Reflects
      (fun y => (seen y).or (if y ∈ tids then settled p r y else none)) := by
  induction tids generalizing a seen with
  | nil => simpa using h
  | cons tid tids ih =>
    have hstep := ih (attachTask_reflects (r := r) (p := p) tid h)
    have hseen : (fun y => (if y = tid then (seen y).or (settled p r y) else seen y).or
        (if y ∈ tids then settled p r y else none)) =
        fun y => (seen y).or (if y ∈ tid :: tids then settled p r y else none) := by
      funext y
      by_cases hy : y = tid
      · subst hy
        by_cases hm : y ∈ tids <;> simp [hm, Option.or_assoc]
      · simp [hy]
    rw [hseen] at hstep
    exact hstep

/-- When `attach` is done, `tasks` holds the tasks whose verdict is that they are traced. -/
theorem attachLoop_tasks {o : ObservedProcess} {p : Ptrace} {fs : Nat → ProcFs} {fuel rounds : Nat}
    {s t : TraceThread} {noTrace : TidSet}
    (hs : (⟨s, noTrace, false⟩ : Attaching).Reflects (fun tid => verdict p tid 0 s.scans))
    (h : attachLoop o p fs fuel rounds s.scans.length s noTrace = some t) :
    (∀ tid, tid ∈ t.tasks ↔ verdict p tid 0 t.scans = some true) ∧ t.pid = s.pid ∧
      t.emitted = s.emitted := by
  induction rounds generalizing s noTrace with
  | zero => cases h
  | succ rounds ih =>
    rw [attachLoop, Option.bind_eq_bind] at h
    obtain ⟨⟨tree, c⟩, -, h⟩ := Option.bind_eq_some_iff.mp h
    dsimp only at h
    set a : Attaching := ⟨{ s with context := c, scans := s.scans ++ [tree.getAllTasks] }, noTrace, false⟩
      with ha
    have hframe := attachRound_frame p s.scans.length tree.getAllTasks.elems a
    have href : (tree.getAllTasks.elems.foldl (attachTask p s.scans.length) a).Reflects
        (fun tid => verdict p tid 0 (s.scans ++ [tree.getAllTasks])) := by
      have := attachRound_reflects (p := p) (r := s.scans.length) tree.getAllTasks.elems
        (a := a) ⟨hs.tasks, hs.noTrace⟩
      simpa only [verdict_append, Nat.zero_add, SortedSet.mem_elems] using this
    set b := tree.getAllTasks.elems.foldl (attachTask p s.scans.length) a with hb
    obtain ⟨hpid, hscans, hemitted⟩ := hframe
    have hscans' : b.thread.scans = s.scans ++ [tree.getAllTasks] := hscans
    split at h
    · have hlen : s.scans.length + 1 = b.thread.scans.length := by simp [hscans']
      rw [hlen] at h
      obtain ⟨htasks, hpid', hemitted'⟩ := ih
        ⟨by rw [hscans']; exact href.tasks, by rw [hscans']; exact href.noTrace⟩ h
      exact ⟨htasks, hpid'.trans hpid, hemitted'.trans hemitted⟩
    · cases h
      exact ⟨by rw [hscans']; exact href.tasks, hpid, hemitted⟩

theorem foldl_ptraceContinue (p : Ptrace) (tids : List Int) (s : TraceThread) :
    (tids.foldl (fun s tid => s.ptraceContinue p tid 0) s).tasks = s.tasks ∧
    (tids.foldl (fun s tid => s.ptraceContinue p tid 0) s).scans = s.scans ∧
    (tids.foldl (fun s tid => s.ptraceContinue p tid 0) s).pid = s.pid ∧
    (tids.foldl (fun s tid => s.ptraceContinue p tid 0) s).emitted = s.emitted := by
  induction tids generalizing s with
  | nil => exact ⟨rfl, rfl, rfl, rfl⟩
  | cons tid tids ih =>
    have hemitted : (s.ptraceContinue p tid 0).emitted = s.emitted := by simp [emitted, signal]
    simpa [hemitted] using ih (s.ptraceContinue p tid 0)

/-- The loop of `run` begins with the traced tasks in `tasks` and nothing announced. -/
theorem begin_tasks {o : ObservedProcess} {p : Ptrace} {fs : Nat → ProcFs} {fuel : Nat}
    {c : AutopinContext} {msg : Int} (h : begin o p fs fuel c msg = some s) :
    (∀ tid, tid ∈ s.tasks ↔ verdict p tid 0 s.scans = some true) ∧ s.pid = o.pid ∧ s.emitted = [] := by
  rw [begin, attach, Option.bind_eq_bind, Option.bind_assoc] at h
  obtain ⟨t, ht, h⟩ := Option.bind_eq_some_iff.mp h
  obtain ⟨htasks, hpid, hemitted⟩ := attachLoop_tasks (s := { pid := o.pid, eventMsg := msg, context := c })
    ⟨fun tid => by simp [verdict], fun tid => by simp [verdict]⟩ ht
  obtain ⟨ktasks, kscans, kpid, kemitted⟩ := foldl_ptraceContinue p t.tasks.elems t
  have key : s.tasks = t.tasks ∧ s.scans = t.scans ∧ s.pid = t.pid ∧ s.emitted = t.emitted := by
    simp only [Option.bind_some, Option.some.injEq] at h
    rw [← h]
    split <;> exact ⟨ktasks, kscans, kpid, kemitted⟩
  obtain ⟨h₁, h₂, h₃, h₄⟩ := key
  exact ⟨by rw [h₁, h₂]; exact htasks, h₃.trans hpid, h₄.trans hemitted⟩

end TraceThread

/-! ## The signals on their way -/

/-- The tracer, how many of its signals have been delivered, what the control strategy has
received, and whether `start` has announced the process. -/
structure Signals where
  tracer : TraceThread
  delivered : Nat := 0
  received : List SlotCall := []
  announced : Bool := false

inductive SignalEvent where
  | wake (w : Wake)
  /-- The event loop of the main thread delivers the oldest queued signal. `start` lets it do so
  only while it waits for the communication channel. -/
  | deliver
  /-- The last line of `ObservedProcess::start`, a direct call. -/
  | announce

namespace Signals

def queue (s : Signals) : List SlotCall := s.tracer.emitted.drop s.delivered

def step (p : Ptrace) (s : Signals) : SignalEvent → Option Signals
  | .wake w => (s.tracer.step p w).map fun t => { s with tracer := t }
  | .deliver => s.queue.head?.map fun call =>
      { s with delivered := s.delivered + 1, received := s.received ++ [call] }
  | .announce =>
    if s.announced then none
    else some { s with announced := true, received := s.received ++ [.created s.tracer.pid] }

/-- The end of the process does not reach the strategy before its announcement. -/
def InOrder (s : Signals) (e : SignalEvent) : Prop :=
  e = .deliver → s.announced = false → s.queue.head? ≠ some (.terminated s.tracer.pid)

/-- Delivering all that is queued would make the strategy know exactly `tasks`; before its
announcement this takes the process as known. -/
structure Told (s : Signals) : Prop where
  delivered : s.delivered ≤ s.tracer.emitted.length
  alive : s.announced = false → .terminated s.tracer.pid ∉ s.received
  known : known (if s.announced then .empty else SortedSet.empty.insert s.tracer.pid)
    (s.received ++ s.queue) = s.tracer.tasks

variable {p : Ptrace} {s t : Signals} {e : SignalEvent}

theorem step_told (hs : s.Told) (hok : s.InOrder e) (h : s.step p e = some t) : t.Told := by
  cases e with
  | wake w =>
    obtain ⟨u, hu, rfl⟩ := Option.map_eq_some_iff.mp h
    obtain ⟨hpid, calls, hemitted, htasks⟩ := TraceThread.step_tells hu
    refine ⟨?_, ?_, ?_⟩
    · rw [hemitted, List.length_append]
      exact Nat.le_add_right_of_le hs.delivered
    · rw [hpid]
      exact hs.alive
    · rw [queue, hemitted, List.drop_append_of_le_length hs.delivered, ← List.append_assoc, known_append,
        hpid, htasks, ← hs.known]
      rfl
  | deliver =>
    obtain ⟨call, hcall, rfl⟩ := Option.map_eq_some_iff.mp h
    obtain ⟨rest, hrest⟩ : ∃ rest, s.queue = call :: rest := List.head?_eq_some_iff.mp hcall
    have hlt : s.delivered < s.tracer.emitted.length := by
      have hlen := congrArg List.length hrest
      simp only [queue, List.length_drop, List.length_cons] at hlen
      omega
    have hqueue : s.tracer.emitted.drop (s.delivered + 1) = rest := by
      rw [← List.drop_drop, show s.tracer.emitted.drop s.delivered = call :: rest from hrest]
      rfl
    refine ⟨hlt, ?_, ?_⟩
    · intro hann hmem
      rcases List.mem_append.mp hmem with hmem | hmem
      · exact hs.alive hann hmem
      · rw [List.mem_singleton] at hmem
        exact hok rfl hann (hmem ▸ hcall)
    · rw [queue, hqueue, List.append_assoc, List.singleton_append, ← hrest]
      exact hs.known
  | announce =>
    simp only [step] at h
    split at h
    · cases h
    rename_i hann
    have hann : s.announced = false := by simpa using hann
    cases h
    refine ⟨hs.delivered, fun he => (by cases he), ?_⟩
    have hknown := hs.known
    rw [hann, if_neg Bool.false_ne_true, known_append, known_insert _ (hs.alive hann)] at hknown
    rw [if_pos rfl, known_append, known_append]
    exact hknown

/-- The system when the loop of `run` begins. -/
def start (tracer : TraceThread) : Signals := { tracer := tracer }

theorem start_told {tracer : TraceThread} (hquiet : tracer.emitted = [])
    (htasks : ∀ tid, tid ∈ tracer.tasks ↔ tid = tracer.pid) : (start tracer).Told where
  delivered := Nat.zero_le _
  alive _ := by simp [start]
  known := by
    apply SortedSet.ext_mem
    intro tid
    simp [start, queue, hquiet, htasks, AutopinPlus.known]

/-- Whatever tasks the process has when the tracer attaches: in every later run, of clones,
exits and anything else the tracer may see, mixed with deliveries in any order, the strategy
knows exactly the tracer's `tasks` whenever the process is announced and no signal is queued,
if and only if `attach` comes to trace the process itself and no other task. The end of the
process is not to be delivered before `start` announces it. -/
theorem strategy_knows_tasks_iff (o : ObservedProcess) (p : Ptrace) (fs : Nat → ProcFs) (fuel : Nat)
    (c : AutopinContext) (msg : Int) (tracer : TraceThread)
    (h : TraceThread.begin o p fs fuel c msg = some tracer) :
    (∀ es t, Admitted (step p) InOrder (start tracer) es → run (step p) (start tracer) es = some t →
      t.announced = true → t.queue = [] → known .empty t.received = t.tracer.tasks) ↔
    ∀ tid, TraceThread.verdict p tid 0 tracer.scans = some true ↔ tid = o.pid := by
  obtain ⟨htasks, hpid, hquiet⟩ := TraceThread.begin_tasks h
  constructor
  · intro hall tid
    have hannounce := hall [.announce] _ ⟨by rintro ⟨⟩, fun _ _ => trivial⟩ rfl rfl (by simp [queue, start, hquiet])
    rw [← htasks tid, ← hpid]
    change known .empty [.created tracer.pid] = tracer.tasks at hannounce
    rw [← hannounce]
    simp [known]
  · intro halone es t hok hrun hann hdrained
    have htold : (start tracer).Told := start_told hquiet (by rw [hpid]; intro tid; rw [htasks, halone])
    have ht := run_invariant Told (fun s e t hs hok h => step_told hs hok h) htold hok hrun
    have hknown := ht.known
    rw [hann, hdrained, List.append_nil, if_pos rfl] at hknown
    exact hknown

/-- A file system that shows one process with these threads. -/
def threadsOnly (tids : List Int) : ProcFs where
  threads _ _ := some (.ofList tids)
  children _ _ := some (.empty, true)

/-- A process without further threads clones one, and the strategy hears of it. -/
theorem oneThread_known :
    ∃ tracer t, TraceThread.begin ⟨10, true⟩ TraceThread.obliging (fun _ => threadsOnly [10]) 3 {} 0 =
        some tracer ∧
      run (step TraceThread.obliging) (start tracer) [.announce,
        .wake ⟨10, .stopped (.sigtrap .clone (some 11)), false, false⟩,
        .wake ⟨11, .stopped .sigstop, false, false⟩, .deliver] = some t ∧
      known .empty t.received = t.tracer.tasks := by
  have halone : ∀ tid, TraceThread.verdict TraceThread.obliging tid 0 [.ofList [10], .ofList [10]] =
      some true ↔ tid = 10 := by
    intro tid
    by_cases h : tid = 10
    · subst h
      decide
    · simp [TraceThread.verdict, h]
  refine ⟨_, _, rfl, rfl, ?_⟩
  refine (strategy_knows_tasks_iff ⟨10, true⟩ TraceThread.obliging (fun _ => threadsOnly [10]) 3 {} 0 _ rfl).mpr
    halone [.announce, .wake ⟨10, .stopped (.sigtrap .clone (some 11)), false, false⟩,
      .wake ⟨11, .stopped .sigstop, false, false⟩, .deliver] _ ?_ rfl rfl rfl
  refine ⟨by rintro ⟨⟩, ?_⟩
  rintro _ ⟨⟩
  refine ⟨by rintro ⟨⟩, ?_⟩
  rintro _ ⟨⟩
  refine ⟨by rintro ⟨⟩, ?_⟩
  rintro _ ⟨⟩
  exact ⟨fun _ h => (by cases h), fun _ _ => trivial⟩

/-- The second thread is traced and never announced. -/
theorem twoThreads_unknown :
    ∃ tracer t, TraceThread.begin ⟨10, true⟩ TraceThread.obliging (fun _ => threadsOnly [10, 11]) 3 {} 0 =
        some tracer ∧
      run (step TraceThread.obliging) (start tracer) [.announce] = some t ∧ t.announced = true ∧
      t.queue = [] ∧ known .empty t.received ≠ t.tracer.tasks :=
  ⟨_, _, rfl, rfl, rfl, rfl, by decide⟩

end Signals

end AutopinPlus
