import AutopinPlus.Autopin1Monitor
import AutopinPlus.WatchdogRun

/-!
# The average of autopin1

`slot_stopPinning` divides the result of each pinned task by its running time, and the
sum by the number of pinned tasks. Nothing keeps the list from being empty:
`checkPinnedTasks` reports that all tasks have terminated and returns, with tracing on
it does not look, and an entry of the schedule that names no core is accepted. A
running time is zero where the timer shows the same at both ends. The file says which
pinned tasks, scans and times of events keep all divisors positive.
-/
namespace AutopinPlus

namespace Autopin1

open PartialStep

variable {M D : Type} {u : Setup M D}

/-! ## Running times -/

/-- Both times have been written, and the task ran between them. -/
def Ran (t : PinnedTask D) : Prop :=
  ∃ start stop, t.start = some start ∧ t.stop = some stop ∧ 0 < stop - start

/-- The timer shows more than at the start of the task. -/
def Passed (t : PinnedTask D) (ms : Int) : Prop := ∃ start, t.start = some start ∧ start < ms

/-- The timer has advanced for each task that still runs when the loop of `slot_stopPinning`
comes to it. -/
def Advanced (u : Setup M D) : List (PinnedTask D) → Probe M → Prop
  | [], _ => True
  | t :: ts, p =>
    if t.stop = some (-1) then Passed t (p.elapsed u).1 ∧ Advanced u ts ((p.elapsed u).2.stop u t.tid).2
    else Advanced u ts p

theorem ran_of_stop {t : PinnedTask D} {ms : Int} (h : t.stop = some ms) : Ran t ↔ Passed t ms := by
  constructor
  · rintro ⟨start, stop, hstart, hstop, hlt⟩
    obtain rfl := Option.some.inj (h.symm.trans hstop)
    exact ⟨start, hstart, by omega⟩
  · rintro ⟨start, hstart, hlt⟩
    exact ⟨start, ms, hstart, h, by omega⟩

/-- An entry is open, or its task ran. -/
def Timed (t : PinnedTask D) : Prop := t.stop ≠ some (-1) → Ran t

/-! ## The loop -/

/-- Reading an entry closes it where its task still runs, and keeps its times otherwise. -/
theorem readTask_times [Div D] [IntCast D] {t t' : PinnedTask D} {p p' : Probe M} {r : D}
    (h : readTask u t p = some (r, t', p')) :
    (t.stop = some (-1) ∧ t'.start = t.start ∧ t'.stop = some (p.elapsed u).1 ∧
      p' = ((p.elapsed u).2.stop u t.tid).2) ∨
    (t.stop ≠ some (-1) ∧ t'.start = t.start ∧ t'.stop = t.stop ∧ p' = p) := by
  obtain ⟨stop, hstop, h⟩ := Option.bind_eq_some_iff.mp h
  split at h
  · rename_i hneg
    subst hneg
    obtain ⟨start, -, h⟩ := Option.bind_eq_some_iff.mp h
    cases h
    exact .inl ⟨hstop, rfl, rfl, rfl⟩
  · rename_i hpos
    obtain ⟨tres, -, h⟩ := Option.bind_eq_some_iff.mp h
    obtain ⟨start, -, h⟩ := Option.bind_eq_some_iff.mp h
    cases h
    refine .inr ⟨?_, rfl, rfl, rfl⟩
    rw [hstop]
    exact fun he => hpos (Option.some.inj he)

theorem ran_congr {t t' : PinnedTask D} (hstart : t'.start = t.start) (hstop : t'.stop = t.stop) :
    Ran t' ↔ Ran t := by
  simp only [Ran, hstart, hstop]

theorem passed_congr {t t' : PinnedTask D} (hstart : t'.start = t.start) (ms : Int) :
    Passed t' ms ↔ Passed t ms := by
  simp only [Passed, hstart]

/-- The loop leaves as many entries as it was given, with positive running times exactly if the timer
has advanced for those it closes and the others had one. -/
theorem readTasks_ran [Add D] [Div D] [IntCast D] {ts ts' : List (PinnedTask D)} {p p' : Probe M}
    {sum sum' : D} (h : readTasks u ts sum p = some (sum', ts', p')) :
    ts'.length = ts.length ∧ ((∀ t ∈ ts', Ran t) ↔ Advanced u ts p ∧ ∀ t ∈ ts, Timed t) := by
  induction ts generalizing p sum ts' with
  | nil =>
    cases h
    simp [Advanced]
  | cons t ts ih =>
    obtain ⟨⟨r, t', p₁⟩, hread, h⟩ := Option.bind_eq_some_iff.mp h
    obtain ⟨⟨sum₁, ts₁, p₂⟩, hrest, h⟩ := Option.bind_eq_some_iff.mp h
    cases h
    obtain ⟨hlength, hran⟩ := ih hrest
    refine ⟨by simp [hlength], ?_⟩
    rw [List.forall_mem_cons, List.forall_mem_cons, hran, Advanced]
    rcases readTask_times hread with ⟨hstop, hstart, hstop', rfl⟩ | ⟨hstop, hstart, hstop', rfl⟩
    · have hhead : Ran t' ↔ Passed t (p.elapsed u).1 := (ran_of_stop hstop').trans (passed_congr hstart _)
      have htimed : Timed t := fun hne => absurd hstop hne
      rw [if_pos hstop, hhead]
      tauto
    · have hhead : Ran t' ↔ Timed t := (ran_congr hstart hstop').trans ⟨fun hr _ => hr, fun ht => ht hstop⟩
      rw [if_neg hstop, hhead]
      tauto

theorem removeTerminated_eq_filter (running : TidSet) (ts : List (PinnedTask D)) (p : Probe M) :
    (removeTerminated u running ts p).1 = ts.filter (fun t => t.tid ∈ running) := by
  induction ts generalizing p with
  | nil => rfl
  | cons t ts ih =>
    rw [removeTerminated]
    split
    · rename_i hmem
      simp [hmem, ih]
    · rename_i hmem
      simp [hmem, ih]

/-- With tracing on `checkPinnedTasks` leaves every pinned task, else those that still run. -/
theorem mem_checkPinned (sc : Scanner) (ts : List (PinnedTask D)) (p : Probe M) (t : PinnedTask D) :
    t ∈ (checkPinned u sc ts p).1 ↔ t ∈ ts ∧ (u.trace = true ∨ t.tid ∈ (scan sc p).1) := by
  cases htrace : u.trace with
  | true => simp [checkPinned, htrace]
  | false => simp [checkPinned, htrace, removeTerminated_eq_filter, List.mem_filter]

/-! ## Steps -/

theorem startTasks_running (ts : List (PinnedTask D)) (p : Probe M) :
    ∀ t ∈ (startTasks u ts p).1, t.stop = some (-1) := by
  induction ts generalizing p with
  | nil => simp [startTasks]
  | cons t ts ih =>
    rw [startTasks, List.forall_mem_cons]
    exact ⟨rfl, ih _⟩

theorem nextPinning_measureTimer {refresh : Scanner} {s t : State M D} (h : nextPinning u refresh s = some t) :
    t.measureTimer = s.measureTimer := by
  unfold nextPinning at h
  split at h
  · cases h
    rfl
  · obtain ⟨best, -, h⟩ := Option.bind_eq_some_iff.mp h
    obtain ⟨host, tids, happly, -⟩ := applyPinning_spec u best (refreshTasks refresh s)
    obtain rfl := Option.some.inj (happly.symm.trans h)
    rfl

theorem slotStartPinning_measureTimer {sc : Scanner} {s t : State M D} (hsearch : Searching u s False)
    (h : slotStartPinning u sc s = some t) : t.measureTimer = s.measureTimer := by
  obtain ⟨pinning, hp⟩ := hsearch.pinning id
  obtain ⟨host, tids, hslot, -, -⟩ := slotStartPinning_spec u sc hp
  obtain rfl := Option.some.inj (hslot.symm.trans h)
  rfl

/-- During a measurement each entry is open or has a positive running time. -/
def Timely (s : State M D) : Prop := s.measureTimer = true → ∀ t ∈ s.pinnedTasks, Timed t

theorem Timely.of_idle {s : State M D} (h : s.measureTimer = false) : Timely s := by
  intro ht
  rw [h] at ht
  cases ht

/-- A task that is created during the measurement is still running. -/
theorem Admits.timely {tid : Int} {s : State M D} {probe : Probe M} {ts : List (PinnedTask D)} {tasks : List Int}
    (h : Admits u tid s probe ts) (hs : Timely s) :
    Timely { s with probe := probe, pinnedTasks := ts, tasks := tasks } := by
  rcases h with ⟨-, rfl⟩ | ⟨-, -, cpu, ⟨-, -, rfl⟩ | ⟨hoff, -, -⟩⟩
  · exact hs
  · intro ht x hx
    rcases List.mem_append.mp hx with hx | hx
    · exact hs ht x hx
    · obtain rfl := List.mem_singleton.mp hx
      exact fun hne => absurd rfl hne
  · exact .of_idle hoff

/-- With tracing on some task is pinned when the warm-up time ends; without tracing a pinned task is in
the process tree when the measure time ends. When the end of a measured task is signalled the timer shows
more than at the start of the task, and when the measure time ends more than at the start of each
task that still runs. -/
def Lasts (u : Setup M D) (s : State M D) : Event → Prop
  | .warmupTimeout _ => s.warmupTimer = true → u.trace = true → s.pinnedTasks ≠ []
  | .taskTerminated tid => s.measureTimer = true → ∀ t ∈ s.pinnedTasks, t.tid = tid →
      Passed t (s.probe.elapsed u).1
  | .measureTimeout check _ => s.measureTimer = true →
      (u.trace = false → ∃ t ∈ s.pinnedTasks, t.tid ∈ (scan check s.probe).1) ∧
      ∀ t ∈ s.pinnedTasks, t.stop = some (-1) → u.trace = true ∨ t.tid ∈ (scan check s.probe).1 →
        Passed t (s.probe.elapsed u).1
  | _ => True

/-- The loop of `slot_stopPinning` reads no time before `ms`. -/
def NotBefore (u : Setup M D) (ms : Int) : List (PinnedTask D) → Probe M → Prop
  | [], _ => True
  | t :: ts, p =>
    if t.stop = some (-1) then ms ≤ (p.elapsed u).1 ∧ NotBefore u ms ts ((p.elapsed u).2.stop u t.tid).2
    else NotBefore u ms ts p

/-- `QElapsedTimer` is monotonic: what it shows when an event comes is not more than what it shows while
the event is handled. -/
def Steady (u : Setup M D) (s : State M D) : Event → Prop
  | .taskTerminated tid => s.measureTimer = true → (s.probe.elapsed u).1 ≤ ((s.probe.stop u tid).2.elapsed u).1
  | .measureTimeout check _ => s.measureTimer = true →
      NotBefore u (s.probe.elapsed u).1 (checkPinned u check s.pinnedTasks s.probe).1
        (checkPinned u check s.pinnedTasks s.probe).2
  | _ => True

theorem Passed.mono {t : PinnedTask D} {ms later : Int} (h : Passed t ms) (hle : ms ≤ later) : Passed t later := by
  obtain ⟨start, hstart, hlt⟩ := h
  exact ⟨start, hstart, by omega⟩

/-- Tasks that the timer has passed at the begin of the loop are passed when the loop comes to them. -/
theorem advanced_of_passed {ms : Int} {ts : List (PinnedTask D)} {p : Probe M} (h : NotBefore u ms ts p)
    (hpassed : ∀ t ∈ ts, t.stop = some (-1) → Passed t ms) : Advanced u ts p := by
  induction ts generalizing p with
  | nil => trivial
  | cons t ts ih =>
    rw [List.forall_mem_cons] at hpassed
    obtain ⟨hhead, htail⟩ := hpassed
    rw [NotBefore] at h
    rw [Advanced]
    split at h
    · rename_i hopen
      rw [if_pos hopen]
      exact ⟨(hhead hopen).mono h.1, ih h.2 htail⟩
    · rename_i hclosed
      rw [if_neg hclosed]
      exact ih h htail

/-- With tracing on no measurement is without tasks. -/
def Occupied (u : Setup M D) (s : State M D) : Prop :=
  s.measureTimer = true → u.trace = true → s.pinnedTasks ≠ []

theorem Occupied.of_idle {s : State M D} (h : s.measureTimer = false) : Occupied u s := by
  intro ht
  rw [h] at ht
  cases ht

/-- No entry is taken off by the creation of a task. -/
theorem Admits.occupied {tid : Int} {s : State M D} {probe : Probe M} {ts : List (PinnedTask D)} {tasks : List Int}
    (h : Admits u tid s probe ts) (hs : Occupied u s) :
    Occupied u { s with probe := probe, pinnedTasks := ts, tasks := tasks } := by
  rcases h with ⟨-, rfl⟩ | ⟨-, -, cpu, ⟨-, -, rfl⟩ | ⟨hoff, -, -⟩⟩
  · exact hs
  · exact fun _ _ => List.append_ne_nil_of_right_ne_nil _ (List.cons_ne_nil _ _)
  · exact .of_idle hoff

/-- Nor by the end of one during a measurement. -/
theorem slotTaskTerminated_occupied {tid : Int} {s : State M D} (hs : Occupied u s) :
    Occupied u (slotTaskTerminated u tid s) := by
  rcases slotTaskTerminated_cases u tid s with heq | ⟨-, ⟨t, hmem, -⟩, ⟨-, heq⟩ | ⟨hoff, heq⟩⟩
  · rw [heq]
    exact hs
  · rw [heq]
    intro _ _ hnil
    have hnone : updateFirst tid _ s.pinnedTasks = [] := hnil
    have htids := congrArg (List.map PinnedTask.tid) hnone
    rw [map_tid_updateFirst, List.map_nil, List.map_eq_nil_iff] at htids
    · rw [htids] at hmem
      cases hmem
    · exact fun _ => rfl
  · rw [heq]
    exact .of_idle hoff

/-- An entry is closed with a positive running time. -/
theorem slotTaskTerminated_timely {tid : Int} {s : State M D} (hsteady : Steady u s (.taskTerminated tid))
    (hlasts : Lasts u s (.taskTerminated tid)) (hs : Timely s) : Timely (slotTaskTerminated u tid s) := by
  rcases slotTaskTerminated_cases u tid s with heq | ⟨-, -, ⟨hon, heq⟩ | ⟨hoff, heq⟩⟩
  · rw [heq]
    exact hs
  · rw [heq]
    intro _ x hx
    rcases mem_updateFirst hx with hx | ⟨y, hy, htid, rfl⟩
    · exact hs hon x hx
    · have hpassed := (hlasts hon y hy htid).mono (hsteady hon)
      exact fun _ => (ran_of_stop rfl).mpr ((passed_congr rfl _).mpr hpassed)
  · rw [heq]
    exact .of_idle hoff

section Steps

variable [Zero D] [Add D] [Div D] [IntCast D]

/-- At the expiry of the measure timer all divisors of `slot_stopPinning` are positive: the number of
the entries and the running time of each. -/
def Divides (u : Setup M D) (s : State M D) : Event → Prop
  | .measureTimeout check _ => s.measureTimer = true → ∃ sum ts probe,
      readTasks u (checkPinned u check s.pinnedTasks s.probe).1 0
        (checkPinned u check s.pinnedTasks s.probe).2 = some (sum, ts, probe) ∧
      0 < ts.length ∧ ∀ t ∈ ts, Ran t
  | _ => True

/-- A task is left, the tasks that have ended ran, and the timer has passed the starts of the others. -/
theorem divides_of_lasts {stage : Stage} {s : State M D} (h : InStage u stage s) (hoccupied : Occupied u s)
    (hs : Timely s) {check refresh : Scanner} (hsteady : Steady u s (.measureTimeout check refresh))
    (hlasts : Lasts u s (.measureTimeout check refresh)) : Divides u s (.measureTimeout check refresh) := by
  intro ht
  obtain ⟨hlisted, hpassed⟩ := hlasts ht
  have hmem := mem_checkPinned (u := u) check s.pinnedTasks s.probe
  have hmeasured : ∀ t ∈ (checkPinned u check s.pinnedTasks s.probe).1, Measured t :=
    fun t hleft => h.measured (h.measureTimer.mp ht) t ((hmem t).mp hleft).1
  obtain ⟨⟨sum, ts, probe⟩, hread⟩ := readTasks_isSome u hmeasured 0
    (checkPinned u check s.pinnedTasks s.probe).2
  obtain ⟨hlength, hran⟩ := readTasks_ran hread
  refine ⟨sum, ts, probe, hread, ?_, hran.mpr ⟨?_, fun t hleft => hs ht t ((hmem t).mp hleft).1⟩⟩
  · rw [hlength, List.length_pos_iff_exists_mem]
    cases htrace : u.trace with
    | true =>
      obtain ⟨t, hpinned⟩ := List.exists_mem_of_ne_nil _ (hoccupied ht htrace)
      exact ⟨t, (hmem t).mpr ⟨hpinned, .inl htrace⟩⟩
    | false =>
      obtain ⟨t, hpinned, hlists⟩ := hlisted htrace
      exact ⟨t, (hmem t).mpr ⟨hpinned, .inr hlists⟩⟩
  · refine advanced_of_passed (hsteady ht) ?_
    intro t hleft hopen
    obtain ⟨hpinned, hstays⟩ := (hmem t).mp hleft
    exact hpassed t hpinned hopen hstays

variable [LT D] [DecidableLT D]

/-- A measurement begins with all tasks running, and an entry is closed only when its task ends. -/
theorem Effect.timely {s t : State M D} {e : Event} (he : Effect u s e t) (hsteady : Steady u s e)
    (hlasts : Lasts u s e) (hs : Timely s) : Timely t := by
  cases he with
  | ignored => exact hs
  | startPinning hfire hq hsearch hslot =>
    exact .of_idle ((slotStartPinning_measureTimer hsearch hslot).trans hq.measureTimer)
  | startMonitor => exact fun _ x hx hne => absurd (startTasks_running _ _ x hx) hne
  | stopPinning _ hq _ _ _ hnext => exact .of_idle (nextPinning_measureTimer hnext)
  | created hadm => exact hadm.timely hs
  | terminated => exact slotTaskTerminated_timely hsteady hlasts hs
  | phaseChanged =>
    unfold slotPhaseChanged
    split
    · exact .of_idle rfl
    · exact hs

variable [NatCast D]

/-- A measurement begins with the tasks that are pinned when the warm-up time ends. -/
theorem step_occupied {s t : State M D} {e : Event} (hstep : step u s e = some t) (he : Effect u s e t)
    (hlasts : Lasts u s e) (hs : Occupied u s) : Occupied u t := by
  cases he with
  | ignored => exact hs
  | startPinning hfire hq hsearch hslot =>
    exact .of_idle ((slotStartPinning_measureTimer hsearch hslot).trans hq.measureTimer)
  | @startMonitor check =>
    by_cases hwarmup : s.warmupTimer = true
    · intro _ htrace hnil
      have hpinned := hlasts hwarmup htrace
      simp only [slotStartMonitor, checkPinnedTasks, checkPinned_trace htrace] at hnil
      have htids := (map_tid_startTasks u s.pinnedTasks s.probe).symm.trans (congrArg _ hnil)
      exact hpinned (List.map_eq_nil_iff.mp htids)
    · rw [step, if_neg hwarmup] at hstep
      exact Option.some.inj hstep ▸ hs
  | stopPinning _ hq _ _ _ hnext => exact .of_idle (nextPinning_measureTimer hnext)
  | created hadm => exact hadm.occupied hs
  | terminated => exact slotTaskTerminated_occupied hs
  | phaseChanged =>
    unfold slotPhaseChanged
    split
    · exact .of_idle rfl
    · exact hs

/-- In every run in which the pinned tasks last and the timer passes their starts, `slot_stopPinning` divides by
positive numbers only, in every measurement. -/
theorem run_divides (u : Setup M D) (session : Session M) (es : List Event) (hne : u.pinnings ≠ [])
    (hty : u.monitorType ≠ .unknown) (hsteady : Admitted (step u) (Steady u) (ready session : State M D) es)
    (hes : Admitted (step u) (Lasts u) (ready session : State M D) es) :
    (run (step u) (ready session : State M D) es).isSome ∧
      Admitted (step u) (Divides u) (ready session : State M D) es := by
  have hready : Occupied u (ready session : State M D) ∧ Timely (ready session : State M D) :=
    ⟨.of_idle rfl, .of_idle rfl⟩
  constructor
  · obtain ⟨s, -, hrun, -⟩ := run_effect (fun _ => True) hty (fun _ _ _ _ _ _ _ _ => trivial)
      (ready_inStage session hne) trivial hes
    simp [hrun]
  · refine (hsteady.and hes).imp (fun s => (∃ stage, InStage u stage s) ∧ Occupied u s ∧ Timely s) ?_ ?_
      ⟨⟨_, ready_inStage session hne⟩, hready⟩
    · rintro s e t ⟨⟨stage, hin⟩, hoccupied, hs⟩ ⟨hsteady, hlasts⟩ hstep
      obtain ⟨t', ht', he⟩ := step_effect hty hin e
      obtain rfl := Option.some.inj (ht'.symm.trans hstep)
      exact ⟨he.stage hin, step_occupied hstep he hlasts hoccupied, he.timely hsteady hlasts hs⟩
    · rintro s e ⟨⟨stage, hin⟩, hoccupied, hs⟩ ⟨hsteady, hlasts⟩
      cases e with
      | measureTimeout check refresh => exact divides_of_lasts hin hoccupied hs hsteady hlasts
      | _ => trivial

/-- The task runs through one measurement, and is measured again on the next core. -/
theorem twoPinnings_divides :
    (run (step twoPinnings) (ready ⟨{}, {}, {}⟩)
      [.initTimeout oneTask, .warmupTimeout oneTask, .measureTimeout oneTask oneTask, .restart oneTask]).isSome ∧
    Admitted (step twoPinnings) (Divides twoPinnings) (ready ⟨{}, {}, {}⟩)
      [.initTimeout oneTask, .warmupTimeout oneTask, .measureTimeout oneTask oneTask, .restart oneTask] := by
  refine run_divides twoPinnings ⟨{}, {}, {}⟩ _ (by decide) (by decide) ?_ ?_
  · refine ⟨trivial, fun s hs => ⟨trivial, fun t ht => ⟨?_, fun _ _ => ⟨trivial, fun _ _ => trivial⟩⟩⟩⟩
    obtain rfl := Option.some.inj hs
    obtain rfl := Option.some.inj ht
    exact fun _ => ⟨by decide, trivial⟩
  · refine ⟨trivial, fun s hs => ⟨fun _ htrace => ?_, fun t ht => ⟨?_, fun _ _ => ⟨trivial, fun _ _ => trivial⟩⟩⟩⟩
    · cases htrace
    · obtain rfl := Option.some.inj hs
      obtain rfl := Option.some.inj ht
      refine fun _ => ⟨fun _ => ⟨_, List.mem_singleton.mpr rfl, by decide⟩, ?_⟩
      intro t hmem _ _
      obtain rfl := List.mem_singleton.mp hmem
      exact ⟨_, rfl, by decide⟩

/-- A process with a second thread. -/
def twoThreads : Scanner := fun _ => { tree := .node 10 (.ofList [10, 11]) [] }

/-- The first task is not pinned. -/
def skipFirst : Setup (Random Int) Int := { twoPinnings with skip := .singleton 0 }

/-- The schedule of one entry that names no core, with tracing on. -/
def noCores : Setup (Random Int) Int := { tracedPinnings with pinnings := [[]] }

/-- The timer starts and the task ends within the same millisecond. -/
def sameMillisecond : Setup (Random Int) Int :=
  { tracedPinnings with kernel := { Kernel.succeeding with elapsed := fun clock => if clock < 8 then 0 else 30000 } }

/-- The first task is skipped, and the other one ends during the measurement: `checkPinnedTasks` reports it,
and the sum is divided by the length of the empty list all the same. The entry ":" is a pinning without
cores, with which the list is empty in every measurement. A task that ends in the millisecond it is first
measured in has the running time 0. -/
theorem twoPinnings_divides_by_zero :
    (∃ s, run (step skipFirst) (ready ⟨{}, {}, {}⟩) [.initTimeout twoThreads, .warmupTimeout twoThreads] = some s ∧
      s.pinnedTasks.map PinnedTask.tid = [11] ∧
      (checkPinned skipFirst oneTask s.pinnedTasks s.probe).1 = [] ∧
      (checkPinned skipFirst oneTask s.pinnedTasks s.probe).2.session.context.isError = true ∧
      ¬ Divides skipFirst s (.measureTimeout oneTask oneTask)) ∧
    readEntries [":"] = (noCores.pinnings, none) ∧
    (∃ s, run (step noCores) (ready ⟨{}, {}, {}⟩) [.initTimeout oneTask, .warmupTimeout oneTask] = some s ∧
      s.probe.session.context.isError = false ∧ ¬ Divides noCores s (.measureTimeout oneTask oneTask)) ∧
    ∃ s, run (step sameMillisecond) (ready ⟨{}, {}, {}⟩)
        [.initTimeout oneTask, .warmupTimeout oneTask, .taskTerminated 10] = some s ∧
      s.probe.session.context.isError = false ∧ ¬ Divides sameMillisecond s (.measureTimeout oneTask oneTask) := by
  refine ⟨⟨_, rfl, rfl, rfl, rfl, ?_⟩, by decide +kernel, ⟨_, rfl, rfl, ?_⟩, _, rfl, rfl, ?_⟩
  · intro h
    obtain ⟨sum, ts, probe, hread, hpos, -⟩ := h rfl
    cases hread
    exact absurd hpos (by decide)
  · intro h
    obtain ⟨sum, ts, probe, hread, hpos, -⟩ := h rfl
    cases hread
    exact absurd hpos (by decide)
  · intro h
    obtain ⟨sum, ts, probe, hread, -, hall⟩ := h rfl
    cases hread
    obtain ⟨start, stop, hstart, hstop, hlt⟩ := hall _ (List.mem_singleton.mpr rfl)
    cases hstart
    cases hstop
    exact absurd hlt (by decide)

end Steps

end Autopin1

end AutopinPlus
