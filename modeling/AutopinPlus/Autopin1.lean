import AutopinPlus.ControlStrategy

/-!
# The control strategy autopin1

autopin1 tries the configured pinnings one after the other: pin, wait, measure, and
at the end apply the best. The search is spread over slots that single-shot timers and
zero-delay restarts call, and task and phase events may come at any time between
them. A slot has no result where the source would subscript out of range or read
a member of a pinned task that was never written.
-/
namespace AutopinPlus

namespace Autopin1

open PartialStep (subscript)

variable {M D : Type}

/-- The members `init` sets. -/
structure Setup (M D : Type) where
  kernel : Kernel D
  monitor : PerformanceMonitor M D
  monitorType : Montype
  pinnings : List (List Int)
  skip : TidSet := .empty
  openmpIcc : Bool := false
  trace : Bool := false

/-- `pinned_task`; members that have not been written have no value. -/
structure PinnedTask (D : Type) where
  tid : Int
  start : Option Int := none
  stop : Option Int := none
  result : Option D := none

inductive MonitorCall where
  | start (tid : Int)
  | stop (tid : Int)
  | clear (tid : Int)
  deriving DecidableEq, Repr

/-- The performance monitor with its context and the host, and the calls made of it. -/
structure Probe (M : Type) where
  session : Session M
  calls : List MonitorCall := []

namespace Probe

def start (u : Setup M D) (tid : Int) (p : Probe M) : Probe M :=
  ⟨u.monitor.start tid p.session, p.calls ++ [.start tid]⟩

def stop (u : Setup M D) (tid : Int) (p : Probe M) : D × Probe M :=
  let (result, session) := u.monitor.stop tid p.session
  (result, ⟨session, p.calls ++ [.stop tid]⟩)

def clear (u : Setup M D) (tid : Int) (p : Probe M) : Probe M :=
  ⟨u.monitor.clear tid p.session, p.calls ++ [.clear tid]⟩

/-- `measure_start.elapsed()`. -/
def elapsed (u : Setup M D) (p : Probe M) : Int × Probe M :=
  let (ms, host) := p.session.host.elapsed u.kernel
  (ms, { p with session.host := host })

def setAffinity (u : Setup M D) (tid cpu : Int) (p : Probe M) : Probe M :=
  { p with session.host := (p.session.host.setAffinity u.kernel tid cpu).2 }

def report (p : Probe M) (error : AutopinErrors) (opt msg : String) : Probe M :=
  { p with session.context := p.session.context.report error opt msg }

end Probe

/-- What `getProcessTree` returns in a given context. -/
abbrev Scanner := AutopinContext → Scan

/-- The members that change. `restarts` counts the zero-delay shots in the event queue; `stops`
and `applied` are histories of `slot_stopPinning` and `applyPinning`. -/
structure State (M D : Type) where
  probe : Probe M
  currentPinning : Int := 0
  bestPinning : Int := -1
  bestPerformance : Option D := none
  initTimer : Bool := false
  warmupTimer : Bool := false
  measureTimer : Bool := false
  restarts : Nat := 0
  notifications : Bool := false
  tasks : List Int := []
  pinnedTasks : List (PinnedTask D) := []
  stops : List (Int × D) := []
  applied : List (List Int) := []

/-! ## Helpers of the slots -/

/-- `getProcessTree` and `getAllTasks`. -/
def scan (sc : Scanner) (p : Probe M) : TidSet × Probe M :=
  ((sc p.session.context).tree.getAllTasks,
    { p with session.context := (sc p.session.context).report p.session.context })

def refreshTasks (sc : Scanner) (s : State M D) : State M D :=
  { s with probe := (scan sc s.probe).2, tasks := (scan sc s.probe).1.elems }

def pin (u : Setup M D) (tid cpu : Int) (s : State M D) : State M D :=
  { s with
    probe := s.probe.setAffinity u tid cpu,
    pinnedTasks := s.pinnedTasks ++ [{ tid := tid }] }

/-- Body of the loop in `applyPinning` for the task `j`; the accumulator has `i`. -/
def pinNext (u : Setup M D) (pinning : List Int) (acc : Nat × State M D) (j : Nat) :
    Option (Nat × State M D) :=
  if pinning.length ≤ acc.1 then some acc
  else if (j : Int) ∈ u.skip then some acc
  else if j = 1 ∧ u.openmpIcc then some acc
  else do
    let tid ← acc.2.tasks[j]?
    let cpu ← pinning[acc.1]?
    some (acc.1 + 1, pin u tid cpu acc.2)

def applyPinning (u : Setup M D) (pinning : List Int) (s : State M D) : Option (State M D) :=
  ((List.range s.tasks.length).foldlM (pinNext u pinning)
    (0, { s with applied := s.applied ++ [pinning] })).map Prod.snd

/-- The `remove_if` of `checkPinnedTasks`. -/
def removeTerminated (u : Setup M D) (running : TidSet) :
    List (PinnedTask D) → Probe M → List (PinnedTask D) × Probe M
  | [], p => ([], p)
  | t :: ts, p =>
    if t.tid ∈ running then
      let (ts, p) := removeTerminated u running ts p
      (t :: ts, p)
    else removeTerminated u running ts (p.clear u t.tid)

/-- `checkPinnedTasks` on the list of pinned tasks. -/
def checkPinned (u : Setup M D) (sc : Scanner) (ts : List (PinnedTask D)) (p : Probe M) :
    List (PinnedTask D) × Probe M :=
  if u.trace then (ts, p)
  else
    let (running, p) := scan sc p
    let (ts, p) := removeTerminated u running ts p
    (ts, if ts.isEmpty then p.report .strategy "no_task" "All pinned tasks have terminated" else p)

def checkPinnedTasks (u : Setup M D) (sc : Scanner) (s : State M D) : State M D :=
  { s with
    pinnedTasks := (checkPinned u sc s.pinnedTasks s.probe).1,
    probe := (checkPinned u sc s.pinnedTasks s.probe).2 }

/-- The loop of `slot_startMonitor`. -/
def startTasks (u : Setup M D) : List (PinnedTask D) → Probe M → List (PinnedTask D) × Probe M
  | [], p => ([], p)
  | t :: ts, p =>
    let (ms, p) := (p.start u t.tid).elapsed u
    let (ts, p) := startTasks u ts p
    ({ t with start := some ms, stop := some (-1) } :: ts, p)

section Arithmetic

variable [Zero D] [Add D] [Div D] [IntCast D] [NatCast D]

/-- Body of the loop of `slot_stopPinning`: read the result of a task that still runs, and
scale it by its running time. -/
def readTask (u : Setup M D) (t : PinnedTask D) (p : Probe M) : Option (D × PinnedTask D × Probe M) := do
  let stop ← t.stop
  if stop = -1 then
    let (ms, p) := p.elapsed u
    let (tres, p) := p.stop u t.tid
    let start ← t.start
    let result := tres / ((ms - start : Int) : D)
    some (result, { t with stop := some ms, result := some result }, p)
  else
    let tres ← t.result
    let start ← t.start
    let result := tres / ((stop - start : Int) : D)
    some (result, { t with result := some result }, p)

def readTasks (u : Setup M D) :
    List (PinnedTask D) → D → Probe M → Option (D × List (PinnedTask D) × Probe M)
  | [], sum, p => some (sum, [], p)
  | t :: ts, sum, p => do
    let (result, t, p) ← readTask u t p
    let (sum, ts, p) ← readTasks u ts (sum + result) p
    some (sum, t :: ts, p)

end Arithmetic

/-- The comparison of a result with the best one so far. -/
def improves [LT D] [DecidableLT D] : Montype → D → D → Bool
  | .max, current, best => best < current
  | .min, current, best => current < best
  | .unknown, _, _ => false

/-- The `switch` of `slot_stopPinning` for a known type: `best_performance` is not read before
it is written. -/
def updateBest [LT D] [DecidableLT D] (u : Setup M D) (current : D) (s : State M D) :
    Option (State M D) :=
  if s.bestPinning = -1 then
    some { s with bestPerformance := some current, bestPinning := s.currentPinning }
  else do
    let best ← s.bestPerformance
    if improves u.monitorType current best then
      some { s with bestPerformance := some current, bestPinning := s.currentPinning }
    else some s

/-! ## The slots -/

def slotWatchdogReady (s : State M D) : State M D := { s with initTimer := true }

def slotStartPinning (u : Setup M D) (sc : Scanner) (s : State M D) : Option (State M D) := do
  let s := { refreshTasks sc s with notifications := true }
  let newPinning ← subscript u.pinnings s.currentPinning
  let s ← applyPinning u newPinning s
  some { s with warmupTimer := true }

def slotStartMonitor (u : Setup M D) (sc : Scanner) (s : State M D) : State M D :=
  let s := checkPinnedTasks u sc s
  { s with
    pinnedTasks := (startTasks u s.pinnedTasks s.probe).1,
    probe := (startTasks u s.pinnedTasks s.probe).2,
    measureTimer := true }

/-- The end of `slot_stopPinning`: go on to the next pinning or apply the best one. -/
def nextPinning (u : Setup M D) (refresh : Scanner) (s : State M D) : Option (State M D) :=
  if s.currentPinning < u.pinnings.length then some { s with restarts := s.restarts + 1 }
  else do
    let s := refreshTasks refresh s
    let best ← subscript u.pinnings s.bestPinning
    applyPinning u best s

section Arithmetic

variable [Zero D] [Add D] [Div D] [IntCast D] [NatCast D] [LT D] [DecidableLT D]

def slotStopPinning (u : Setup M D) (check refresh : Scanner) (s : State M D) :
    Option (State M D) := do
  let s := checkPinnedTasks u check { s with notifications := false }
  let (sum, ts, probe) ← readTasks u s.pinnedTasks 0 s.probe
  let s := { s with pinnedTasks := ts, probe := probe }
  let current := sum / ((ts.length : Nat) : D)
  match u.monitorType with
  | .unknown =>
    some { s with
      probe := s.probe.report .unsupported "critical"
        "autopin1.slot_stopPinning(): Performance monitor has unknown type." }
  | .max | .min =>
    let s ← updateBest u current s
    nextPinning u refresh
      { s with
        stops := s.stops ++ [(s.currentPinning, current)],
        pinnedTasks := [],
        currentPinning := s.currentPinning + 1 }

/-- The part of `slot_TaskCreated` that pins the task, if a CPU is left for it. -/
def pinCreated (u : Setup M D) (tid : Int) (pinning : List Int) (s : State M D) : Option (State M D) :=
  let i := s.pinnedTasks.length
  let j := s.tasks.length
  if i < pinning.length ∧ ¬ ((j : Int) ∈ u.skip ∨ (j = 1 ∧ u.openmpIcc)) then do
    let cpu ← pinning[i]?
    let probe := s.probe.setAffinity u tid cpu
    if s.measureTimer then
      let (ms, probe) := (probe.start u tid).elapsed u
      some { s with
        probe := probe,
        pinnedTasks := s.pinnedTasks ++ [{ tid := tid, start := some ms, stop := some (-1) }] }
    else some { s with probe := probe, pinnedTasks := s.pinnedTasks ++ [{ tid := tid }] }
  else some s

def slotTaskCreated (u : Setup M D) (tid : Int) (s : State M D) : Option (State M D) :=
  if s.notifications then
    if s.pinnedTasks.any (fun t => t.tid = tid) then some s
    else do
      let pinning ← subscript u.pinnings s.currentPinning
      let s ← pinCreated u tid pinning s
      some { s with tasks := s.tasks ++ [tid] }
  else some s

/-- Replace the first entry of a tid. -/
def updateFirst (tid : Int) (f : PinnedTask D → PinnedTask D) : List (PinnedTask D) → List (PinnedTask D)
  | [] => []
  | t :: ts => if t.tid = tid then f t :: ts else t :: updateFirst tid f ts

def slotTaskTerminated (u : Setup M D) (tid : Int) (s : State M D) : State M D :=
  if s.notifications then
    if s.pinnedTasks.any (fun t => t.tid = tid) then
      let (result, probe) := s.probe.stop u tid
      if s.measureTimer then
        let (ms, probe) := probe.elapsed u
        { s with
          probe := probe,
          pinnedTasks :=
            updateFirst tid (fun t => { t with stop := some ms, result := some result }) s.pinnedTasks }
      else
        { s with
          probe := probe,
          pinnedTasks := s.pinnedTasks.eraseP (fun t => t.tid = tid) }
    else s
  else s

def slotPhaseChanged (s : State M D) : State M D :=
  if s.notifications then
    { s with
      warmupTimer := false,
      measureTimer := false,
      pinnedTasks := [],
      notifications := false,
      restarts := s.restarts + 1 }
  else s

/-! ## The event loop -/

inductive Event where
  | initTimeout (refresh : Scanner)
  | restart (refresh : Scanner)
  | warmupTimeout (check : Scanner)
  | measureTimeout (check refresh : Scanner)
  | taskCreated (tid : Int)
  | taskTerminated (tid : Int)
  | phaseChanged

/-- Handle one event. Nothing happens at the expiry of a timer that is not running. -/
def step (u : Setup M D) (s : State M D) : Event → Option (State M D)
  | .initTimeout refresh =>
    if s.initTimer then slotStartPinning u refresh { s with initTimer := false } else some s
  | .restart refresh =>
    if 0 < s.restarts then slotStartPinning u refresh { s with restarts := s.restarts - 1 } else some s
  | .warmupTimeout check =>
    if s.warmupTimer then some (slotStartMonitor u check { s with warmupTimer := false }) else some s
  | .measureTimeout check refresh =>
    if s.measureTimer then slotStopPinning u check refresh { s with measureTimer := false } else some s
  | .taskCreated tid => slotTaskCreated u tid s
  | .taskTerminated tid => some (slotTaskTerminated u tid s)
  | .phaseChanged => some (slotPhaseChanged s)

/-- A strategy after its constructor and `init`, with `slot_watchdogReady` called. -/
def ready (session : Session M) : State M D := slotWatchdogReady { probe := { session := session } }

end Arithmetic

end Autopin1

end AutopinPlus
