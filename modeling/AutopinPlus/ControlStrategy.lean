import Mathlib.Data.List.Sort
import AutopinPlus.CpuInfo
import AutopinPlus.PerformanceMonitor
import AutopinPlus.ProcessTree

/-!
# Control strategies over the shared pinning table

`ControlStrategy::pinning` is static: every strategy proposes a new table in
`getPinning`, and `changePinning` compares the proposal with the shared table and
applies the difference slot by slot. This file has the base class and the three
strategies that use the table. A slot of a strategy has no result where the
source would subscript a vector out of range.
-/
namespace AutopinPlus

open PartialStep (subscript)

variable {D : Type}

structure Task where
  pid : Int
  tid : Int
  deriving DecidableEq, Repr

def emptyTask : Task := ⟨0, 0⟩

def Task.isCpuFree (t : Task) : Bool := t == emptyTask

@[simp] theorem Task.isCpuFree_iff (t : Task) : t.isCpuFree = true ↔ t = emptyTask := by
  simp [Task.isCpuFree]

/-- The table: slot `i` is the task pinned on CPU `i`. -/
abbrev Pinning := List Task

/-- `std::sort` of the indexes by value. Equal values may come in any order, but
the order depends on the values only. -/
structure IndexSort where
  order : List Int → List Nat
  perm : ∀ v, (order v).Perm (List.range v.length)
  sorted : ∀ v, (order v).Pairwise (fun i j => v.getD i 0 ≤ v.getD j 0)

def IndexSort.insertion : IndexSort where
  order v := (List.range v.length).insertionSort (fun i j => v.getD i 0 ≤ v.getD j 0)
  perm v := List.perm_insertionSort _ _
  sorted v := by
    have : Std.Total (fun i j : Nat => v.getD i 0 ≤ v.getD j 0) := ⟨fun _ _ => le_total _ _⟩
    have : IsTrans Nat (fun i j => v.getD i 0 ≤ v.getD j 0) := ⟨fun _ _ _ => le_trans⟩
    exact List.pairwise_insertionSort _ _

/-- The order in which a `QSet<int>` is iterated. -/
structure SetOrder where
  order : TidSet → List Int
  perm : ∀ s, (order s).Perm s.elems

def SetOrder.ascending : SetOrder := ⟨SortedSet.elems, fun _ => .refl _⟩

/-- `base` is a strategy that overrides none of the virtual functions below. -/
inductive Kind where
  | base | noop | compact | scatter
  deriving DecidableEq, Repr

def Kind.name : Kind → String
  | .base => "ControlStrategy"
  | .noop => "noop"
  | .compact => "compact"
  | .scatter => "scatter"

inductive SlotCall where
  | created (tid : Int)
  | terminated (tid : Int)
  deriving DecidableEq, Repr

/-- The members of a strategy object. `pid` is `proc.getPid()`, and `calls` the
history of its two task slots, which the source does not keep. -/
structure Strategy (D : Type) where
  kind : Kind
  pid : Int
  tasks : List Int := []
  newTaskTid : Int := 0
  pinCount : List Int := []
  monitors : List (Monitor D) := []
  context : AutopinContext := {}
  calls : List SlotCall := []

/-- What a slot of one strategy acts on. -/
structure Frame (D : Type) where
  pinning : Pinning
  host : Host
  self : Strategy D

def Frame.record (f : Frame D) (call : SlotCall) : Frame D :=
  { f with self.calls := f.self.calls ++ [call] }

/-- The machine a strategy runs on. -/
structure Env (D : Type) where
  kernel : Kernel D
  cpu : CpuInfo
  sort : IndexSort

/-- One CPU, and every call succeeds. -/
def Env.oneCpu : Env Int where
  kernel := .succeeding
  cpu := { mapping := [0], distances := [[10]] }
  sort := .insertion

/-- Two CPUs on a node each, and every call succeeds. -/
def Env.twoNodes : Env Int where
  kernel := .succeeding
  cpu := { mapping := [0, 1], distances := [[10, 20], [20, 10]] }
  sort := .insertion

/-- One return of `ObservedProcess::getProcessTree`, with the tags and texts of the
`SYSTEM` reports made on the way. -/
structure Scan where
  tree : ProcessTree
  reports : List (String × String) := []

def Scan.report (scan : Scan) (context : AutopinContext) : AutopinContext :=
  scan.reports.foldl (fun c r => c.report .system r.1 r.2) context

/-- A scan reports only as the system. -/
theorem Scan.mem_report {scan : Scan} {context : AutopinContext} {e : AutopinErrors × String}
    (h : e ∈ (scan.report context).errors) : e ∈ context.errors ∨ e.1 = .system := by
  obtain ⟨tree, reports⟩ := scan
  induction reports generalizing context with
  | nil => exact .inl h
  | cons r rs ih =>
    have h' := @ih (context.report .system r.1 r.2) h
    simp only [AutopinContext.report_errors, List.mem_append, List.mem_singleton] at h'
    rcases h' with (h' | rfl) | h'
    · exact .inl h'
    · exact .inr rfl
    · exact .inr h'

/-! ## `getPinning` -/

namespace Compact

/-- Body of the loop over `j`; the accumulator is `(min_distance, pin_cpu_pos)`. -/
def compare (c : CpuInfo) (pid : Int) (cur : Pinning) (i : Nat) (acc : Nat × Int) (j : Nat) :
    Option (Nat × Int) := do
  let task ← cur[j]?
  if task.pid = pid then
    let d ← c.getCpuDistance i j
    -- the `int` distance is stored in a `uint`
    let distance := (d % 2 ^ 32).toNat
    if distance < acc.1 then some (distance, i) else some acc
  else some acc

/-- Body of the loop over `i`. -/
def consider (c : CpuInfo) (pid : Int) (cur : Pinning) (acc : Nat × Int) (i : Nat) :
    Option (Nat × Int) := do
  let task ← cur[i]?
  if task.isCpuFree then
    let acc := if acc.2 = -1 then (acc.1, (i : Int)) else acc
    (List.range cur.length).foldlM (compare c pid cur i) acc
  else some acc

def getPinning (c : CpuInfo) (pid newTaskTid : Int) (cur : Pinning) : Option Pinning :=
  if newTaskTid = 0 then some cur
  else do
    let acc ← (List.range cur.length).foldlM (consider c pid cur) (cur.length, -1)
    if acc.2 = -1 then some cur else some (cur.set acc.2.toNat ⟨pid, newTaskTid⟩)

end Compact

namespace Scatter

/-- The loop over the CPUs of one node. -/
def findFree (cur : Pinning) : List Nat → Option (Option Nat)
  | [] => some none
  | cpu :: rest => do
    let task ← cur[cpu]?
    if task.isCpuFree then some (some cpu) else findFree cur rest

/-- The loop over the nodes, left by `goto` with the node and CPU found. -/
def search (c : CpuInfo) (cur : Pinning) : List Nat → Option (Option (Nat × Nat))
  | [] => some none
  | node :: rest => do
    match ← findFree cur (c.getCpusByNode node) with
    | some cpu => some (some (node, cpu))
    | none => search c cur rest

def addPinCount (pinCount : List Int) (node delta : Int) : Option (List Int) :=
  (subscript pinCount node).map fun n => pinCount.set node.toNat (n + delta)

def getPinning (env : Env D) (pid newTaskTid : Int) (pinCount : List Int) (cur : Pinning) :
    Option (Pinning × List Int) :=
  if newTaskTid = 0 then some (cur, pinCount)
  else do
    match ← search env.cpu cur (env.sort.order pinCount) with
    | none => some (cur, pinCount)
    | some (node, cpu) =>
      let pinCount ← addPinCount pinCount node 1
      some (cur.set cpu ⟨pid, newTaskTid⟩, pinCount)

end Scatter

/-! ## The base class and its overrides -/

namespace ControlStrategy

/-- The virtual `getPinning`. -/
def getPinning (env : Env D) (cur : Pinning) (s : Strategy D) : Option (Pinning × Strategy D) :=
  match s.kind with
  | .base | .noop => some (cur, s)
  | .compact => (Compact.getPinning env.cpu s.pid s.newTaskTid cur).map fun new => (new, s)
  | .scatter => (Scatter.getPinning env s.pid s.newTaskTid s.pinCount cur).map fun r =>
      (r.1, { s with pinCount := r.2 })

/-- One pass of the loop in `changePinning`. -/
def applySlot (k : Kernel D) (new : Pinning) (f : Frame D) (i : Nat) : Option (Frame D) := do
  let newTask ← new[i]?
  let oldTask ← f.pinning[i]?
  if newTask = oldTask then some f
  else if !oldTask.isCpuFree && oldTask.pid ≠ f.self.pid then
    some { f with
      self.context := f.self.context.report .strategy "wrong_cpu"
        ("ControlStrategy." ++ f.self.kind.name ++
          " tried to overwrite a pinning from another strategy. Bailing out!") }
  else
    let (ret, host) := f.host.setAffinity k newTask.tid i
    if ret ≠ 0 then
      some { f with
        host := host,
        self.context := f.self.context.report .strategy "set_affinity"
          ("Could not pin thread " ++ toString newTask.tid ++ " to cpu " ++ toString i) }
    else some { f with host := host, pinning := f.pinning.set i newTask }

def changePinning (env : Env D) (f : Frame D) : Option (Frame D) := do
  let (new, self) ← getPinning env f.pinning f.self
  (List.range f.pinning.length).foldlM (applySlot env.kernel new) { f with self := self }

/-- `ControlStrategy::slot_TaskCreated`. -/
def baseTaskCreated (env : Env D) (tid : Int) (f : Frame D) : Option (Frame D) :=
  changePinning env { f with self.tasks := f.self.tasks ++ [tid] }

/-- `ControlStrategy::slot_TaskTerminated`: both searches stop at the first match. -/
def baseTaskTerminated (env : Env D) (tid : Int) (f : Frame D) : Option (Frame D) :=
  changePinning env
    { f with
      pinning := f.pinning.replace ⟨f.self.pid, tid⟩ emptyTask,
      self.tasks := f.self.tasks.erase tid }

def getCpuByTask (pinning : Pinning) (t : Task) : Int :=
  match pinning.findIdx? (fun u => t = u) with
  | some cpu => cpu
  | none => -1

/-- Call a monitor function on every monitor in turn. -/
def onMonitors (call : Session (Monitor D) → Option (Session (Monitor D))) :
    List (Monitor D) → AutopinContext → Host → Option (List (Monitor D) × AutopinContext × Host)
  | [], context, host => some ([], context, host)
  | m :: ms, context, host => do
    let s ← call ⟨m, context, host⟩
    let (ms, context, host) ← onMonitors call ms s.context s.host
    some (s.self :: ms, context, host)

def withMonitors (call : Session (Monitor D) → Option (Session (Monitor D))) (f : Frame D) :
    Option (Frame D) :=
  (onMonitors call f.self.monitors f.self.context f.host).map fun r =>
    { f with host := r.2.2, self.monitors := r.1, self.context := r.2.1 }

/-- The virtual `slot_TaskCreated`. -/
def slotTaskCreated (env : Env D) (tid : Int) (f : Frame D) : Option (Frame D) :=
  match f.self.kind with
  | .base => baseTaskCreated env tid (f.record (.created tid))
  | .noop => do
    let f ← baseTaskCreated env tid (f.record (.created tid))
    withMonitors (Monitor.start env.kernel tid) f
  | .compact | .scatter => do
    let f := f.record (.created tid)
    let f ← baseTaskCreated env tid { f with self.newTaskTid := tid }
    some { f with self.newTaskTid := 0 }

/-- The virtual `slot_TaskTerminated`. -/
def slotTaskTerminated (env : Env D) (tid : Int) (f : Frame D) : Option (Frame D) :=
  match f.self.kind with
  | .base | .compact => baseTaskTerminated env tid (f.record (.terminated tid))
  | .noop => do
    let f ← baseTaskTerminated env tid (f.record (.terminated tid))
    withMonitors (fun s => some (Monitor.clear env.kernel tid s)) f
  | .scatter => do
    let f := f.record (.terminated tid)
    let cpu := getCpuByTask f.pinning ⟨f.self.pid, tid⟩
    let node ← env.cpu.getNodeByCpu cpu
    let pinCount ← Scatter.addPinCount f.self.pinCount node (-1)
    baseTaskTerminated env tid { f with self.pinCount := pinCount }

def slotCall (env : Env D) (f : Frame D) : SlotCall → Option (Frame D)
  | .created tid => slotTaskCreated env tid f
  | .terminated tid => slotTaskTerminated env tid f

def refreshTasks (scan : Scan) (f : Frame D) : Frame D :=
  { f with
    self.context := scan.report f.self.context,
    self.tasks := scan.tree.getAllTasks.elems }

/-- The calls the two loops of `slot_timer` make. -/
def timerCalls (ord : SetOrder) (old new : TidSet) : List SlotCall :=
  (ord.order (old.diff new)).map .terminated ++ (ord.order (new.diff old)).map .created

def slotTimer (env : Env D) (scan : Scan) (ord : SetOrder) (f : Frame D) : Option (Frame D) :=
  let oldTasks := SortedSet.ofList f.self.tasks
  let f := refreshTasks scan f
  let newTasks := SortedSet.ofList f.self.tasks
  (timerCalls ord oldTasks newTasks).foldlM (slotCall env) f

end ControlStrategy

end AutopinPlus
