import AutopinPlus.Autopin1Stage
import AutopinPlus.ObservedProcess
import AutopinPlus.PinningTable

/-!
# Whom the strategies pin

`sched_setaffinity` takes tid 0 for the calling thread, and `ProcessTree::empty` is a
tree with the task 0. `getProcessTree` returns it in the error state, so autopin1
pins itself when it goes on after an error. It pins only other threads in the runs in
which every new task list comes from a tree that could be read. The strategies on the
shared table never use tid 0, whatever a scan returns.
-/
namespace AutopinPlus

/-! ## What a scan reports -/

namespace ProcFs

/-- The observed process and what `/proc` lists below it. -/
inductive Seen (p : ProcFs) (root : Int) : Int → Prop
  | root : Seen p root root
  | child {n : Nat} {q b : Int} {pids : TidSet} {all : Bool} (hq : Seen p root q)
      (h : p.children n q = some (pids, all)) (hb : b ∈ pids) : Seen p root b

/-- A tid that `/proc` listed as a thread of a seen process, or as a process below one. -/
inductive Reported (p : ProcFs) (root tid : Int) : Prop
  | thread {n : Nat} {q : Int} {tids : TidSet} (hq : Seen p root q) (h : p.threads n q = some tids)
      (htid : tid ∈ tids)
  | child {n : Nat} {q : Int} {pids : TidSet} {all : Bool} (hq : Seen p root q)
      (h : p.children n q = some (pids, all)) (htid : tid ∈ pids)

/-- The observed process lists itself, and `/proc` can be entered for every seen process. -/
structure Readable (p : ProcFs) (root : Int) : Prop where
  own : ∃ tids, p.threads 0 root = some tids ∧ root ∈ tids
  enter : ∀ n q, Seen p root q → (p.children n q).isSome

/-- `/proc` has no entry 0. -/
structure Positive (p : ProcFs) : Prop where
  threads : ∀ n q tids, p.threads n q = some tids → 0 ∉ tids
  children : ∀ n q pids all, p.children n q = some (pids, all) → 0 ∉ pids

theorem Reported.ne_zero {p : ProcFs} {root tid : Int} (h : p.Reported root tid) (hp : p.Positive) :
    tid ≠ 0 := by
  rintro rfl
  cases h with
  | thread hq h htid => exact hp.threads _ _ _ h htid
  | child hq h htid => exact hp.children _ _ _ _ h htid

end ProcFs

theorem getProcessThreads_reported {p : ProcFs} {root q : Int} (hq : p.Seen root q) (n : Nat)
    (c : AutopinContext) :
    (getProcessThreads p n q c).2.isError = c.isError ∧
      ∀ x ∈ (getProcessThreads p n q c).1, p.Reported root x := by
  unfold getProcessThreads
  split
  · rename_i tids h
    exact ⟨rfl, fun x hx => .thread hq h hx⟩
  · refine ⟨by simp [setsError], fun x hx => ?_⟩
    simp at hx

theorem getChildProcesses_reported {p : ProcFs} {root q : Int} (hp : p.Readable root)
    (hq : p.Seen root q) (n : Nat) (c : AutopinContext) :
    (getChildProcesses p n q c).2.isError = c.isError ∧
      ∀ x ∈ (getChildProcesses p n q c).1, p.Seen root x ∧ p.Reported root x := by
  unfold getChildProcesses
  split
  · rename_i pids h
    exact ⟨rfl, fun x hx => ⟨.child hq h hx, .child hq h hx⟩⟩
  · rename_i pids h
    exact ⟨by simp [setsError], fun x hx => ⟨.child hq h hx, .child hq h hx⟩⟩
  · rename_i h
    have := hp.enter n q hq
    simp [h] at this

namespace ObservedProcess

/-- Neither of the two reports a readable `/proc` can lead to is fatal, so the loop goes on and
adds only what was reported. -/
theorem grow_reported {p : ProcFs} {root : Int} (hp : p.Readable root) {fuel n : Nat}
    {tree tree' : ProcessTree} {worklist : List (Int × Int)} {c c' : AutopinContext}
    (hc : c.isError = false) (htree : ∀ x ∈ tree.getAllTasks, p.Reported root x)
    (hwork : ∀ w ∈ worklist, p.Seen root w.2 ∧ p.Reported root w.2)
    (h : grow p fuel n tree worklist c = some (tree', c')) : ∀ x ∈ tree'.getAllTasks, p.Reported root x := by
  induction fuel generalizing n tree worklist c with
  | zero =>
    cases worklist with
    | nil =>
      cases h
      exact htree
    | cons w worklist => cases h
  | succ fuel ih =>
    cases worklist with
    | nil =>
      cases h
      exact htree
    | cons w worklist =>
      obtain ⟨hseen, hrep⟩ := hwork w (by simp)
      obtain ⟨herr, hthreads⟩ := getProcessThreads_reported hseen n c
      obtain ⟨herr', hchildren⟩ := getChildProcesses_reported hp hseen (n + 1) (getProcessThreads p n w.2 c).2
      rw [hc] at herr
      rw [herr] at herr'
      simp only [grow, herr, herr', Bool.false_eq_true, if_false] at h
      refine ih herr' ?_ ?_ h
      · intro x hx
        rcases ProcessTree.mem_getAllTasks_addProcessTaskList _ _ _ _ hx with hx | hx
        · rcases ProcessTree.mem_getAllTasks_addChildProcess _ _ _ _ hx with hx | rfl
          · exact htree x hx
          · exact hrep
        · exact hthreads x hx
      · intro v hv
        rcases List.mem_append.mp hv with hv | hv
        · exact hwork v (List.mem_cons_of_mem w hv)
        · obtain ⟨x, hx, rfl⟩ := List.mem_map.mp hv
          exact hchildren x hx

/-- The process runs, no error has been reported, and its tree can be read. -/
structure Clean (o : ObservedProcess) (p : ProcFs) (c : AutopinContext) : Prop where
  running : o.running = true
  noError : c.isError = false
  readable : p.Readable o.pid

theorem getProcessTree_reported {o : ObservedProcess} {p : ProcFs} {fuel : Nat} {c c' : AutopinContext}
    {tree : ProcessTree} (hclean : o.Clean p c) (h : o.getProcessTree p fuel c = some (tree, c')) :
    ∀ x ∈ tree.getAllTasks, p.Reported o.pid x := by
  obtain ⟨hrun, hc, hp⟩ := hclean
  obtain ⟨herr, hthreads⟩ := getProcessThreads_reported (@ProcFs.Seen.root p o.pid) 0 c
  obtain ⟨herr', hchildren⟩ := getChildProcesses_reported hp .root 1 (getProcessThreads p 0 o.pid c).2
  rw [hc] at herr
  rw [herr] at herr'
  simp only [getProcessTree, hrun, herr, herr', Bool.not_true, Bool.false_eq_true, if_false] at h
  refine grow_reported hp herr' ?_ ?_ h
  · intro x hx
    rcases ProcessTree.mem_getAllTasks_addProcessTaskList _ _ _ _ hx with hx | hx
    · obtain ⟨tids, htids, hown⟩ := hp.own
      have hx : x = o.pid := by simpa [ProcessTree.ofPid, ProcessTree.mem_getAllTasks_node] using hx
      exact .thread .root htids (hx ▸ hown)
    · exact hthreads x hx
  · intro w hw
    obtain ⟨x, hx, rfl⟩ := List.mem_map.mp hw
    exact hchildren x hx

/-- The scan is what `getProcessTree` makes of these answers of `/proc`. -/
def Scans (o : ObservedProcess) (p : ProcFs) (scan : Scan) (c : AutopinContext) : Prop :=
  ∃ fuel, o.getProcessTree p fuel c = some (scan.tree, scan.report c)

theorem Scans.reported {o : ObservedProcess} {p : ProcFs} {scan : Scan} {c : AutopinContext}
    (h : o.Scans p scan c) (hclean : o.Clean p c) : ∀ x ∈ scan.tree.getAllTasks, p.Reported o.pid x := by
  obtain ⟨fuel, h⟩ := h
  exact getProcessTree_reported hclean h

end ObservedProcess

/-! ## autopin1 -/

/-- No call of the monitor pins a task. -/
structure PerformanceMonitor.Pinless {M D : Type} (monitor : PerformanceMonitor M D) : Prop where
  start : ∀ tid s, (monitor.start tid s).host.affinity = s.host.affinity
  stop : ∀ tid s, (monitor.stop tid s).2.host.affinity = s.host.affinity
  clear : ∀ tid s, (monitor.clear tid s).host.affinity = s.host.affinity

theorem Random.monitor_pinless {D : Type} [Zero D] (k : Kernel D) : (Random.monitor k).Pinless where
  start tid s := (Random.start_quiet k tid s).affinity
  stop tid s := by
    have hv : (Random.value tid s).2.host.affinity = s.host.affinity := by
      unfold Random.value
      split <;> rfl
    simp only [Random.monitor, Random.stop]
    split
    · exact hv
    · exact hv
  clear tid s := (Random.clear_quiet tid s).affinity

theorem GPerf.readAll_affinity {D : Type} [Add D] [Mul D] [NatCast D] (k : Kernel D) (scale : D)
    (fds : List Int) (result : D) (h : Host) : (readAll k scale fds result h).2.affinity = h.affinity := by
  induction fds generalizing result h with
  | nil => rfl
  | cons fd rest ih =>
    have ha := Host.read_affinity k fd h
    rw [readAll]
    split
    · rename_i hr
      rwa [hr] at ha
    · rename_i hr
      rw [hr] at ha
      exact (ih _ _).trans ha

theorem GPerf.value_affinity {D : Type} [Zero D] [Add D] [Mul D] [NatCast D] (k : Kernel D) (tid : Int)
    (s : Session (GPerf D)) : (value k tid s).2.host.affinity = s.host.affinity := by
  unfold value
  split
  · have ha := readAll_affinity k s.self.sensorScale (s.self.fds tid) 0 s.host
    split
    · rename_i hr
      rwa [hr] at ha
    · rename_i hr
      rwa [hr] at ha
  · rfl

theorem GPerf.monitor_pinless {D : Type} [Zero D] [Add D] [Mul D] [NatCast D] (k : Kernel D) :
    (GPerf.monitor k).Pinless where
  start tid s := (start_quiet k tid s).affinity
  stop tid s := by
    have hv := value_affinity k tid s
    have hc := (clear_quiet k tid (value k tid s).2).affinity.trans hv
    simp only [monitor, stop]
    split
    · exact hv
    · split
      · exact hc
      · exact hc
  clear tid s := (clear_quiet k tid s).affinity

theorem ClustSafe.touch_affinity (address : Nat) (h : Host) : (touch address h).2.affinity = h.affinity := by
  unfold touch
  split <;> rfl

theorem ClustSafe.stop_affinity {D : Type} [Zero D] [NatCast D] {k : Kernel D} {tid : Int} {s : Session ClustSafe}
    {r : D × Session ClustSafe} (h : stop k tid s = some r) : r.2.host.affinity = s.host.affinity := by
  obtain ⟨⟨result, host⟩, hr, rfl⟩ := Option.map_eq_some_iff.mp h
  have hread : host.affinity = s.host.affinity := readValueFromDevice_affinity hr
  cases result with
  | error what => exact hread
  | ok _ =>
    have htouch := (touch_affinity s.self.address host).trans hread
    simp only
    split
    · exact htouch
    · exact htouch

theorem ClustSafe.monitor_pinless {D : Type} [Zero D] [NatCast D] (k : Kernel D) :
    (ClustSafe.monitor k : PerformanceMonitor ClustSafe D).Pinless where
  start tid s := by
    cases h : start k tid s with
    | none => simp only [monitor, h, Option.getD_none]
    | some s' => simpa only [monitor, h, Option.getD_some] using (start_quiet h).affinity
  stop tid s := by
    cases h : (stop k tid s : Option (D × Session ClustSafe)) with
    | none => simp only [monitor, h, Option.getD_none]
    | some r => simpa only [monitor, h, Option.getD_some] using stop_affinity h
  clear tid s := (clear_quiet tid s).affinity

theorem PageMigrate.monitor_pinless {D : Type} [Zero D] [Div D] [IntCast D]
    (initSpm : SamplingSettings → SamplingSettings) :
    (PageMigrate.monitor initSpm : PerformanceMonitor (PageMigrate D) D).Pinless where
  start tid s := by
    simp only [monitor, start]
    split <;> rfl
  stop tid s := rfl
  clear tid s := by
    simp only [monitor, clear]
    split <;> rfl

namespace Autopin1

open PartialStep

variable {M D : Type} {u : Setup M D}

theorem startTasks_affinity (hu : u.monitor.Pinless) (ts : List (PinnedTask D)) (p : Probe M) :
    (startTasks u ts p).2.session.host.affinity = p.session.host.affinity := by
  induction ts generalizing p with
  | nil => rfl
  | cons t ts ih => exact (ih _).trans (hu.start t.tid p.session)

theorem removeTerminated_affinity (hu : u.monitor.Pinless) (running : TidSet) (ts : List (PinnedTask D))
    (p : Probe M) : (removeTerminated u running ts p).2.session.host.affinity = p.session.host.affinity := by
  induction ts generalizing p with
  | nil => rfl
  | cons t ts ih =>
    rw [removeTerminated]
    split
    · exact ih p
    · exact (ih _).trans (hu.clear t.tid p.session)

theorem checkPinned_affinity (hu : u.monitor.Pinless) (sc : Scanner) (ts : List (PinnedTask D))
    (p : Probe M) : (checkPinned u sc ts p).2.session.host.affinity = p.session.host.affinity := by
  have hremove := removeTerminated_affinity hu (scan sc p).1 ts (scan sc p).2
  simp only [checkPinned]
  split
  · rfl
  · split
    · exact hremove
    · exact hremove

theorem readTask_affinity [Div D] [IntCast D] (hu : u.monitor.Pinless) {t : PinnedTask D} {p : Probe M}
    {r : D × PinnedTask D × Probe M} (h : readTask u t p = some r) :
    r.2.2.session.host.affinity = p.session.host.affinity := by
  obtain ⟨stop, -, h⟩ := Option.bind_eq_some_iff.mp h
  split at h
  · obtain ⟨start, -, h⟩ := Option.bind_eq_some_iff.mp h
    cases h
    exact hu.stop t.tid (p.elapsed u).2.session
  · obtain ⟨tres, -, h⟩ := Option.bind_eq_some_iff.mp h
    obtain ⟨start, -, h⟩ := Option.bind_eq_some_iff.mp h
    cases h
    rfl

theorem readTasks_affinity [Add D] [Div D] [IntCast D] (hu : u.monitor.Pinless)
    {ts : List (PinnedTask D)} {sum : D} {p : Probe M} {r : D × List (PinnedTask D) × Probe M}
    (h : readTasks u ts sum p = some r) : r.2.2.session.host.affinity = p.session.host.affinity := by
  induction ts generalizing sum p r with
  | nil =>
    cases h
    rfl
  | cons t ts ih =>
    obtain ⟨r₁, hread, h⟩ := Option.bind_eq_some_iff.mp h
    obtain ⟨r₂, hrest, h⟩ := Option.bind_eq_some_iff.mp h
    cases h
    exact (ih hrest).trans (readTask_affinity hu hread)

variable [Zero D] [Add D] [Div D] [IntCast D]

/-- The scan behind a new task list, with the context it is made in. -/
def refreshed (u : Setup M D) (s : State M D) : Event → Option (Scanner × AutopinContext)
  | .initTimeout refresh => if s.initTimer then some (refresh, s.probe.session.context) else none
  | .restart refresh => if 0 < s.restarts then some (refresh, s.probe.session.context) else none
  | .measureTimeout check refresh =>
    if s.measureTimer ∧ ¬ s.currentPinning + 1 < u.pinnings.length then
      -- reading the results may have led to the error state
      (readTasks u (checkPinned u check s.pinnedTasks s.probe).1 0
        (checkPinned u check s.pinnedTasks s.probe).2).map fun r => (refresh, r.2.2.session.context)
    else none
  | _ => none

/-- What a step pins, and the task list it leaves after a refresh. -/
structure Pins (u : Setup M D) (s : State M D) (e : Event) (t : State M D) : Prop where
  affinity : ∀ call ∈ t.probe.session.host.affinity, call ∈ s.probe.session.host.affinity ∨
    e = .taskCreated call.tid ∨
    ∃ sc c, refreshed u s e = some (sc, c) ∧ call.tid ∈ (sc c).tree.getAllTasks
  tasks : ∀ sc c, refreshed u s e = some (sc, c) → t.tasks = (sc c).tree.getAllTasks.elems

theorem Pins.of_affinity {s t : State M D} {e : Event} (hr : refreshed u s e = none)
    (ha : t.probe.session.host.affinity = s.probe.session.host.affinity) : Pins u s e t :=
  ⟨fun _ hc => .inl (ha ▸ hc), fun sc c h => by simp [hr] at h⟩

theorem slotStartPinning_pins {e : Event} {sc : Scanner} {s s' t : State M D}
    (h : slotStartPinning u sc s' = some t) (hs : Searching u s' False) (hprobe : s'.probe = s.probe)
    (hr : refreshed u s e = some (sc, s.probe.session.context)) : Pins u s e t := by
  obtain ⟨pinning, hp⟩ := hs.pinning id
  obtain ⟨host, tids, hslot, -, haff⟩ := slotStartPinning_spec u sc hp
  obtain rfl := Option.some.inj (hslot.symm.trans h)
  rw [hprobe] at haff
  refine ⟨fun call hc => ?_, ?_⟩
  · rcases haff call hc with hold | hnew
    · exact .inl hold
    · exact .inr (.inr ⟨sc, _, hr, hnew⟩)
  · intro sc' c' h'
    obtain ⟨rfl, rfl⟩ := Prod.mk.inj (Option.some.inj (hr.symm.trans h'))
    rw [hprobe]
    rfl

/-- Every new task list is of a tree that could be read, and a signalled tid is not 0. -/
def Attached (o : ObservedProcess) (u : Setup M D) (s : State M D) (e : Event) : Prop :=
  (∀ sc c, refreshed u s e = some (sc, c) → ∃ p : ProcFs, p.Positive ∧ o.Scans p (sc c) c ∧ o.Clean p c) ∧
    ∀ tid, e = .taskCreated tid → tid ≠ 0

theorem Pins.others {o : ObservedProcess} {s t : State M D} {e : Event} (h : Pins u s e t)
    (he : Attached o u s e) {call : AffinityCall} (hc : call ∈ t.probe.session.host.affinity) :
    call ∈ s.probe.session.host.affinity ∨ call.tid ≠ 0 := by
  rcases h.affinity call hc with hold | hcreated | ⟨sc, c, hr, hmem⟩
  · exact .inl hold
  · exact .inr (he.2 _ hcreated)
  · obtain ⟨p, hpos, hscan, hclean⟩ := he.1 sc c hr
    exact .inr ((hscan.reported hclean _ hmem).ne_zero hpos)

/-- The end of `slot_stopPinning` refreshes the tasks only after the last pinning. -/
theorem nextPinning_pins {check refresh : Scanner} {s t : State M D} {sum current performance : D}
    {ts : List (PinnedTask D)} {probe : Probe M} {best : Int} (ht : s.measureTimer = true)
    (hread : readTasks u (checkPinned u check s.pinnedTasks s.probe).1 0
      (checkPinned u check s.pinnedTasks s.probe).2 = some (sum, ts, probe))
    (haff : probe.session.host.affinity = s.probe.session.host.affinity)
    (h : nextPinning u refresh (measuredState { s with measureTimer := false } probe current best
      performance) = some t) : Pins u s (.measureTimeout check refresh) t := by
  rw [nextPinning] at h
  split at h
  · rename_i hlt
    cases h
    exact .of_affinity (if_neg (fun hc => hc.2 hlt)) haff
  · rename_i hge
    obtain ⟨pinning, -, h⟩ := Option.bind_eq_some_iff.mp h
    obtain ⟨host, tids, happly, -, hpins⟩ := applyPinning_spec u pinning
      (refreshTasks refresh (measuredState { s with measureTimer := false } probe current best performance))
    obtain rfl := Option.some.inj (happly.symm.trans h)
    have hr : refreshed u s (.measureTimeout check refresh) = some (refresh, probe.session.context) := by
      simp only [refreshed, hread]
      exact if_pos ⟨ht, hge⟩
    refine ⟨fun call hc => ?_, ?_⟩
    · rcases hpins call hc with hold | hnew
      · exact .inl (haff ▸ hold)
      · exact .inr (.inr ⟨refresh, _, hr, hnew⟩)
    · intro sc' c' h'
      obtain ⟨rfl, rfl⟩ := Prod.mk.inj (Option.some.inj (hr.symm.trans h'))
      rfl

theorem Admits.pins (hu : u.monitor.Pinless) {tid : Int} {s : State M D} {probe : Probe M}
    {ts : List (PinnedTask D)} {tasks : List Int} (hadm : Admits u tid s probe ts) :
    Pins u s (.taskCreated tid) { s with probe := probe, pinnedTasks := ts, tasks := tasks } := by
  refine ⟨fun call hc => ?_, fun sc c h => by cases h⟩
  rcases hadm with ⟨rfl, -⟩ | ⟨-, -, cpu, hcase⟩
  · exact .inl hc
  · have hc' : call ∈ (s.probe.setAffinity u tid cpu).session.host.affinity := by
      rcases hcase with ⟨-, rfl, -⟩ | ⟨-, rfl, -⟩
      · exact (hu.start tid (s.probe.setAffinity u tid cpu).session) ▸ hc
      · exact hc
    rcases List.mem_cons.mp hc' with rfl | hc'
    · exact .inr (.inl rfl)
    · exact .inl hc'

variable [LT D] [DecidableLT D]

theorem Effect.pins (hu : u.monitor.Pinless) {s t : State M D} {e : Event} (he : Effect u s e t) :
    Pins u s e t := by
  cases he with
  | ignored h =>
    refine .of_affinity ?_ rfl
    cases e with
    | initTimeout sc => simp [refreshed, h.1 sc rfl]
    | restart sc => simp [refreshed, h.2.1 sc rfl]
    | measureTimeout check sc => simp [refreshed, h.2.2 check sc rfl]
    | warmupTimeout _ | taskCreated _ | taskTerminated _ | phaseChanged => rfl
  | startPinning hfire hq hs h =>
    rcases hfire with ⟨rfl, ht, rfl⟩ | ⟨rfl, hr, rfl⟩
    · exact slotStartPinning_pins h hs rfl (if_pos ht)
    · exact slotStartPinning_pins h hs rfl (if_pos hr)
  | startMonitor =>
    exact .of_affinity rfl ((startTasks_affinity hu _ _).trans (checkPinned_affinity hu _ _ _))
  | stopPinning ht hq hs hread hch h =>
    have haff := (readTasks_affinity hu hread).trans (checkPinned_affinity hu _ _ _)
    exact nextPinning_pins ht hread haff h
  | created hadm => exact hadm.pins hu
  | @terminated tid =>
    rcases slotTaskTerminated_cases u tid s with he | ⟨-, -, ⟨-, he⟩ | ⟨-, he⟩⟩
    · rw [he]
      exact .of_affinity rfl rfl
    · rw [he]
      exact .of_affinity rfl (hu.stop tid s.probe.session)
    · rw [he]
      exact .of_affinity rfl (hu.stop tid s.probe.session)
  | phaseChanged =>
    unfold slotPhaseChanged
    split
    · exact .of_affinity rfl rfl
    · exact .of_affinity rfl rfl

variable [NatCast D]

/-- autopin1 pins only other threads. -/
theorem run_others {o : ObservedProcess} {session : Session M} {es : List Event}
    (hu : u.monitor.Pinless) (hne : u.pinnings ≠ []) (hty : u.monitorType ≠ .unknown)
    (hes : Admitted (step u) (Attached o u) (ready session) es) :
    ∃ (s : State M D) (stage : Stage), run (step u) (ready session) es = some s ∧ InStage u stage s ∧
      ∀ call ∈ s.probe.session.host.affinity, call ∈ session.host.affinity ∨ call.tid ≠ 0 := by
  refine run_effect (fun s => ∀ call ∈ s.probe.session.host.affinity,
    call ∈ session.host.affinity ∨ call.tid ≠ 0) hty ?_ (ready_inStage session hne)
    (fun _ hc => .inl hc) hes
  intro stage s e t h he hatt hs call hc
  rcases (he.pins hu).others hatt hc with hold | hnew
  · exact hs call hold
  · exact .inr hnew

end Autopin1

/-! ## The strategies on the shared table -/

namespace ControlStrategy

variable {D : Type} {env : Env D} {f g : Frame D}

theorem slotCall_others {call : SlotCall} (h0 : f.self.newTaskTid = 0) (h : slotCall env f call = some g) :
    ∀ c ∈ g.host.affinity, c ∈ f.host.affinity ∨ c.tid ≠ 0 := by
  intro c hc
  cases call with
  | created tid =>
    rcases (slotTaskCreated_created h0 h).table with ⟨-, ha⟩ | ⟨j, ret, -, htid, ha, -⟩
    · exact .inl (ha ▸ hc)
    · rw [ha] at hc
      rcases List.mem_cons.mp hc with rfl | hc
      · exact .inr htid
      · exact .inl hc
  | terminated tid => exact .inl ((slotTaskTerminated_terminated h0 h).affinity ▸ hc)

theorem slotCalls_others {calls : List SlotCall} (h0 : f.self.newTaskTid = 0)
    (h : calls.foldlM (slotCall env) f = some g) :
    ∀ c ∈ g.host.affinity, c ∈ f.host.affinity ∨ c.tid ≠ 0 := by
  refine (PartialStep.foldlM_invariant (fun g => Confined f g ∧
    ∀ c ∈ g.host.affinity, c ∈ f.host.affinity ∨ c.tid ≠ 0) calls ?_ ⟨.refl f, fun _ hc => .inl hc⟩ h).2
  rintro f' call g' - ⟨hconf, hf'⟩ hcall
  have h0' := hconf.kept.newTaskTid.trans h0
  refine ⟨hconf.trans (slotCall_confined h0' hcall), fun c hc => ?_⟩
  rcases slotCall_others h0' hcall c hc with hold | hnew
  · exact hf' c hold
  · exact .inr hnew

theorem act_others {e : Event} (h0 : f.self.newTaskTid = 0) (h : e.act env f = some g) :
    ∀ c ∈ g.host.affinity, c ∈ f.host.affinity ∨ c.tid ≠ 0 := by
  cases e with
  | slot k call => exact slotCall_others h0 h
  | timer k scan ord => exact slotCalls_others (f := refreshTasks scan f) h0 h

end ControlStrategy

open PartialStep

theorem System.run_others {D : Type} {env : Env D} {s₀ s : System D} {es : List Event} (h₀ : s₀.Ready)
    (h : run (System.step env) s₀ es = some s) :
    ∀ c ∈ s.host.affinity, c ∈ s₀.host.affinity ∨ c.tid ≠ 0 := by
  refine (run_invariant (fun s => s.Ready ∧ ∀ c ∈ s.host.affinity, c ∈ s₀.host.affinity ∨ c.tid ≠ 0)
    ?_ ⟨h₀, fun _ hc => .inl hc⟩ (admitted_true _ _ es) h).2
  rintro s e t ⟨hs, hall⟩ - hstep
  refine ⟨System.step_ready hs hstep, fun c hc => ?_⟩
  obtain ⟨self, f, hself, hf, rfl, -⟩ := System.step_confined hs hstep
  rcases ControlStrategy.act_others (hs.idle self (List.mem_of_getElem? hself)) hf c hc with hold | hnew
  · exact hall c hold
  · exact .inr hnew

/-! ## Both -/

/-- No run pins the thread of autopin+ itself, and a refreshed task list has only tids that `/proc`
reported: for autopin1 as long as every new task list is of a tree that could be read, and for
the other strategies whatever their scans return, the task list again if the tree could be
read. -/
theorem run_pins_others {D : Type} [Zero D] [Add D] [Div D] [IntCast D] [NatCast D] [LT D]
    [DecidableLT D] :
    (∀ (M : Type) (o : ObservedProcess) (u : Autopin1.Setup M D) (session : Session M)
        (es : List Autopin1.Event), u.monitor.Pinless → u.pinnings ≠ [] → u.monitorType ≠ .unknown →
      Admitted (Autopin1.step u) (Autopin1.Attached o u) (Autopin1.ready session) es →
      ∃ s, run (Autopin1.step u) (Autopin1.ready session) es = some s ∧
        (∀ call ∈ s.probe.session.host.affinity, call ∈ session.host.affinity ∨ call.tid ≠ 0) ∧
        ∀ e t sc c p, Autopin1.step u s e = some t → Autopin1.refreshed u s e = some (sc, c) →
          o.Scans p (sc c) c → o.Clean p c → ∀ tid ∈ t.tasks, p.Reported o.pid tid) ∧
    (∀ (env : Env D) (s₀ s : System D) (es : List Event), s₀.Ready →
      run (System.step env) s₀ es = some s →
      (∀ call ∈ s.host.affinity, call ∈ s₀.host.affinity ∨ call.tid ≠ 0) ∧
        ∀ self ∈ s.strategies, ∀ (o : ObservedProcess) (p : ProcFs) (scan : Scan), o.pid = self.pid →
          o.Scans p scan self.context → o.Clean p self.context →
          ∀ tid ∈ (ControlStrategy.refreshTasks scan (s.frame self)).self.tasks,
            p.Reported self.pid tid) := by
  constructor
  · intro M o u session es hu hne hty hes
    obtain ⟨s, stage, h, hst, hothers⟩ := Autopin1.run_others hu hne hty hes
    refine ⟨s, h, hothers, ?_⟩
    intro e t sc c p hstep hr hscan hclean tid htid
    obtain ⟨t', ht', he⟩ := Autopin1.step_effect hty hst e
    obtain rfl := Option.some.inj (ht'.symm.trans hstep)
    rw [(he.pins hu).tasks sc c hr] at htid
    exact hscan.reported hclean tid htid
  · intro env s₀ s es h₀ h
    refine ⟨System.run_others h₀ h, ?_⟩
    intro self _ o p scan hpid hscan hclean tid htid
    exact hpid ▸ hscan.reported hclean tid htid

/-- Process 10 with its one thread, and no other process. -/
def oneProcess : ProcFs where
  threads _ q := if q = 10 then some (.singleton 10) else none
  children _ _ := some (.empty, true)

theorem oneProcess_clean : (⟨10, true⟩ : ObservedProcess).Clean oneProcess {} :=
  ⟨rfl, rfl, ⟨.singleton 10, rfl, by simp⟩, fun _ _ _ => rfl⟩

theorem oneProcess_positive : oneProcess.Positive := by
  refine ⟨?_, ?_⟩
  · intro n q tids h
    simp only [oneProcess] at h
    split at h
    · obtain rfl := Option.some.inj h
      simp
    · cases h
  · intro n q pids all h
    cases h
    simp

/-- autopin1 on the readable tree, and two other strategies one of which gets the empty tree. -/
theorem oneProcess_pins_others :
    (∃ s, run (Autopin1.step Autopin1.twoPinnings) (Autopin1.ready ⟨{}, {}, {}⟩)
        [.initTimeout Autopin1.oneTask, .taskCreated 11] = some s ∧
      ∀ call ∈ s.probe.session.host.affinity, call ∈ ({} : Host).affinity ∨ call.tid ≠ 0) ∧
    ∃ s, run (System.step .twoNodes) System.twoProcesses [.timer 0 ⟨.empty, []⟩ .ascending] = some s ∧
      ∀ call ∈ s.host.affinity, call ∈ System.twoProcesses.host.affinity ∨ call.tid ≠ 0 := by
  obtain ⟨hauto, htable⟩ := run_pins_others (D := Int)
  constructor
  · have hes : Admitted (Autopin1.step Autopin1.twoPinnings)
        (Autopin1.Attached ⟨10, true⟩ Autopin1.twoPinnings) (Autopin1.ready ⟨{}, {}, {}⟩)
        [.initTimeout Autopin1.oneTask, .taskCreated 11] := by
      refine ⟨⟨?_, fun _ h => by cases h⟩, fun _ _ => ⟨⟨fun _ _ h => (by cases h), ?_⟩, fun _ _ => trivial⟩⟩
      · intro sc c h
        obtain ⟨rfl, rfl⟩ := Prod.mk.inj (Option.some.inj h)
        exact ⟨oneProcess, oneProcess_positive, ⟨0, rfl⟩, oneProcess_clean⟩
      · rintro tid ⟨⟩
        decide
    obtain ⟨s, hs, hcalls, -⟩ := hauto _ ⟨10, true⟩ Autopin1.twoPinnings ⟨{}, {}, {}⟩ _
      (Random.monitor_pinless _) (by decide) (by decide) hes
    exact ⟨s, hs, hcalls⟩
  · obtain ⟨s, hs⟩ : ∃ s, run (System.step .twoNodes) System.twoProcesses
        [.timer 0 ⟨.empty, []⟩ .ascending] = some s := Option.isSome_iff_exists.mp (by decide)
    exact ⟨s, hs, (htable _ _ _ _ System.twoProcesses_initial.toReady hs).1⟩

/-- `/proc` cannot be entered. -/
def noProc : ProcFs where
  threads _ q := if q = 10 then some (.singleton 10) else none
  children _ _ := none

/-- What `getProcessTree` then returns. -/
def noProcScan : Autopin1.Scanner := fun c =>
  ⟨.empty, if c.isError then [] else [("access_proc", "Could not access the proc filesystem")]⟩

theorem noProc_scans (c : AutopinContext) :
    (⟨10, true⟩ : ObservedProcess).Scans noProc (noProcScan c) c := by
  refine ⟨0, ?_⟩
  simp only [ObservedProcess.getProcessTree, getProcessThreads, getChildProcesses, noProc, noProcScan,
    Bool.not_true, Bool.false_eq_true, if_false, if_true]
  cases c.isError <;> simp [Scan.report, setsError]

/-- autopin1 pins its own thread after the fatal report, and has the tid 0 in its tasks, which
`/proc` did not report. -/
theorem noProc_pins_itself :
    ∃ s, run (Autopin1.step Autopin1.twoPinnings) (Autopin1.ready ⟨{}, {}, {}⟩)
        [.initTimeout noProcScan] = some s ∧
      (∃ call ∈ s.probe.session.host.affinity, call.tid = 0) ∧ 0 ∈ s.tasks ∧
      (∀ c, (⟨10, true⟩ : ObservedProcess).Scans noProc (noProcScan c) c) ∧ ¬ noProc.Reported 10 0 := by
  refine ⟨_, rfl, ⟨⟨0, 0, 0⟩, by decide, rfl⟩, by decide, noProc_scans, ?_⟩
  intro h
  cases h with
  | @thread n q tids hq h htid =>
    simp only [noProc] at h
    split at h
    · obtain rfl := Option.some.inj h
      simp at htid
    · cases h
  | child hq h htid => cases h

end AutopinPlus
