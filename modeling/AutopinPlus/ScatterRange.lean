import AutopinPlus.PinningTable

/-!
# The indexes a strategy uses

On a machine whose nodes are dense, proposing a table never leaves `mapping`,
`distances` or `pinCount`. Scatter also looks up the node of a task that has ended:
`getCpuByTask` answers -1 for a task that stands in no slot, so that lookup is
defined exactly for pinned tasks.
-/
namespace AutopinPlus

open PartialStep SlotTable ControlStrategy

variable {D : Type}

/-! ## Proposals are always defined -/

namespace Compact

theorem compare_isSome {c : CpuInfo} {cur : Pinning} (hd : c.Dense cur.length) (pid : Int)
    {i j : Nat} (hi : i < cur.length) (hj : j < cur.length) (acc : Nat × Int) :
    ∃ acc', compare c pid cur i acc j = some acc' := by
  obtain ⟨d, hd⟩ := hd.getCpuDistance hi hj
  simp only [compare, List.getElem?_eq_getElem hj, hd, Option.bind_eq_bind, Option.bind_some]
  split
  · split <;> exact ⟨_, rfl⟩
  · exact ⟨_, rfl⟩

theorem consider_isSome {c : CpuInfo} {cur : Pinning} (hd : c.Dense cur.length) (pid : Int)
    {i : Nat} (hi : i < cur.length) (acc : Nat × Int) :
    ∃ acc', consider c pid cur acc i = some acc' := by
  simp only [consider, List.getElem?_eq_getElem hi, Option.bind_eq_bind, Option.bind_some]
  split
  · obtain ⟨acc', hacc', -⟩ := foldlM_isSome (f := compare c pid cur i) (fun _ => True)
      (List.range cur.length)
      (fun acc j hj _ =>
        (compare_isSome hd pid hi (List.mem_range.mp hj) acc).imp (fun _ h => ⟨h, trivial⟩))
      (s := if acc.2 = -1 then (acc.1, (i : Int)) else acc) trivial
    exact ⟨acc', hacc'⟩
  · exact ⟨_, rfl⟩

theorem getPinning_isSome {c : CpuInfo} {cur : Pinning} (hd : c.Dense cur.length) (pid tid : Int) :
    ∃ new, getPinning c pid tid cur = some new := by
  unfold getPinning
  split
  · exact ⟨_, rfl⟩
  · obtain ⟨acc, hacc, -⟩ := foldlM_isSome (f := consider c pid cur) (fun _ => True)
      (List.range cur.length)
      (fun acc i hi _ =>
        (consider_isSome hd pid (List.mem_range.mp hi) acc).imp (fun _ h => ⟨h, trivial⟩))
      (s := (cur.length, -1)) trivial
    rw [hacc, Option.bind_eq_bind, Option.bind_some]
    split <;> exact ⟨_, rfl⟩

end Compact

namespace Scatter

theorem findFree_isSome {cur : Pinning} {cpus : List Nat} (h : ∀ cpu ∈ cpus, cpu < cur.length) :
    ∃ found, findFree cur cpus = some found := by
  induction cpus with
  | nil => exact ⟨none, rfl⟩
  | cons cpu rest ih =>
    simp only [findFree, List.getElem?_eq_getElem (h cpu (by simp)), Option.bind_eq_bind,
      Option.bind_some]
    split
    · exact ⟨_, rfl⟩
    · exact ih (fun x hx => h x (List.mem_cons_of_mem cpu hx))

theorem search_isSome {c : CpuInfo} {cur : Pinning} (hcpus : c.mapping.length = cur.length) (nodes : List Nat) :
    ∃ found, search c cur nodes = some found := by
  induction nodes with
  | nil => exact ⟨none, rfl⟩
  | cons node rest ih =>
    have hlt : ∀ cpu ∈ c.getCpusByNode node, cpu < cur.length := by
      intro cpu hcpu
      rw [← hcpus]
      exact (List.getElem?_eq_some_iff.mp ((c.mem_getCpusByNode _ _).mp hcpu)).1
    obtain ⟨found, hfound⟩ := findFree_isSome hlt
    simp only [search, hfound, Option.bind_eq_bind, Option.bind_some]
    cases found with
    | none => exact ih
    | some cpu => exact ⟨_, rfl⟩

theorem addPinCount_isSome_iff (pinCount : List Int) (node delta : Int) :
    (addPinCount pinCount node delta).isSome ↔ 0 ≤ node ∧ node < pinCount.length := by
  rw [addPinCount, Option.isSome_map, subscript_isSome_iff]

/-- The nodes come from sorting the indexes of `pinCount`, so counting one up is defined. -/
theorem getPinning_isSome {env : Env D} {cur : Pinning} (hcpus : env.cpu.mapping.length = cur.length)
    (pid tid : Int) (pinCount : List Int) : ∃ r, getPinning env pid tid pinCount cur = some r := by
  unfold getPinning
  split
  · exact ⟨_, rfl⟩
  · obtain ⟨found, hfound⟩ := search_isSome hcpus (env.sort.order pinCount)
    rw [hfound, Option.bind_eq_bind, Option.bind_some]
    cases found with
    | none => exact ⟨_, rfl⟩
    | some p =>
      have hnode : p.1 < pinCount.length := by
        obtain ⟨node, cpu⟩ := p
        have hmem := (search_free hfound).1
        exact List.mem_range.mp ((env.sort.perm pinCount).mem_iff.mp hmem)
      obtain ⟨count, hcount⟩ := Option.isSome_iff_exists.mp
        ((addPinCount_isSome_iff pinCount p.1 1).mpr ⟨by omega, by omega⟩)
      exact ⟨_, by simp only [hcount]; rfl⟩

end Scatter

namespace ControlStrategy

theorem getPinning_isSome {env : Env D} {cur : Pinning} (hd : env.cpu.Dense cur.length)
    (s : Strategy D) : ∃ r, getPinning env cur s = some r := by
  unfold getPinning
  split
  · exact ⟨_, rfl⟩
  · exact ⟨_, rfl⟩
  · obtain ⟨new, hnew⟩ := Compact.getPinning_isSome hd s.pid s.newTaskTid
    exact ⟨_, by rw [hnew]; rfl⟩
  · obtain ⟨r, hr⟩ := Scatter.getPinning_isSome hd.cpus s.pid s.newTaskTid s.pinCount
    exact ⟨_, by rw [hr]; rfl⟩

theorem changePinning_defined (env : Env D) {f : Frame D} (hd : env.cpu.Dense f.pinning.length) :
    ∃ g, changePinning env f = some g := by
  obtain ⟨r, hr⟩ := getPinning_isSome hd f.self
  exact Option.isSome_iff_exists.mp (changePinning_isSome hr)

/-! ## The slots -/

/-- A strategy without monitors to call, on a machine with dense nodes. -/
structure Fits (c : CpuInfo) (f : Frame D) : Prop where
  dense : c.Dense f.pinning.length
  counts : f.self.kind = .scatter → f.self.pinCount.length = c.getNodeCount
  kind : f.self.kind ≠ .noop

theorem Fits.of_confined {c : CpuInfo} {f g : Frame D} (h : Fits c f) (hc : Confined f g) : Fits c g :=
  ⟨hc.onlyOwn.length ▸ h.dense, fun hk => hc.kept.counts.trans (h.counts (hc.kept.kind ▸ hk)),
    hc.kept.kind ▸ h.kind⟩

theorem slotTaskCreated_defined {env : Env D} {f : Frame D} (h : Fits env.cpu f) (tid : Int) :
    ∃ g, slotTaskCreated env tid f = some g := by
  unfold slotTaskCreated
  split
  · exact changePinning_defined env h.dense
  · rename_i hk
    exact absurd hk h.kind
  all_goals
    obtain ⟨g, hg⟩ := changePinning_defined env
      (f := { f.record (.created tid) with self.newTaskTid := tid, self.tasks := f.self.tasks ++ [tid] })
      h.dense
    exact ⟨_, Option.bind_eq_some_iff.mpr ⟨g, hg, rfl⟩⟩

/-- The lookups of `Scatter::slot_TaskTerminated` stay in range exactly for a pinned task. -/
theorem slotTaskTerminated_isSome_iff {env : Env D} {f : Frame D} (h : Fits env.cpu f) (tid : Int) :
    (slotTaskTerminated env tid f).isSome ↔
      (f.self.kind = .scatter → (⟨f.self.pid, tid⟩ : Task) ∈ f.pinning) := by
  have hbase : ∀ pinCount, ∃ g, baseTaskTerminated env tid
      { f.record (.terminated tid) with self.pinCount := pinCount } = some g := by
    intro pinCount
    apply changePinning_defined env
    simpa [Frame.record] using h.dense
  unfold slotTaskTerminated
  split
  · rename_i hk
    obtain ⟨g, hg⟩ := hbase f.self.pinCount
    simp [hk, show baseTaskTerminated env tid (f.record (.terminated tid)) = some g from hg]
  · rename_i hk
    obtain ⟨g, hg⟩ := hbase f.self.pinCount
    simp [hk, show baseTaskTerminated env tid (f.record (.terminated tid)) = some g from hg]
  · rename_i hk
    exact absurd hk h.kind
  · rename_i hk
    simp only [hk, true_implies]
    rcases getCpuByTask_cases f.pinning ⟨f.self.pid, tid⟩ with ⟨hnot, hcpu⟩ | ⟨cpu, hat, hcpu⟩
    · -- `mapping[-1]`
      have hnone : env.cpu.getNodeByCpu (-1) = none := by simp [CpuInfo.getNodeByCpu, subscript]
      simp [Frame.record, hcpu, hnone, hnot]
    · have hlt : cpu < f.pinning.length := (List.getElem?_eq_some_iff.mp hat).1
      obtain ⟨node, hnode, hnode0, hnodek⟩ :=
        h.dense.getNodeByCpu (Int.natCast_nonneg cpu) (Int.ofNat_lt.mpr hlt)
      obtain ⟨pinCount, hcount⟩ := Option.isSome_iff_exists.mp
        ((Scatter.addPinCount_isSome_iff f.self.pinCount node (-1)).mpr
          ⟨hnode0, by rw [h.counts hk]; exact hnodek⟩)
      obtain ⟨g, hg⟩ := hbase pinCount
      have hmem : (⟨f.self.pid, tid⟩ : Task) ∈ f.pinning := List.mem_of_getElem? hat
      simp only [Frame.record] at hg
      simp [Frame.record, hcpu, hnode, hcount, hg, hmem]

/-- Ending other tasks of the process does not unpin a task, so a whole list of ends is
defined exactly if each task is pinned before it. -/
theorem terminatedCalls_isSome_iff (env : Env D) {f : Frame D} (tids : List Int) (hnodup : tids.Nodup)
    (h0 : f.self.newTaskTid = 0) (hpid : f.self.pid ≠ 0) (h : Fits env.cpu f) :
    ((tids.map SlotCall.terminated).foldlM (slotCall env) f).isSome ↔
      (f.self.kind = .scatter → ∀ tid ∈ tids, (⟨f.self.pid, tid⟩ : Task) ∈ f.pinning) := by
  induction tids generalizing f with
  | nil => simp
  | cons tid tids ih =>
    obtain ⟨htid, htids⟩ := List.nodup_cons.mp hnodup
    have hhead := slotTaskTerminated_isSome_iff h tid
    rw [List.map_cons, List.foldlM_cons, Option.bind_eq_bind]
    cases hf : slotCall env f (.terminated tid) with
    | none =>
      rw [slotCall] at hf
      simp only [hf, Option.isSome_none, Bool.false_eq_true, false_iff] at hhead
      simp only [Option.bind_none, Option.isSome_none, Bool.false_eq_true, false_iff]
      exact fun hall => hhead (fun hk => hall hk tid (by simp))
    | some f' =>
      have ht : Terminated tid f f' := slotTaskTerminated_terminated h0 hf
      have hother : ∀ x ∈ tids, ((⟨f.self.pid, x⟩ : Task) ∈ f'.pinning ↔
          (⟨f.self.pid, x⟩ : Task) ∈ f.pinning) := by
        intro x hx
        rw [ht.pinning]
        apply mem_replace_other
        · intro he
          have hx' : x = tid := congrArg Task.tid he
          exact htid (hx' ▸ hx)
        · intro he
          exact hpid (congrArg Task.pid he)
      rw [slotCall] at hf
      simp only [hf, Option.isSome_some, true_iff] at hhead
      have hrest := ih htids (ht.kept.newTaskTid.trans h0) (ht.kept.pid ▸ hpid)
        (h.of_confined ht.confined)
      rw [Option.bind_some, hrest, ht.kept.kind, ht.kept.pid]
      refine forall_congr' (fun hk => ?_)
      simp only [List.forall_mem_cons, hhead hk, true_and]
      exact forall₂_congr hother

theorem createdCalls_defined (env : Env D) {f : Frame D} (tids : List Int)
    (h0 : f.self.newTaskTid = 0) (h : Fits env.cpu f) :
    ∃ g, (tids.map SlotCall.created).foldlM (slotCall env) f = some g := by
  have hstep : ∀ (g : Frame D) (call : SlotCall), call ∈ tids.map SlotCall.created →
      (g.self.newTaskTid = 0 ∧ Fits env.cpu g) →
      ∃ g', slotCall env g call = some g' ∧ g'.self.newTaskTid = 0 ∧ Fits env.cpu g' := by
    rintro g call hcall ⟨hg0, hg⟩
    obtain ⟨tid, -, rfl⟩ := List.mem_map.mp hcall
    obtain ⟨g', hg'⟩ := slotTaskCreated_defined hg tid
    have hc := (slotTaskCreated_created hg0 hg').confined
    exact ⟨g', hg', hc.kept.newTaskTid.trans hg0, hg.of_confined hc⟩
  obtain ⟨g, hg, -⟩ := foldlM_isSome _ _ hstep ⟨h0, h⟩
  exact ⟨g, hg⟩

theorem act_isSome_iff (env : Env D) {f : Frame D} (e : Event) (h0 : f.self.newTaskTid = 0)
    (hpid : f.self.pid ≠ 0) (h : Fits env.cpu f) :
    (e.act env f).isSome ↔ (f.self.kind = .scatter → ∀ tid, .terminated tid ∈ e.calls f.self →
      (⟨f.self.pid, tid⟩ : Task) ∈ f.pinning) := by
  cases e with
  | slot k call =>
    cases call with
    | created tid =>
      obtain ⟨g, hg⟩ := slotTaskCreated_defined h tid
      simp [Event.act, slotCall, hg, Event.calls]
    | terminated tid => simp [Event.act, slotCall, slotTaskTerminated_isSome_iff h, Event.calls]
  | timer k scan ord =>
    have hr := refreshTasks_confined scan f
    have hterm := terminatedCalls_isSome_iff env (f := refreshTasks scan f)
      (ord.order (SortedSet.diff (.ofList f.self.tasks) (.ofList (refreshTasks scan f).self.tasks)))
      ((ord.perm _).nodup_iff.mpr (SortedSet.elems_nodup _)) h0 hpid (h.of_confined hr)
    rw [Event.act, slotTimer, timerCalls, List.foldlM_append, Option.bind_eq_bind]
    have hmem : ∀ tid, .terminated tid ∈ (Event.timer k scan ord).calls f.self ↔
        tid ∈ ord.order (SortedSet.diff (.ofList f.self.tasks) (.ofList (refreshTasks scan f).self.tasks)) := by
      intro tid
      simp [Event.calls, refreshTasks, (ord.perm _).mem_iff]
    simp only [hmem]
    refine Iff.trans ?_ hterm
    rw [Option.isSome_bind]
    cases hf : ((ord.order (SortedSet.diff (.ofList f.self.tasks)
        (.ofList (refreshTasks scan f).self.tasks))).map SlotCall.terminated).foldlM (slotCall env)
        (refreshTasks scan f) with
    | none => simp
    | some f' =>
      have hc := hr.trans (slotCalls_confined (f := refreshTasks scan f) h0 hf)
      have hdef := createdCalls_defined env
        (ord.order (SortedSet.diff (.ofList (refreshTasks scan f).self.tasks) (.ofList f.self.tasks)))
        (hc.kept.newTaskTid.trans h0) (h.of_confined hc)
      simp [Option.isSome_iff_exists, hdef]

end ControlStrategy

/-! ## Whole runs -/

namespace System

/-- Strategies without monitors on a machine with dense nodes, with one pin count for
each node as `Scatter::init` makes them. -/
structure OnMachine (c : CpuInfo) (s : System D) : Prop extends Ready s where
  dense : c.Dense s.pinning.length
  counts : ∀ self ∈ s.strategies, self.kind = .scatter → self.pinCount.length = c.getNodeCount
  kinds : ∀ self ∈ s.strategies, self.kind ≠ .noop

/-- The event has a receiver, and if that is a Scatter strategy, every task it is told the
end of is pinned. -/
def EndsPinned (s : System D) (e : Event) : Prop :=
  ∃ self, s.strategies[e.receiver]? = some self ∧ (self.kind = .scatter →
    ∀ tid, .terminated tid ∈ e.calls self → (⟨self.pid, tid⟩ : Task) ∈ s.pinning)

theorem OnMachine.fits {c : CpuInfo} {s : System D} (h : s.OnMachine c) {self : Strategy D}
    (hself : self ∈ s.strategies) : Fits c (s.frame self) :=
  ⟨h.dense, h.counts self hself, h.kinds self hself⟩

theorem step_onMachine {env : Env D} {s t : System D} {e : Event} (hs : s.OnMachine env.cpu)
    (h : step env s e = some t) : t.OnMachine env.cpu := by
  have hready := step_ready hs.toReady h
  obtain ⟨self, f, hself, -, rfl, hc⟩ := step_confined hs.toReady h
  have hf : Fits env.cpu f := (hs.fits (List.mem_of_getElem? hself)).of_confined hc
  exact
    { toReady := hready
      dense := hf.dense
      counts := forall_mem_set hf.counts hs.counts
      kinds := forall_mem_set hf.kind hs.kinds }

theorem step_isSome_iff {env : Env D} {s : System D} (e : Event) (hs : s.OnMachine env.cpu) :
    (step env s e).isSome ↔ s.EndsPinned e := by
  unfold step EndsPinned
  cases hself : s.strategies[e.receiver]? with
  | none => simp
  | some self =>
    have hmem : self ∈ s.strategies := List.mem_of_getElem? hself
    have hact := act_isSome_iff env (f := s.frame self) e (hs.idle self hmem)
      (hs.nonzero self hmem) (hs.fits hmem)
    simp only [Option.bind_eq_bind, Option.bind_some, Option.isSome_bind, Option.some.injEq,
      exists_eq_left']
    refine Iff.trans ?_ hact
    cases e.act env (s.frame self) <;> simp

/-- A run of Compact and Scatter strategies uses only indexes in range exactly if Scatter is
told the end of pinned tasks only. -/
theorem run_inRange_iff (env : Env D) (s : System D) (es : List Event) (hs : s.OnMachine env.cpu) :
    (run (step env) s es).isSome ↔ Admitted (step env) EndsPinned s es :=
  run_isSome_iff (OnMachine env.cpu) (fun _ _ _ hs h => step_onMachine hs h)
    (fun _ e hs => step_isSome_iff e hs) es hs

/-- One Scatter process on one CPU. -/
def oneScatter : System Int where
  pinning := [emptyTask]
  host := {}
  strategies := [{ kind := .scatter, pid := 10, pinCount := [0] }]

theorem oneScatter_onMachine : oneScatter.OnMachine Env.oneCpu.cpu := by
  refine ⟨⟨?_, ?_, ?_⟩, ⟨?_, ?_, ?_⟩, ?_, ?_⟩ <;>
    simp [oneScatter, Env.oneCpu, CpuInfo.getNodeCount]

/-- A task that is pinned may end. -/
theorem oneScatter_inRange :
    (run (step .oneCpu) oneScatter [.slot 0 (.created 10), .slot 0 (.terminated 10)]).isSome ∧
      Admitted (step .oneCpu) EndsPinned oneScatter
        [.slot 0 (.created 10), .slot 0 (.terminated 10)] := by
  have hrun : (run (step .oneCpu) oneScatter
      [.slot 0 (.created 10), .slot 0 (.terminated 10)]).isSome := by decide
  exact ⟨hrun, (run_inRange_iff .oneCpu oneScatter _ oneScatter_onMachine).mp hrun⟩

/-- The second task finds no free CPU; at its end `mapping` is read at -1. -/
theorem oneScatter_outOfRange :
    oneScatter.OnMachine Env.oneCpu.cpu ∧
    ∃ s, run (step .oneCpu) oneScatter [.slot 0 (.created 10), .slot 0 (.created 11)] = some s ∧
      getCpuByTask s.pinning ⟨10, 11⟩ = -1 ∧ Env.oneCpu.cpu.getNodeByCpu (-1) = none ∧
      step .oneCpu s (.slot 0 (.terminated 11)) = none := by
  refine ⟨oneScatter_onMachine, ?_⟩
  have hsome : (run (step .oneCpu) oneScatter [.slot 0 (.created 10), .slot 0 (.created 11)]).isSome := by
    decide
  obtain ⟨s, hs⟩ := Option.isSome_iff_exists.mp hsome
  have hcpu : (run (step .oneCpu) oneScatter [.slot 0 (.created 10), .slot 0 (.created 11)]).all
      (fun s => getCpuByTask s.pinning ⟨10, 11⟩ = -1) = true := by decide
  have hend : (run (step .oneCpu) oneScatter [.slot 0 (.created 10), .slot 0 (.created 11)]).all
      (fun s => (step .oneCpu s (.slot 0 (.terminated 11))).isNone) = true := by decide
  simp only [hs, Option.all_some, decide_eq_true_eq, Option.isNone_iff_eq_none] at hcpu hend
  exact ⟨s, hs, hcpu, by decide, hend⟩

end System

end AutopinPlus
