import AutopinPlus.SlotTable
import AutopinPlus.StrategyStep

/-!
# The shared pinning table under every interleaving

Any number of strategies act on one table, in any order, and every `setAffinity`
call may fail. Two results hold of all runs: a strategy never touches a slot of
another process, and the table is injective and agrees with what the host was told.
-/
namespace AutopinPlus

open PartialStep SlotTable ControlStrategy

variable {D : Type}

/-- The static table, the host and the strategies that share them. -/
structure System (D : Type) where
  pinning : Pinning
  host : Host
  strategies : List (Strategy D)

/-- A task signal, or an expiry of the polling timer with the tree it will read. -/
inductive Event where
  | slot (k : Nat) (call : SlotCall)
  | timer (k : Nat) (scan : Scan) (ord : SetOrder)

/-- The strategy an event is for. -/
def Event.receiver : Event → Nat
  | .slot k _ => k
  | .timer k _ _ => k

/-- What the receiver does. -/
def Event.act (env : Env D) : Event → Frame D → Option (Frame D)
  | .slot _ call, f => slotCall env f call
  | .timer _ scan ord, f => slotTimer env scan ord f

namespace System

def frame (s : System D) (self : Strategy D) : Frame D := ⟨s.pinning, s.host, self⟩

def step (env : Env D) (s : System D) (e : Event) : Option (System D) := do
  let self ← s.strategies[e.receiver]?
  let f ← e.act env (s.frame self)
  some ⟨f.pinning, f.host, s.strategies.set e.receiver f.self⟩

theorem step_cases {env : Env D} {s t : System D} {e : Event} (h : step env s e = some t) :
    ∃ self f, s.strategies[e.receiver]? = some self ∧ e.act env (s.frame self) = some f ∧
      t = ⟨f.pinning, f.host, s.strategies.set e.receiver f.self⟩ := by
  obtain ⟨self, hself, h⟩ := Option.bind_eq_some_iff.mp h
  obtain ⟨f, hf, h⟩ := Option.bind_eq_some_iff.mp h
  exact ⟨self, f, hself, hf, (Option.some.inj h).symm⟩

/-- Strategies of different processes, between two slots. -/
structure Ready (s : System D) : Prop where
  pids : (s.strategies.map Strategy.pid).Nodup
  nonzero : ∀ self ∈ s.strategies, self.pid ≠ 0
  idle : ∀ self ∈ s.strategies, self.newTaskTid = 0

/-- As `ControlStrategy::init` leaves the table, with no task seen yet. -/
structure Initial (s : System D) : Prop extends Ready s where
  free : ∀ t ∈ s.pinning, t = emptyTask
  tasks : ∀ self ∈ s.strategies, self.tasks = []

end System

/-! ## One strategy at a time -/

namespace ControlStrategy

/-- What any sequence of slots of one strategy does to the table. -/
structure Confined (f g : Frame D) : Prop where
  kept : Kept f.self g.self
  onlyOwn : OnlyOwn emptyTask Task.pid f.self.pid f.pinning g.pinning

theorem Confined.refl (f : Frame D) : Confined f f := ⟨.refl _, .refl _ _⟩

theorem Confined.trans {f g h : Frame D} (hfg : Confined f g) (hgh : Confined g h) : Confined f h :=
  ⟨hfg.kept.trans hgh.kept, hfg.onlyOwn.trans (hfg.kept.pid ▸ hgh.onlyOwn)⟩

theorem Created.confined {tid : Int} {f g : Frame D} (h : Created tid f g) : Confined f g := by
  refine ⟨h.kept, ?_⟩
  rcases h.table with ⟨hp, _⟩ | ⟨j, ret, hj, _, _, hp⟩
  · exact hp ▸ .refl _ _
  · rw [hp]
    split
    · exact .set hj rfl
    · exact .refl _ _

theorem Terminated.confined {tid : Int} {f g : Frame D} (h : Terminated tid f g) : Confined f g :=
  ⟨h.kept, h.pinning ▸ .replace rfl⟩

theorem slotCall_confined {env : Env D} {f g : Frame D} {call : SlotCall}
    (h0 : f.self.newTaskTid = 0) (h : slotCall env f call = some g) : Confined f g := by
  cases call with
  | created tid => exact (slotTaskCreated_created h0 h).confined
  | terminated tid => exact (slotTaskTerminated_terminated h0 h).confined

theorem slotCalls_confined {env : Env D} {f g : Frame D} {calls : List SlotCall}
    (h0 : f.self.newTaskTid = 0) (h : calls.foldlM (slotCall env) f = some g) : Confined f g := by
  refine foldlM_invariant (Confined f) calls ?_ (.refl f) h
  intro f' call g' _ hf' hstep
  exact hf'.trans (slotCall_confined (hf'.kept.newTaskTid.trans h0) hstep)

theorem refreshTasks_confined (scan : Scan) (f : Frame D) : Confined f (refreshTasks scan f) := by
  refine ⟨⟨rfl, rfl, rfl, rfl, ?_⟩, .refl _ _⟩
  intro hw
  rcases Scan.mem_report hw with hw | hw
  · exact hw
  · simp [wrongCpu] at hw

theorem act_confined {env : Env D} {e : Event} {f g : Frame D} (h0 : f.self.newTaskTid = 0)
    (h : e.act env f = some g) : Confined f g := by
  cases e with
  | slot k call => exact slotCall_confined h0 h
  | timer k scan ord => exact (refreshTasks_confined scan f).trans (slotCalls_confined h0 h)

end ControlStrategy

/-! ## Isolation -/

namespace System

theorem step_confined {env : Env D} {s t : System D} {e : Event} (hs : s.Ready)
    (h : step env s e = some t) :
    ∃ self f, s.strategies[e.receiver]? = some self ∧ e.act env (s.frame self) = some f ∧
      t = ⟨f.pinning, f.host, s.strategies.set e.receiver f.self⟩ ∧ Confined (s.frame self) f := by
  obtain ⟨self, f, hself, hf, ht⟩ := step_cases h
  have hidle : self.newTaskTid = 0 := hs.idle self (List.mem_of_getElem? hself)
  exact ⟨self, f, hself, hf, ht, act_confined hidle hf⟩

theorem forall_mem_set {P : Strategy D → Prop} {l : List (Strategy D)} {k : Nat} {a : Strategy D}
    (ha : P a) (hl : ∀ b ∈ l, P b) : ∀ b ∈ l.set k a, P b := by
  intro b hb
  rcases List.mem_or_eq_of_mem_set hb with hb | rfl
  · exact hl b hb
  · exact ha

theorem map_pid_set {l : List (Strategy D)} {k : Nat} {a b : Strategy D} (h : l[k]? = some a)
    (hpid : b.pid = a.pid) : (l.set k b).map Strategy.pid = l.map Strategy.pid := by
  obtain ⟨hlt, rfl⟩ := List.getElem?_eq_some_iff.mp h
  have hk : k < (l.map Strategy.pid).length := by simpa using hlt
  calc (l.set k b).map Strategy.pid
      = (l.map Strategy.pid).set k (l.map Strategy.pid)[k] := by rw [List.map_set, hpid, List.getElem_map]
    _ = l.map Strategy.pid := List.set_getElem_self hk

theorem step_ready {env : Env D} {s t : System D} {e : Event} (hs : s.Ready)
    (h : step env s e = some t) : t.Ready := by
  obtain ⟨self, f, hself, -, rfl, hc⟩ := step_confined hs h
  have hmem : self ∈ s.strategies := List.mem_of_getElem? hself
  have hpid : f.self.pid = self.pid := hc.kept.pid
  exact
    { pids := map_pid_set hself hpid ▸ hs.pids
      nonzero := forall_mem_set (hpid ▸ hs.nonzero self hmem) hs.nonzero
      idle := forall_mem_set (hc.kept.newTaskTid.trans (hs.idle self hmem)) hs.idle }

/-- No strategy has reported `wrong_cpu`. -/
def NoWrongCpu (s : System D) : Prop := ∀ self ∈ s.strategies, wrongCpu ∉ self.context.errors

theorem step_noWrongCpu {env : Env D} {s t : System D} {e : Event} (hs : s.Ready) (hw : s.NoWrongCpu)
    (h : step env s e = some t) : t.NoWrongCpu := by
  obtain ⟨self, f, hself, -, rfl, hc⟩ := step_confined hs h
  have hf : wrongCpu ∉ f.self.context.errors :=
    fun he => hw self (List.mem_of_getElem? hself) (hc.kept.wrongCpu he)
  exact forall_mem_set hf hw

/-- In every run a step of the strategy of `p` changes only slots that were free or
held by `p`, leaves every slot of another process as it was, and no strategy ever
reports `wrong_cpu`. -/
theorem run_isolated (env : Env D) (s₀ s t : System D) (es : List Event) (e : Event)
    (h₀ : s₀.Ready) (hw : s₀.NoWrongCpu) (hrun : run (step env) s₀ es = some s)
    (hstep : step env s e = some t) :
    t.NoWrongCpu ∧ t.pinning.length = s.pinning.length ∧
    ∃ self, s.strategies[e.receiver]? = some self ∧
      (∀ (i : Nat) (a b : Task), s.pinning[i]? = some a → t.pinning[i]? = some b → b ≠ a →
        a = emptyTask ∨ a.pid = self.pid) ∧
      (∀ (i : Nat) (a : Task), s.pinning[i]? = some a → a ≠ emptyTask → a.pid ≠ self.pid →
        t.pinning[i]? = some a) := by
  obtain ⟨hs, hws⟩ : s.Ready ∧ s.NoWrongCpu :=
    run_invariant (fun s => s.Ready ∧ s.NoWrongCpu)
      (fun _ _ _ hP _ hst => ⟨step_ready hP.1 hst, step_noWrongCpu hP.1 hP.2 hst⟩)
      ⟨h₀, hw⟩ (admitted_true _ _ es) hrun
  obtain ⟨self, f, hself, -, rfl, hc⟩ := step_confined hs hstep
  refine ⟨step_noWrongCpu hs hws hstep, hc.onlyOwn.length, self, hself, ?_, ?_⟩
  · intro i a b ha hb hne
    rcases hc.onlyOwn.slot i a b ha hb with he | ⟨hown, _⟩
    · exact absurd he hne
    · exact hown
  · intro i a ha hfree hother
    exact hc.onlyOwn.other ha hfree hother

/-- One strategy of each kind that pins, on two free CPUs. -/
def twoProcesses : System Int where
  pinning := [emptyTask, emptyTask]
  host := {}
  strategies := [{ kind := .compact, pid := 10 }, { kind := .scatter, pid := 20, pinCount := [0, 0] }]

theorem twoProcesses_initial : twoProcesses.Initial := by
  refine ⟨⟨?_, ?_, ?_⟩, ?_, ?_⟩ <;> simp [twoProcesses]

/-- The second process finds the first CPU taken and leaves it alone. -/
theorem twoProcesses_isolated :
    ∃ s t, run (step .twoNodes) twoProcesses [.slot 0 (.created 10)] = some s ∧
      step .twoNodes s (.slot 1 (.created 20)) = some t ∧
      s.pinning[0]? = some ⟨10, 10⟩ ∧ t.pinning[0]? = some ⟨10, 10⟩ ∧ t.NoWrongCpu := by
  obtain ⟨s, t, hs, ht⟩ : ∃ s t, run (step .twoNodes) twoProcesses [.slot 0 (.created 10)] = some s ∧
      step .twoNodes s (.slot 1 (.created 20)) = some t := exists_run_step (by decide)
  have hpin : (run (step .twoNodes) twoProcesses [.slot 0 (.created 10)]).map System.pinning =
      some [⟨10, 10⟩, emptyTask] := by decide
  have hpid : (run (step .twoNodes) twoProcesses [.slot 0 (.created 10)]).bind
      (fun s => s.strategies[1]?.map Strategy.pid) = some 20 := by decide
  simp only [hs, Option.map_some, Option.some.injEq, Option.bind_some] at hpin hpid
  obtain ⟨hw, -, self, hself, -, hother⟩ := run_isolated _ _ _ _ _ _ twoProcesses_initial.toReady
    (by simp [NoWrongCpu, twoProcesses]) hs ht
  have h0 : s.pinning[0]? = some ⟨10, 10⟩ := by rw [hpin]; rfl
  have hself20 : self.pid = 20 := by
    simpa [Event.receiver] using (congrArg (Option.map Strategy.pid) hself).symm.trans hpid
  exact ⟨s, t, hs, ht, h0, hother 0 _ h0 (by decide) (by rw [hself20]; decide), hw⟩

end System

/-! ## The table agrees with the host -/

namespace ControlStrategy

/-- The table as one strategy sees it: no task stands in two slots, its own tasks in
the table are `live`, and every task of the table was last pinned where the table
says. -/
structure Agrees (live : Int → Prop) (f : Frame D) : Prop where
  exclusive : Exclusive emptyTask f.pinning
  mine : ∀ t ∈ f.pinning, t.pid = f.self.pid → live t.tid
  affinity : ∀ (i : Nat) (t : Task), f.pinning[i]? = some t → t ≠ emptyTask →
    f.host.lastAffinity t.tid = some (i : Int)

/-- No other process has the tid in the table. -/
def Unshared (f : Frame D) (tid : Int) : Prop :=
  ∀ t ∈ f.pinning, t ≠ emptyTask → t.pid ≠ f.self.pid → t.tid ≠ tid

theorem Agrees.imp {live live' : Int → Prop} {f : Frame D} (h : Agrees live f)
    (himp : ∀ tid, live tid → live' tid) : Agrees live' f :=
  ⟨h.exclusive, fun t ht hp => himp _ (h.mine t ht hp), h.affinity⟩

theorem Confined.unshared {f g : Frame D} (h : Confined f g) {tid : Int} (hf : Unshared f tid) :
    Unshared g tid := by
  intro t ht hfree hp
  rw [h.kept.pid] at hp
  exact hf t (h.onlyOwn.mem_other ht hfree hp) hfree hp

theorem Agrees.same_table {live : Int → Prop} {f g : Frame D} (h : Agrees live f)
    (hpid : g.self.pid = f.self.pid) (hp : g.pinning = f.pinning)
    (ha : ∀ tid, g.host.lastAffinity tid = f.host.lastAffinity tid) : Agrees live g := by
  refine ⟨hp ▸ h.exclusive, ?_, ?_⟩
  · intro t ht ht'
    exact h.mine t (hp ▸ ht) (ht'.trans hpid)
  · intro i t ht hfree
    rw [ha]
    exact h.affinity i t (hp ▸ ht) hfree

theorem Created.agrees {live : Int → Prop} {tid : Int} {f g : Frame D} (h : Created tid f g)
    (hf : Agrees live f) (hnew : ¬ live tid) (hu : Unshared f tid) :
    Agrees (fun x => live x ∨ x = tid) g := by
  have hfresh : ∀ t ∈ f.pinning, t ≠ emptyTask → t.tid ≠ tid := by
    intro t ht hfree he
    by_cases hp : t.pid = f.self.pid
    · exact hnew (he ▸ hf.mine t ht hp)
    · exact hu t ht hfree hp he
  have hweak : Agrees (fun x => live x ∨ x = tid) f := hf.imp (fun _ => .inl)
  rcases h.table with ⟨hp, ha⟩ | ⟨j, ret, hj, htid, ha, hp⟩
  · exact hweak.same_table h.kept.pid hp (Host.lastAffinity_congr ha)
  · by_cases hret : ret = 0
    · -- the call succeeded: slot `j` is the only new one
      rw [if_pos hret] at hp
      have hnone : (⟨f.self.pid, tid⟩ : Task) ∉ f.pinning :=
        fun hmem => hfresh _ hmem (fun he => htid (congrArg Task.tid he)) rfl
      refine ⟨hp ▸ hf.exclusive.set hnone, ?_, ?_⟩
      · intro t ht hpid
        rw [hp] at ht
        rcases List.mem_or_eq_of_mem_set ht with ht | rfl
        · exact hweak.mine t ht (hpid.trans h.kept.pid)
        · exact .inr rfl
      · intro i t ht hfree
        rw [hp] at ht
        rcases getElem?_set_cases ht with ⟨rfl, rfl⟩ | ⟨_, ht⟩
        · exact Host.lastAffinity_cons_self ha hret
        · have hne : t.tid ≠ tid := hfresh t (List.mem_of_getElem? ht) hfree
          rw [Host.lastAffinity_cons_other ha (.inl (Ne.symm hne))]
          exact hf.affinity i t ht hfree
    · rw [if_neg hret] at hp
      exact hweak.same_table h.kept.pid hp (fun _ => Host.lastAffinity_cons_other ha (.inr hret))

theorem Terminated.agrees {live : Int → Prop} {tid : Int} {f g : Frame D} (h : Terminated tid f g)
    (hf : Agrees live f) (hpid : f.self.pid ≠ 0) : Agrees (fun x => live x ∧ x ≠ tid) g := by
  have ht₀ : (⟨f.self.pid, tid⟩ : Task) ≠ emptyTask := fun he => hpid (congrArg Task.pid he)
  have hold : ∀ (i : Nat) (t : Task), g.pinning[i]? = some t → t ≠ emptyTask → f.pinning[i]? = some t := by
    intro i t ht hfree
    rw [h.pinning] at ht
    exact (getElem?_replace_cases ht).resolve_right (fun hn => hfree hn.2)
  refine ⟨h.pinning ▸ hf.exclusive.replace _, ?_, ?_⟩
  · intro t ht hp
    rw [h.kept.pid] at hp
    have hfree : t ≠ emptyTask := fun he => hpid (hp.symm.trans (congrArg Task.pid he))
    obtain ⟨i, hi⟩ := List.mem_iff_getElem?.mp ht
    refine ⟨hf.mine t (List.mem_of_getElem? (hold i t hi hfree)) hp, ?_⟩
    rintro rfl
    rw [h.pinning] at ht
    exact hf.exclusive.not_mem_replace ht₀ (hp ▸ ht)
  · intro i t ht hfree
    rw [Host.lastAffinity_congr h.affinity]
    exact hf.affinity i t (hold i t ht hfree) hfree

theorem terminatedCalls_agrees {env : Env D} {live : Int → Prop} {f g : Frame D} (tids : List Int)
    (h0 : f.self.newTaskTid = 0) (hpid : f.self.pid ≠ 0) (hf : Agrees live f)
    (h : (tids.map SlotCall.terminated).foldlM (slotCall env) f = some g) :
    Agrees (fun x => live x ∧ x ∉ tids) g := by
  induction tids generalizing live f with
  | nil =>
    cases h
    exact hf.imp (fun _ hx => ⟨hx, by simp⟩)
  | cons tid tids ih =>
    rw [List.map_cons, List.foldlM_cons, Option.bind_eq_bind] at h
    obtain ⟨f', hf', h⟩ := Option.bind_eq_some_iff.mp h
    have ht : Terminated tid f f' := slotTaskTerminated_terminated h0 hf'
    have ih' := ih (ht.kept.newTaskTid.trans h0) (ht.kept.pid ▸ hpid) (ht.agrees hf hpid) h
    refine ih'.imp ?_
    rintro x ⟨⟨hx, hne⟩, hmem⟩
    exact ⟨hx, by simp [hne, hmem]⟩

theorem createdCalls_agrees {env : Env D} {live : Int → Prop} {f g : Frame D} (tids : List Int)
    (h0 : f.self.newTaskTid = 0) (hf : Agrees live f) (hnodup : tids.Nodup)
    (hnew : ∀ tid ∈ tids, ¬ live tid ∧ Unshared f tid)
    (h : (tids.map SlotCall.created).foldlM (slotCall env) f = some g) :
    Agrees (fun x => live x ∨ x ∈ tids) g := by
  induction tids generalizing live f with
  | nil =>
    cases h
    exact hf.imp (fun _ => .inl)
  | cons tid tids ih =>
    rw [List.map_cons, List.foldlM_cons, Option.bind_eq_bind] at h
    obtain ⟨f', hf', h⟩ := Option.bind_eq_some_iff.mp h
    have hc : Created tid f f' := slotTaskCreated_created h0 hf'
    obtain ⟨htid, htids⟩ := List.nodup_cons.mp hnodup
    have hagrees := hc.agrees hf (hnew tid (by simp)).1 (hnew tid (by simp)).2
    have hnew' : ∀ x ∈ tids, ¬ (live x ∨ x = tid) ∧ Unshared f' x := by
      intro x hx
      have hx' := hnew x (List.mem_cons_of_mem tid hx)
      refine ⟨?_, hc.confined.unshared hx'.2⟩
      rintro (hl | rfl)
      · exact hx'.1 hl
      · exact htid hx
    have ih' := ih (hc.kept.newTaskTid.trans h0) hagrees htids hnew' h
    refine ih'.imp ?_
    rintro x ((hx | hx) | hx)
    · exact .inl hx
    · exact .inr (by simp [hx])
    · exact .inr (List.mem_cons_of_mem tid hx)

end ControlStrategy

/-- The task slots an event makes its receiver call. -/
def Event.calls (self : Strategy D) : Event → List SlotCall
  | .slot _ call => [call]
  | .timer _ scan ord =>
    timerCalls ord (.ofList self.tasks) (.ofList scan.tree.getAllTasks.elems)

/-- What the operating system promises about tids: a signalled task is new to its
strategy, and no tid is in use by another process that has it in the table. -/
def Event.Fresh (f : Frame D) : Event → Prop
  | .slot _ (.created tid) => tid ∉ f.self.tasks ∧ Unshared f tid
  | .slot _ (.terminated _) => True
  | .timer _ scan _ => ∀ tid ∈ scan.tree.getAllTasks, Unshared f tid

namespace ControlStrategy

theorem timer_agrees {env : Env D} {scan : Scan} {ord : SetOrder} {f g : Frame D}
    (h0 : f.self.newTaskTid = 0) (hpid : f.self.pid ≠ 0) (hf : Agrees (· ∈ f.self.tasks) f)
    (hu : ∀ tid ∈ scan.tree.getAllTasks, Unshared f tid) (h : slotTimer env scan ord f = some g) :
    Agrees (· ∈ scan.tree.getAllTasks) g := by
  have hmid : Agrees (· ∈ f.self.tasks) (refreshTasks scan f) := hf.same_table rfl rfl (fun _ => rfl)
  unfold slotTimer timerCalls at h
  rw [List.foldlM_append, Option.bind_eq_bind] at h
  obtain ⟨f', hf', h⟩ := Option.bind_eq_some_iff.mp h
  have hconf : Confined f f' :=
    (refreshTasks_confined scan f).trans (slotCalls_confined h0 hf')
  have hterm := terminatedCalls_agrees (f := refreshTasks scan f) _ h0 hpid hmid hf'
  have hmem := fun s x => (ord.perm s).mem_iff (a := x)
  refine (createdCalls_agrees _ (hconf.kept.newTaskTid.trans h0) hterm ?_ ?_ h).imp ?_
  · exact (ord.perm _).nodup_iff.mpr (SortedSet.elems_nodup _)
  · intro tid htid
    simp only [hmem, SortedSet.mem_elems, SortedSet.mem_diff, SortedSet.mem_ofList] at htid
    exact ⟨fun hl => htid.2 hl.1, hconf.unshared (hu tid htid.1)⟩
  · rintro x (⟨hx, hnot⟩ | hx)
    · simp only [hmem, SortedSet.mem_elems, SortedSet.mem_diff, SortedSet.mem_ofList, hx, true_and,
        not_not] at hnot
      exact hnot
    · simp only [hmem, SortedSet.mem_elems, SortedSet.mem_diff, SortedSet.mem_ofList] at hx
      exact hx.1

/-- A step of one strategy leaves its tasks of the table among its `tasks`, without
those whose end it was told. -/
theorem act_agrees {env : Env D} {e : Event} {f g : Frame D} (h0 : f.self.newTaskTid = 0)
    (hpid : f.self.pid ≠ 0) (hf : Agrees (· ∈ f.self.tasks) f) (hfresh : e.Fresh f)
    (h : e.act env f = some g) :
    Agrees (fun x => x ∈ g.self.tasks ∧ .terminated x ∉ e.calls f.self) g := by
  cases e with
  | slot k call =>
    cases call with
    | created tid =>
      have hc : Created tid f g := slotTaskCreated_created h0 h
      refine (hc.agrees hf hfresh.1 hfresh.2).imp ?_
      intro x hx
      simpa [hc.tasks, Event.calls] using hx
    | terminated tid =>
      have ht : Terminated tid f g := slotTaskTerminated_terminated h0 h
      refine (ht.agrees hf hpid).imp ?_
      rintro x ⟨hx, hne⟩
      simpa [ht.tasks, Event.calls, List.mem_erase_of_ne hne] using ⟨hx, hne⟩
  | timer k scan ord =>
    refine (timer_agrees h0 hpid hf hfresh h).imp ?_
    intro x hx
    have hnot : .terminated x ∉ timerCalls ord (.ofList f.self.tasks)
        (.ofList scan.tree.getAllTasks.elems) := by
      simp [hx]
    refine ⟨?_, hnot⟩
    rw [(slotCalls_history (f := refreshTasks scan f) h0 h).2.1]
    exact mem_foldl_track hx hnot

end ControlStrategy

namespace System

/-- What the table says is true: no task stands in two slots, each is in the `tasks`
of its strategy, and each was last pinned to the CPU of its slot. -/
structure Consistent (s : System D) : Prop where
  exclusive : ∀ (i j : Nat) (t : Task), s.pinning[i]? = some t → s.pinning[j]? = some t →
    t ≠ emptyTask → i = j
  tracked : ∀ t ∈ s.pinning, t ≠ emptyTask →
    ∃ self ∈ s.strategies, self.pid = t.pid ∧ t.tid ∈ self.tasks
  affinity : ∀ (i : Nat) (t : Task), s.pinning[i]? = some t → t ≠ emptyTask →
    s.host.lastAffinity t.tid = some (i : Int)

def Fresh (s : System D) (e : Event) : Prop :=
  ∀ self, s.strategies[e.receiver]? = some self → e.Fresh (s.frame self)

theorem Initial.consistent {s : System D} (h : s.Initial) : s.Consistent where
  exclusive := Exclusive.of_all_free h.free
  tracked t ht hfree := absurd (h.free t ht) hfree
  affinity _ t ht hfree := absurd (h.free t (List.mem_of_getElem? ht)) hfree

theorem Ready.eq_of_pid {s : System D} (h : s.Ready) {a b : Strategy D} (ha : a ∈ s.strategies)
    (hb : b ∈ s.strategies) (hpid : a.pid = b.pid) : a = b :=
  List.inj_on_of_nodup_map h.pids ha hb hpid

theorem Consistent.agrees {s : System D} (hs : s.Ready) (hc : s.Consistent) {self : Strategy D}
    (hself : self ∈ s.strategies) : Agrees (· ∈ self.tasks) (s.frame self) := by
  refine ⟨hc.exclusive, ?_, hc.affinity⟩
  intro t ht hpid
  have hfree : t ≠ emptyTask :=
    fun he => hs.nonzero self hself (hpid.symm.trans (congrArg Task.pid he))
  obtain ⟨owner, howner, hp, htid⟩ := hc.tracked t ht hfree
  exact hs.eq_of_pid howner hself (hp.trans hpid) ▸ htid

theorem mem_set_of_ne {l : List (Strategy D)} {k : Nat} {a b x : Strategy D} (hk : l[k]? = some a)
    (hx : x ∈ l) (hne : x ≠ a) : x ∈ l.set k b := by
  obtain ⟨i, hi⟩ := List.mem_iff_getElem?.mp hx
  have hik : k ≠ i := by
    rintro rfl
    exact hne (Option.some.inj (hi.symm.trans hk))
  exact List.mem_of_getElem? ((List.getElem?_set_ne hik).trans hi)

theorem step_consistent {env : Env D} {s t : System D} {e : Event} (hs : s.Ready)
    (hc : s.Consistent) (hfresh : s.Fresh e) (h : step env s e = some t) : t.Consistent := by
  obtain ⟨self, f, hself, hf, rfl, hconf⟩ := step_confined hs h
  have hmem : self ∈ s.strategies := List.mem_of_getElem? hself
  have hagrees := act_agrees (hs.idle self hmem) (hs.nonzero self hmem) (hc.agrees hs hmem)
    (hfresh self hself) hf
  refine ⟨hagrees.exclusive, ?_, hagrees.affinity⟩
  intro t ht hfree
  by_cases hpid : t.pid = self.pid
  · have hpid' : f.self.pid = t.pid := hconf.kept.pid.trans hpid.symm
    have hlt : e.receiver < s.strategies.length := (List.getElem?_eq_some_iff.mp hself).1
    exact ⟨f.self, List.mem_of_getElem? (List.getElem?_set_self hlt), hpid',
      (hagrees.mine t ht hpid'.symm).1⟩
  · obtain ⟨owner, howner, hp, htid⟩ := hc.tracked t (hconf.onlyOwn.mem_other ht hfree hpid) hfree
    have hne : owner ≠ self := fun he => hpid (hp.symm.trans (congrArg Strategy.pid he))
    exact ⟨owner, mem_set_of_ne hself howner hne, hp, htid⟩

theorem run_ready_consistent {env : Env D} {s₀ s : System D} {es : List Event} (h₀ : s₀.Initial)
    (hfresh : Admitted (step env) Fresh s₀ es) (hrun : run (step env) s₀ es = some s) :
    s.Ready ∧ s.Consistent := by
  refine run_invariant (fun s => s.Ready ∧ s.Consistent) ?_ ⟨h₀.toReady, h₀.consistent⟩ hfresh hrun
  intro s e t hP hok hstep
  exact ⟨step_ready hP.1 hstep, step_consistent hP.1 hP.2 hok hstep⟩

/-- Every state reached from a free table is consistent, and after a step in which a
strategy was told the end of a task no slot holds that task. -/
theorem run_consistent (env : Env D) (s₀ s : System D) (es : List Event) (h₀ : s₀.Initial)
    (hfresh : Admitted (step env) Fresh s₀ es) (hrun : run (step env) s₀ es = some s) :
    s.Consistent ∧
    ∀ (e : Event) (t : System D) (self : Strategy D) (tid : Int), s.Fresh e →
      step env s e = some t → s.strategies[e.receiver]? = some self →
      .terminated tid ∈ e.calls self → (⟨self.pid, tid⟩ : Task) ∉ t.pinning := by
  obtain ⟨hs, hc⟩ := run_ready_consistent h₀ hfresh hrun
  refine ⟨hc, ?_⟩
  intro e t self tid hok hstep hself hcall hmem
  obtain ⟨self', f, hself', hf, rfl, hconf⟩ := step_confined hs hstep
  obtain rfl : self' = self := Option.some.inj (hself'.symm.trans hself)
  have hin : self' ∈ s.strategies := List.mem_of_getElem? hself
  have hagrees := act_agrees (hs.idle self' hin) (hs.nonzero self' hin) (hc.agrees hs hin)
    (hok self' hself) hf
  exact (hagrees.mine _ hmem hconf.kept.pid.symm).2 hcall

/-- The first process gets a CPU and gives it back. -/
theorem twoProcesses_consistent :
    ∃ s t, run (step .twoNodes) twoProcesses [.slot 0 (.created 10)] = some s ∧ s.Consistent ∧
      (⟨10, 10⟩ : Task) ∈ s.pinning ∧ step .twoNodes s (.slot 0 (.terminated 10)) = some t ∧
      (⟨10, 10⟩ : Task) ∉ t.pinning := by
  obtain ⟨s, t, hs, ht⟩ : ∃ s t, run (step .twoNodes) twoProcesses [.slot 0 (.created 10)] = some s ∧
      step .twoNodes s (.slot 0 (.terminated 10)) = some t := exists_run_step (by decide)
  have hpin : (run (step .twoNodes) twoProcesses [.slot 0 (.created 10)]).map System.pinning =
      some [⟨10, 10⟩, emptyTask] := by decide
  have hpid : (run (step .twoNodes) twoProcesses [.slot 0 (.created 10)]).bind
      (fun s => s.strategies[0]?.map Strategy.pid) = some 10 := by decide
  simp only [hs, Option.map_some, Option.some.injEq, Option.bind_some] at hpin hpid
  have hfresh : Admitted (step .twoNodes) Fresh twoProcesses [.slot 0 (.created 10)] := by
    refine ⟨?_, fun _ _ => trivial⟩
    intro self hself
    cases hself
    exact ⟨by decide, by unfold Unshared; decide⟩
  obtain ⟨hc, hterm⟩ := run_consistent _ _ _ _ twoProcesses_initial hfresh hs
  obtain ⟨self, hself, hself10⟩ := Option.map_eq_some_iff.mp hpid
  have hgone := hterm (.slot 0 (.terminated 10)) t self 10 (fun _ _ => trivial) ht hself (by simp [Event.calls])
  exact ⟨s, t, hs, hc, by rw [hpin]; decide, ht, hself10 ▸ hgone⟩

end System

end AutopinPlus
