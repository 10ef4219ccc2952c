import AutopinPlus.ScatterRange

/-!
# How Scatter counts and balances

Scatter keeps one counter for each NUMA node and puts a new task on a node with the
smallest counter that has a free CPU. The counter goes up while the table is only
proposed, so it runs ahead by one for every `setAffinity` call that fails. Where the
calls succeed the counters are exact, and the tasks of the process are spread evenly.
-/
namespace AutopinPlus

open PartialStep SlotTable ControlStrategy

variable {D : Type}

/-- The frame on which the task slots of an event start. -/
def Event.prepare (f : Frame D) : Event → Frame D
  | .slot _ _ => f
  | .timer _ scan _ => refreshTasks scan f

theorem Event.act_eq_calls (env : Env D) (e : Event) (f : Frame D) :
    e.act env f = (e.calls f.self).foldlM (slotCall env) (e.prepare f) := by
  cases e with
  | slot k call => simp [Event.act, Event.calls, Event.prepare]
  | timer k scan ord => rfl

/-- How many CPUs of a node hold a task of the process. -/
def onNode (c : CpuInfo) (pid : Int) (p : Pinning) (node : Nat) : Nat :=
  owned Task.pid pid (c.getCpusByNode node) p

theorem CpuInfo.getCpusByNode_nodup (c : CpuInfo) (node : Int) : (c.getCpusByNode node).Nodup :=
  List.nodup_range.filter _

/-! ## What one slot of Scatter does -/

namespace Scatter

/-- A counter is a subscript, changed by `delta`. -/
theorem addPinCount_eq_some {pinCount pinCount' : List Int} {node : Nat} {delta : Int}
    (h : addPinCount pinCount node delta = some pinCount') :
    ∃ n, pinCount[node]? = some n ∧ pinCount' = pinCount.set node (n + delta) := by
  obtain ⟨n, hn, rfl⟩ := Option.map_eq_some_iff.mp h
  rw [subscript_natCast] at hn
  exact ⟨n, hn, by rw [Int.toNat_natCast]⟩

/-- `changePinning` of a Scatter strategy does nothing, or counts the new task on the node of a
CPU the search has found and pins it there. -/
theorem changePinning_scatter {env : Env D} {f g : Frame D} (hkind : f.self.kind = .scatter)
    (h : changePinning env f = some g) :
    ((f.self.newTaskTid = 0 ∨ search env.cpu f.pinning (env.sort.order f.self.pinCount) = some none) ∧
      g = f) ∨
    ∃ node cpu n, search env.cpu f.pinning (env.sort.order f.self.pinCount) = some (some (node, cpu)) ∧
      f.self.newTaskTid ≠ 0 ∧ f.self.pinCount[node]? = some n ∧
      g = pinTask env.kernel cpu ⟨f.self.pid, f.self.newTaskTid⟩
        { f with self.pinCount := f.self.pinCount.set node (n + 1) } := by
  obtain ⟨⟨new, self⟩, hnew, h⟩ := Option.bind_eq_some_iff.mp h
  obtain ⟨⟨new', pinCount⟩, hprop, hnew⟩ : ∃ r, getPinning env f.self.pid f.self.newTaskTid
      f.self.pinCount f.pinning = some r ∧ (r.1, { f.self with pinCount := r.2 }) = (new, self) := by
    unfold ControlStrategy.getPinning at hnew
    split at hnew
    · rename_i hk
      cases hk.symm.trans hkind
    · rename_i hk
      cases hk.symm.trans hkind
    · rename_i hk
      cases hk.symm.trans hkind
    · exact Option.map_eq_some_iff.mp hnew
  cases hnew
  have hsame : ∀ {g' : Frame D}, (List.range f.pinning.length).foldlM (applySlot env.kernel f.pinning) f = some g' →
      g' = f := fun hg => Option.some.inj (hg.symm.trans (applySlots_same env.kernel f))
  rw [getPinning] at hprop
  split at hprop
  · rename_i hzero
    cases hprop
    exact .inl ⟨.inl hzero, hsame h⟩
  · rename_i hzero
    obtain ⟨found, hfound, hprop⟩ := Option.bind_eq_some_iff.mp hprop
    cases found with
    | none =>
      cases hprop
      exact .inl ⟨.inr hfound, hsame h⟩
    | some x =>
      obtain ⟨node, cpu⟩ := x
      obtain ⟨count, hcount, hprop⟩ := Option.bind_eq_some_iff.mp hprop
      cases hprop
      obtain ⟨n, hn, rfl⟩ := addPinCount_eq_some hcount
      have ht : (⟨f.self.pid, f.self.newTaskTid⟩ : Task) ≠ emptyTask := fun he => hzero (congrArg Task.tid he)
      have hset := applySlots_set env.kernel { f with self.pinCount := f.self.pinCount.set node (n + 1) } cpu
        ⟨f.self.pid, f.self.newTaskTid⟩ (search_free hfound).2.2 ht
      exact .inr ⟨node, cpu, n, hfound, hzero, hn, Option.some.inj (h.symm.trans hset)⟩

/-- The effect of a creation that finds a CPU: one call, and one more on the node whatever the
call returns. -/
structure Placed (env : Env D) (tid : Int) (f g : Frame D) (node cpu : Nat) (ret : Int) : Prop where
  found : search env.cpu f.pinning (env.sort.order f.self.pinCount) = some (some (node, cpu))
  nonzero : tid ≠ 0
  call : g.host.affinity = ⟨tid, cpu, ret⟩ :: f.host.affinity
  answer : ret = env.kernel.schedSetaffinity f.host.clock tid cpu
  pinning : g.pinning = if ret = 0 then f.pinning.set cpu ⟨f.self.pid, tid⟩ else f.pinning
  pinCount : ∃ n, f.self.pinCount[node]? = some n ∧ g.self.pinCount = f.self.pinCount.set node (n + 1)

theorem slotTaskCreated_scatter {env : Env D} {tid : Int} {f g : Frame D} (hkind : f.self.kind = .scatter)
    (h : slotTaskCreated env tid f = some g) :
    ((tid = 0 ∨ search env.cpu f.pinning (env.sort.order f.self.pinCount) = some none) ∧
      g.pinning = f.pinning ∧ g.host = f.host ∧ g.self.pinCount = f.self.pinCount) ∨
    ∃ node cpu ret, Placed env tid f g node cpu ret := by
  rw [slotTaskCreated, hkind] at h
  obtain ⟨g', hg', h⟩ := Option.bind_eq_some_iff.mp h
  cases h
  rcases changePinning_scatter (f := { f.record (.created tid) with
      self.newTaskTid := tid, self.tasks := f.self.tasks ++ [tid] }) hkind hg' with
    ⟨hnone, rfl⟩ | ⟨node, cpu, n, hfound, htid, hn, rfl⟩
  · exact .inl ⟨hnone, rfl, rfl, rfl⟩
  · refine .inr ⟨node, cpu, _, hfound, htid, ?_, rfl, ?_, n, hn, ?_⟩
    · unfold pinTask
      split <;> rfl
    · unfold pinTask
      split
      · rename_i hret
        exact (if_neg hret).symm
      · rename_i hret
        exact (if_pos (not_not.mp hret)).symm
    · unfold pinTask
      split <;> rfl

theorem replace_of_getCpuByTask {p : Pinning} {t : Task} {cpu : Nat} (h : getCpuByTask p t = cpu) :
    p.replace t emptyTask = p.set cpu emptyTask := by
  unfold getCpuByTask at h
  split at h
  · rename_i i hi
    obtain rfl : i = cpu := by omega
    exact replace_eq_set hi emptyTask
  · omega

/-- The end of a pinned task frees its first slot and takes one from the node of that slot. -/
theorem slotTaskTerminated_scatter {env : Env D} {tid : Int} {f g : Frame D}
    (hkind : f.self.kind = .scatter) (h0 : f.self.newTaskTid = 0)
    (h : slotTaskTerminated env tid f = some g) :
    ∃ (node cpu : Nat) (n : Int), f.pinning[cpu]? = some ⟨f.self.pid, tid⟩ ∧ env.cpu.mapping[cpu]? = some (node : Int) ∧
      f.self.pinCount[node]? = some n ∧ g.host = f.host ∧
      g.pinning = f.pinning.set cpu emptyTask ∧ g.self.pinCount = f.self.pinCount.set node (n - 1) := by
  rw [slotTaskTerminated, hkind] at h
  obtain ⟨node, hnode, h⟩ := Option.bind_eq_some_iff.mp h
  obtain ⟨count, hcount, h⟩ := Option.bind_eq_some_iff.mp h
  have hnonneg : 0 ≤ node := ((addPinCount_isSome_iff _ _ _).mp (by rw [hcount]; rfl)).1
  obtain ⟨node, rfl⟩ := Int.eq_ofNat_of_zero_le hnonneg
  obtain ⟨n, hn, rfl⟩ := addPinCount_eq_some hcount
  rcases getCpuByTask_cases f.pinning ⟨f.self.pid, tid⟩ with ⟨-, hcpu⟩ | ⟨cpu, hat, hcpu⟩
  · -- `mapping[-1]` has no value
    simp [Frame.record, hcpu, CpuInfo.getNodeByCpu, subscript] at hnode
  · have hmap : env.cpu.mapping[cpu]? = some (node : Int) := by
      simpa [Frame.record, hcpu, CpuInfo.getNodeByCpu] using hnode
    rcases changePinning_scatter (f := { f.record (.terminated tid) with
        pinning := f.pinning.replace ⟨f.self.pid, tid⟩ emptyTask, self.tasks := f.self.tasks.erase tid,
        self.pinCount := f.self.pinCount.set node (n + -1) }) hkind h with ⟨-, rfl⟩ | ⟨_, _, _, -, htid, -⟩
    · exact ⟨node, cpu, n, hat, hmap, hn, rfl, replace_of_getCpuByTask hcpu, rfl⟩
    · exact absurd h0 htid

/-! ## The counters -/

/-- Writing one CPU moves the count of its own node only. -/
theorem onNode_set {c : CpuInfo} (pid : Int) {p : Pinning} {node cpu : Nat} {old : Task}
    (hmap : c.mapping[cpu]? = some (node : Int)) (hat : p[cpu]? = some old) (new : Task) (m : Nat) :
    onNode c pid (p.set cpu new) m + (if m = node ∧ old.pid = pid then 1 else 0) =
      onNode c pid p m + if m = node ∧ new.pid = pid then 1 else 0 := by
  have hmem : cpu ∈ c.getCpusByNode m ↔ m = node := by
    rw [CpuInfo.mem_getCpusByNode, hmap, Option.some.injEq, Int.ofNat_inj]
    exact eq_comm
  have h := owned_set Task.pid pid (c.getCpusByNode_nodup m) hat new
  simp only [hmem] at h
  exact h

theorem onNode_fill {c : CpuInfo} {pid : Int} (tid : Int) {p : Pinning} {node cpu : Nat} (hpid : pid ≠ 0)
    (hmap : c.mapping[cpu]? = some (node : Int)) (hfree : p[cpu]? = some emptyTask) (m : Nat) :
    onNode c pid (p.set cpu ⟨pid, tid⟩) m = onNode c pid p m + if m = node then 1 else 0 := by
  have hnot : ¬ emptyTask.pid = pid := fun he => hpid he.symm
  simpa [hnot] using onNode_set pid hmap hfree ⟨pid, tid⟩ m

theorem onNode_clear {c : CpuInfo} {pid tid : Int} {p : Pinning} {node cpu : Nat} (hpid : pid ≠ 0)
    (hmap : c.mapping[cpu]? = some (node : Int)) (hat : p[cpu]? = some ⟨pid, tid⟩) (m : Nat) :
    onNode c pid (p.set cpu emptyTask) m + (if m = node then 1 else 0) = onNode c pid p m := by
  have hnot : ¬ emptyTask.pid = pid := fun he => hpid he.symm
  simpa [hnot] using onNode_set pid hmap hat emptyTask m

theorem getD_set {v : List Int} {i : Nat} {n : Int} (hi : v[i]? = some n) (x : Int) (m : Nat) :
    (v.set i x).getD m 0 = v.getD m 0 + if m = i then x - n else 0 := by
  have hlt : i < v.length := (List.getElem?_eq_some_iff.mp hi).1
  by_cases hm : m = i
  · subst hm
    simp [List.getElem?_set_self hlt, hi]
  · simp [List.getElem?_set_ne (Ne.symm hm), hm]

/-- By how much a counter is ahead of the table. -/
def excess (c : CpuInfo) (f : Frame D) (node : Nat) : Int :=
  f.self.pinCount.getD node 0 - onNode c f.self.pid f.pinning node

/-- How many of the calls failed for a CPU of the node. -/
def failedOn (c : CpuInfo) (node : Nat) (calls : List AffinityCall) : Nat :=
  calls.countP (fun x => x.ret ≠ 0 ∧ c.getNodeByCpu x.cpu = some (node : Int))

/-- From `f` to `g` each counter has run ahead by the calls that failed on its node. All calls
were for CPUs of counted nodes. -/
structure Drifts (c : CpuInfo) (f g : Frame D) (calls : List AffinityCall) : Prop where
  affinity : g.host.affinity = calls ++ f.host.affinity
  excess : ∀ node, excess c g node = excess c f node + failedOn c node calls
  counted : ∀ x ∈ calls, ∃ node : Nat, node < f.self.pinCount.length ∧ c.getNodeByCpu x.cpu = some (node : Int)

theorem Drifts.of_eq {c : CpuInfo} {f g : Frame D} (hhost : g.host.affinity = f.host.affinity)
    (hexcess : ∀ node, Scatter.excess c g node = Scatter.excess c f node) : Drifts c f g [] :=
  ⟨hhost, fun node => by simp [hexcess, failedOn], fun x hx => absurd hx List.not_mem_nil⟩

theorem Drifts.trans {c : CpuInfo} {f g h : Frame D} {calls more : List AffinityCall}
    (hfg : Drifts c f g calls) (hgh : Drifts c g h more)
    (hlen : g.self.pinCount.length = f.self.pinCount.length) : Drifts c f h (more ++ calls) := by
  refine ⟨by rw [hgh.affinity, hfg.affinity, List.append_assoc], fun node => ?_, fun x hx => ?_⟩
  · rw [hgh.excess, hfg.excess, failedOn, failedOn, failedOn, List.countP_append]
    omega
  · rcases List.mem_append.mp hx with hx | hx
    · rw [← hlen]
      exact hgh.counted x hx
    · exact hfg.counted x hx

theorem slotTaskCreated_drifts {env : Env D} {tid : Int} {f g : Frame D} (hkind : f.self.kind = .scatter)
    (h0 : f.self.newTaskTid = 0) (hpid : f.self.pid ≠ 0) (h : slotTaskCreated env tid f = some g) :
    ∃ calls, Drifts env.cpu f g calls := by
  have hkeep : g.self.pid = f.self.pid := (slotTaskCreated_created h0 h).kept.pid
  rcases slotTaskCreated_scatter hkind h with ⟨-, hpin, hhost, hcount⟩ | ⟨node, cpu, ret, hplaced⟩
  · exact ⟨[], .of_eq (by rw [hhost]) (fun node => by simp [excess, hpin, hcount, hkeep])⟩
  · obtain ⟨-, hmap, hfree⟩ := search_free hplaced.found
    obtain ⟨n, hn, hcount⟩ := hplaced.pinCount
    have hnode : ∀ m : Nat, env.cpu.getNodeByCpu cpu = some (m : Int) ↔ m = node := by
      intro m
      rw [CpuInfo.getNodeByCpu, subscript_natCast, hmap, Option.some.injEq, Int.ofNat_inj]
      exact eq_comm
    refine ⟨[⟨tid, cpu, ret⟩], hplaced.call, fun m => ?_, fun x hx => ?_⟩
    · rw [excess, hcount, getD_set hn, hkeep, hplaced.pinning, excess, failedOn, List.countP_singleton]
      simp only [hnode, decide_eq_true_eq]
      by_cases hret : ret = 0
      · rw [if_pos hret, onNode_fill tid hpid hmap hfree]
        by_cases hm : m = node <;> simp [hret, hm]
      · rw [if_neg hret]
        by_cases hm : m = node
        · simp [hret, hm]
          omega
        · simp [hm]
    · rw [List.mem_singleton.mp hx]
      exact ⟨node, (List.getElem?_eq_some_iff.mp hn).1, (hnode node).mpr rfl⟩

theorem slotTaskTerminated_drifts {env : Env D} {tid : Int} {f g : Frame D}
    (hkind : f.self.kind = .scatter) (h0 : f.self.newTaskTid = 0) (hpid : f.self.pid ≠ 0)
    (h : slotTaskTerminated env tid f = some g) : Drifts env.cpu f g [] := by
  have hkeep : g.self.pid = f.self.pid := (slotTaskTerminated_terminated h0 h).kept.pid
  obtain ⟨node, cpu, n, hat, hmap, hn, hhost, hpin, hcount⟩ := slotTaskTerminated_scatter hkind h0 h
  refine .of_eq (by rw [hhost]) (fun m => ?_)
  have hclear := onNode_clear hpid hmap hat m
  rw [excess, hcount, getD_set hn, hkeep, hpin, excess]
  by_cases hm : m = node <;> simp [hm] at hclear ⊢ <;> omega

theorem slotCalls_drifts {env : Env D} {calls : List SlotCall} {f g : Frame D}
    (hkind : f.self.kind = .scatter) (h0 : f.self.newTaskTid = 0) (hpid : f.self.pid ≠ 0)
    (h : calls.foldlM (slotCall env) f = some g) : ∃ made, Drifts env.cpu f g made := by
  refine (foldlM_invariant (fun g => Confined f g ∧ ∃ made, Drifts env.cpu f g made) calls ?_
    ⟨.refl f, [], .of_eq rfl (fun _ => rfl)⟩ h).2
  rintro f' call g' - ⟨hconf, made, hdrift⟩ hstep
  have h0' := hconf.kept.newTaskTid.trans h0
  have hkind' := hconf.kept.kind.trans hkind
  have hpid' : f'.self.pid ≠ 0 := hconf.kept.pid ▸ hpid
  refine ⟨hconf.trans (slotCall_confined h0' hstep), ?_⟩
  cases call with
  | created tid =>
    obtain ⟨more, hmore⟩ := slotTaskCreated_drifts hkind' h0' hpid' hstep
    exact ⟨_, hdrift.trans hmore hconf.kept.counts⟩
  | terminated tid =>
    exact ⟨_, hdrift.trans (slotTaskTerminated_drifts hkind' h0' hpid' hstep) hconf.kept.counts⟩

theorem act_drifts {env : Env D} {e : Event} {f g : Frame D} (hkind : f.self.kind = .scatter)
    (h0 : f.self.newTaskTid = 0) (hpid : f.self.pid ≠ 0) (h : e.act env f = some g) :
    ∃ made, Drifts env.cpu f g made := by
  rw [Event.act_eq_calls] at h
  cases e with
  | slot k call => exact slotCalls_drifts hkind h0 hpid h
  | timer k scan ord =>
    have hrefresh : Drifts env.cpu f (refreshTasks scan f) [] := .of_eq rfl (fun _ => rfl)
    obtain ⟨made, hmade⟩ := slotCalls_drifts (f := refreshTasks scan f) hkind h0 hpid h
    exact ⟨_, hrefresh.trans hmade rfl⟩

end Scatter

/-! ## Exact counters -/

namespace System

theorem Ready.index_eq {s : System D} (hs : s.Ready) {i k : Nat} {a b : Strategy D}
    (ha : s.strategies[i]? = some a) (hb : s.strategies[k]? = some b) (hpid : a.pid = b.pid) : i = k := by
  have hlt : i < (s.strategies.map Strategy.pid).length := by
    rw [List.length_map]
    exact (List.getElem?_eq_some_iff.mp ha).1
  apply (List.getElem?_inj hlt hs.pids).mp
  rw [List.getElem?_map, List.getElem?_map, ha, hb, Option.map_some, Option.map_some, hpid]

/-- The `setAffinity` calls made while strategy `k` was acting, the latest first. -/
def callsOf (env : Env D) (k : Nat) : System D → List Event → List AffinityCall
  | _, [] => []
  | s, e :: es =>
    match step env s e with
    | none => []
    | some t => callsOf env k t es ++
        if e.receiver = k then t.host.affinity.take (t.host.affinity.length - s.host.affinity.length) else []

/-- A step moves the counters of a Scatter strategy away from the table by its failed calls. -/
theorem step_excess {env : Env D} {s t : System D} {e : Event} {k : Nat} {self : Strategy D} (hs : s.Ready)
    (hself : s.strategies[k]? = some self) (hkind : self.kind = .scatter) (h : step env s e = some t) :
    ∃ self', t.strategies[k]? = some self' ∧ Kept self self' ∧
      (∀ node, Scatter.excess env.cpu (t.frame self') node =
        Scatter.excess env.cpu (s.frame self) node + Scatter.failedOn env.cpu node (callsOf env k s [e])) ∧
      ∀ x ∈ callsOf env k s [e], ∃ node : Nat, node < self.pinCount.length ∧
        env.cpu.getNodeByCpu x.cpu = some (node : Int) := by
  have hcalls := h
  obtain ⟨actor, f, hactor, hf, rfl, hconf⟩ := step_confined hs h
  have hpid : self.pid ≠ 0 := hs.nonzero self (List.mem_of_getElem? hself)
  by_cases hk : e.receiver = k
  · rw [hk] at hactor
    obtain rfl : actor = self := Option.some.inj (hactor.symm.trans hself)
    have hlt : k < s.strategies.length := (List.getElem?_eq_some_iff.mp hself).1
    obtain ⟨made, hmade⟩ := Scatter.act_drifts hkind (hs.idle actor (List.mem_of_getElem? hself)) hpid hf
    have hmadeBy : callsOf env k s [e] = made := by
      rw [callsOf, hcalls]
      simp [callsOf, hk, hmade.affinity, frame]
    refine ⟨f.self, by rw [hk]; exact List.getElem?_set_self hlt, hconf.kept, ?_, ?_⟩
    · rw [hmadeBy]
      exact hmade.excess
    · rw [hmadeBy]
      exact hmade.counted
  · have hnone : callsOf env k s [e] = [] := by
      rw [callsOf, hcalls]
      simp [callsOf, hk]
    have hne : actor.pid ≠ self.pid := fun he => hk (hs.index_eq hactor hself he)
    refine ⟨self, by rw [List.getElem?_set_ne hk]; exact hself, .refl self, ?_, by simp [hnone]⟩
    intro node
    rw [hnone]
    have hcount : onNode env.cpu self.pid f.pinning node = onNode env.cpu self.pid s.pinning node :=
      hconf.onlyOwn.owned_eq hne (fun he => hpid he.symm) _
    simp [Scatter.excess, Scatter.failedOn, frame, hcount]

theorem callsOf_cons {env : Env D} {k : Nat} {s t : System D} {e : Event} (h : step env s e = some t)
    (es : List Event) : callsOf env k s (e :: es) = callsOf env k t es ++ callsOf env k s [e] := by
  simp [callsOf, h]

/-- Along a run the counters move away from the table by the failed calls, and never back. -/
theorem run_excess {env : Env D} {s t : System D} {es : List Event} {k : Nat} {self : Strategy D}
    (hs : s.Ready) (hself : s.strategies[k]? = some self) (hkind : self.kind = .scatter)
    (h : run (step env) s es = some t) :
    ∃ self', t.strategies[k]? = some self' ∧ Kept self self' ∧
      (∀ node, Scatter.excess env.cpu (t.frame self') node =
        Scatter.excess env.cpu (s.frame self) node + Scatter.failedOn env.cpu node (callsOf env k s es)) ∧
      ∀ x ∈ callsOf env k s es, ∃ node : Nat, node < self.pinCount.length ∧
        env.cpu.getNodeByCpu x.cpu = some (node : Int) := by
  induction es generalizing s self with
  | nil =>
    cases h
    exact ⟨self, hself, .refl self, by simp [callsOf, Scatter.failedOn], by simp [callsOf]⟩
  | cons e es ih =>
    rw [run_cons] at h
    obtain ⟨u, hu, h⟩ := Option.bind_eq_some_iff.mp h
    obtain ⟨mid, hmid, hkept, hexcess, hcounted⟩ := step_excess hs hself hkind hu
    obtain ⟨self', hself', hkept', hexcess', hcounted'⟩ :=
      ih (step_ready hs hu) hmid (hkept.kind.trans hkind) h
    rw [callsOf_cons hu]
    refine ⟨self', hself', hkept.trans hkept', fun node => ?_, fun x hx => ?_⟩
    · rw [hexcess', hexcess, Scatter.failedOn, Scatter.failedOn, Scatter.failedOn, List.countP_append]
      omega
    · rcases List.mem_append.mp hx with hx | hx
      · rw [← hkept.counts]
        exact hcounted' x hx
      · exact hcounted x hx

/-- Each counter of the strategy is the number of slots on its node that hold a task of the
process. -/
def CountsExact (c : CpuInfo) (s : System D) (self : Strategy D) : Prop :=
  ∀ (node : Nat) (n : Int), self.pinCount[node]? = some n → n = onNode c self.pid s.pinning node

theorem excess_frame {c : CpuInfo} {s : System D} {self : Strategy D} {node : Nat} {n : Int}
    (hn : self.pinCount[node]? = some n) :
    Scatter.excess c (s.frame self) node = n - onNode c self.pid s.pinning node := by
  simp [Scatter.excess, frame, hn]

theorem countsExact_iff {c : CpuInfo} {s : System D} {self : Strategy D} :
    s.CountsExact c self ↔ ∀ node < self.pinCount.length, Scatter.excess c (s.frame self) node = 0 := by
  constructor
  · intro h node hnode
    have hn := List.getElem?_eq_getElem hnode
    rw [excess_frame hn, h node _ hn, Int.sub_self]
  · intro h node n hn
    have hzero := h node (List.getElem?_eq_some_iff.mp hn).1
    rw [excess_frame hn] at hzero
    omega

/-- In a run of a Scatter strategy with any others the counters of its nodes are exact if and only
if every `setAffinity` call it has made so far has succeeded. -/
theorem run_countsExact_iff (env : Env D) (s t : System D) (es : List Event) (k : Nat)
    (self self' : Strategy D) (hs : s.Ready) (hself : s.strategies[k]? = some self)
    (hkind : self.kind = .scatter) (hexact : s.CountsExact env.cpu self)
    (hrun : run (step env) s es = some t) (hself' : t.strategies[k]? = some self') :
    t.CountsExact env.cpu self' ↔ ∀ call ∈ callsOf env k s es, call.ret = 0 := by
  obtain ⟨final, hfinal, hkept, hexcess, hcounted⟩ := run_excess hs hself hkind hrun
  obtain rfl : final = self' := Option.some.inj (hfinal.symm.trans hself')
  rw [countsExact_iff, hkept.counts]
  rw [countsExact_iff] at hexact
  constructor
  · intro hzero call hcall
    obtain ⟨node, hnode, hcpu⟩ := hcounted call hcall
    have h := hexcess node
    rw [hzero node hnode, hexact node hnode] at h
    have hnone : Scatter.failedOn env.cpu node (callsOf env k s es) = 0 := by omega
    have := List.countP_eq_zero.mp hnone call hcall
    simpa [hcpu] using this
  · intro hok node hnode
    have hnone : Scatter.failedOn env.cpu node (callsOf env k s es) = 0 := by
      apply List.countP_eq_zero.mpr
      intro call hcall
      simp [hok call hcall]
    rw [hexcess, hexact node hnode, hnone]
    rfl

/-- One CPU, where no task can be pinned. -/
def noAffinity : Env Int :=
  { Env.oneCpu with kernel := { Kernel.succeeding with schedSetaffinity := fun _ _ _ => -1 } }

/-- The task is counted although its call has failed. -/
theorem oneScatter_drifted :
    ∃ t self', run (step noAffinity) oneScatter [.slot 0 (.created 10)] = some t ∧
      t.strategies[0]? = some self' ∧ self'.pinCount = [1] ∧ onNode noAffinity.cpu 10 t.pinning 0 = 0 ∧
      ¬ t.CountsExact noAffinity.cpu self' := by
  refine ⟨_, _, rfl, rfl, rfl, by decide, fun h => ?_⟩
  exact absurd (h 0 1 rfl) (by decide)

/-- Where the calls succeed the counters follow the table. -/
theorem oneScatter_exact :
    ∃ t self', run (step .oneCpu) oneScatter [.slot 0 (.created 10)] = some t ∧
      t.strategies[0]? = some self' ∧ t.CountsExact Env.oneCpu.cpu self' := by
  refine ⟨_, _, rfl, rfl, ?_⟩
  refine (run_countsExact_iff .oneCpu oneScatter _ [.slot 0 (.created 10)] 0
    { kind := .scatter, pid := 10, pinCount := [0] } _ oneScatter_onMachine.toReady rfl rfl ?_ rfl rfl).mpr
      (by decide)
  intro node n hn
  cases node with
  | zero => cases hn; decide
  | succ node => cases hn

end System

/-! ## Balance -/

/-- A CPU of the node is free. -/
def HasFree (c : CpuInfo) (p : Pinning) (node : Nat) : Prop :=
  ∃ cpu : Nat, c.mapping[cpu]? = some (node : Int) ∧ p[cpu]? = some emptyTask

/-- No node has two tasks of the process more than a node with a free CPU. -/
def Balanced (c : CpuInfo) (pid : Int) (p : Pinning) : Prop :=
  ∀ a b : Nat, HasFree c p b → onNode c pid p a ≤ onNode c pid p b + 1

namespace Scatter

theorem findFree_none {cur : Pinning} {cpus : List Nat} (h : findFree cur cpus = some none) :
    ∀ cpu ∈ cpus, cur[cpu]? ≠ some emptyTask := by
  induction cpus with
  | nil => simp
  | cons x rest ih =>
    simp only [findFree, Option.bind_eq_bind, Option.bind_eq_some_iff] at h
    obtain ⟨task, htask, h⟩ := h
    split at h
    · cases h
    · rename_i hfree
      rw [List.forall_mem_cons]
      refine ⟨fun he => hfree ?_, ih h⟩
      rw [Task.isCpuFree_iff]
      exact Option.some.inj (htask.symm.trans he)

theorem not_hasFree_of_findFree {c : CpuInfo} {cur : Pinning} {node : Nat}
    (h : findFree cur (c.getCpusByNode node) = some none) : ¬ HasFree c cur node := by
  rintro ⟨cpu, hmap, hfree⟩
  exact findFree_none h cpu ((c.mem_getCpusByNode _ _).mpr hmap) hfree

/-- The search stops at the first node that has a free CPU. -/
theorem search_first {c : CpuInfo} {cur : Pinning} {nodes : List Nat} {node cpu : Nat} {R : Nat → Nat → Prop}
    (hR : nodes.Pairwise R) (h : search c cur nodes = some (some (node, cpu))) :
    ∀ b ∈ nodes, HasFree c cur b → b = node ∨ R node b := by
  induction nodes with
  | nil => simp
  | cons x rest ih =>
    obtain ⟨hx, hrest⟩ := List.pairwise_cons.mp hR
    simp only [search, Option.bind_eq_bind, Option.bind_eq_some_iff] at h
    obtain ⟨found, hfound, h⟩ := h
    cases found with
    | none =>
      rw [List.forall_mem_cons]
      exact ⟨fun hfree => absurd hfree (not_hasFree_of_findFree hfound), ih hrest h⟩
    | some y =>
      cases h
      intro b hb _
      rcases List.mem_cons.mp hb with rfl | hb
      · exact .inl rfl
      · exact .inr (hx b hb)

/-- What a Scatter strategy keeps up while tasks are only created. -/
structure Even (c : CpuInfo) (f : Frame D) : Prop where
  dense : c.Dense f.pinning.length
  length : f.self.pinCount.length = c.getNodeCount
  exact : ∀ (node : Nat) (n : Int), f.self.pinCount[node]? = some n → n = onNode c f.self.pid f.pinning node
  balanced : Balanced c f.self.pid f.pinning

/-- Other strategies may take free CPUs, and leave the counts of this process. -/
theorem Even.of_others {c : CpuInfo} {f g : Frame D} (h : Even c f) (hself : g.self = f.self)
    (hlen : g.pinning.length = f.pinning.length)
    (hcount : ∀ node, onNode c f.self.pid g.pinning node = onNode c f.self.pid f.pinning node)
    (hfree : ∀ i : Nat, g.pinning[i]? = some emptyTask → f.pinning[i]? = some emptyTask) : Even c g := by
  refine ⟨?_, ?_, ?_, ?_⟩
  · rw [hlen]
    exact h.dense
  · rw [hself]
    exact h.length
  · intro node n hn
    rw [hself] at hn ⊢
    rw [hcount]
    exact h.exact node n hn
  · rintro a b ⟨cpu, hmap, hcpu⟩
    rw [hself, hcount, hcount]
    exact h.balanced a b ⟨cpu, hmap, hfree cpu hcpu⟩

/-- The node of a CPU has a counter. -/
theorem Even.counted {c : CpuInfo} {f : Frame D} (h : Even c f) {cpu node : Nat}
    (hmap : c.mapping[cpu]? = some (node : Int)) :
    node < f.self.pinCount.length := by
  have := (h.dense.nodes node (List.mem_of_getElem? hmap)).2
  rw [h.length, CpuInfo.getNodeCount]
  omega

theorem Even.getD {c : CpuInfo} {f : Frame D} (h : Even c f) {node : Nat}
    (hlt : node < f.self.pinCount.length) :
    f.self.pinCount.getD node 0 = onNode c f.self.pid f.pinning node := by
  have hn := List.getElem?_eq_getElem hlt
  rw [List.getD_eq_getElem?_getD, hn, Option.getD_some]
  exact h.exact node _ hn

/-- The node that gets a task has no more of them than any other node with a free CPU. -/
theorem Even.found_le {env : Env D} {f : Frame D} (h : Even env.cpu f) {node cpu : Nat}
    (hfound : search env.cpu f.pinning (env.sort.order f.self.pinCount) = some (some (node, cpu)))
    {b : Nat} (hb : HasFree env.cpu f.pinning b) :
    onNode env.cpu f.self.pid f.pinning node ≤ onNode env.cpu f.self.pid f.pinning b := by
  obtain ⟨i, hmap, hfree⟩ := hb
  have hblt := h.counted hmap
  have hmem : b ∈ env.sort.order f.self.pinCount :=
    (env.sort.perm _).mem_iff.mpr (List.mem_range.mpr hblt)
  have hnode : node < f.self.pinCount.length :=
    List.mem_range.mp ((env.sort.perm _).mem_iff.mp (search_free hfound).1)
  rcases search_first (env.sort.sorted _) hfound b hmem ⟨i, hmap, hfree⟩ with rfl | hle
  · exact Nat.le_refl _
  · rw [h.getD hnode, h.getD hblt] at hle
    omega

theorem hasFree_of_set {c : CpuInfo} {p : Pinning} {cpu b : Nat} {t : Task} (ht : t ≠ emptyTask)
    (h : HasFree c (p.set cpu t) b) : HasFree c p b := by
  obtain ⟨i, hmap, hfree⟩ := h
  rcases getElem?_set_cases hfree with ⟨-, he⟩ | ⟨-, hfree⟩
  · exact absurd he.symm ht
  · exact ⟨i, hmap, hfree⟩

theorem slotTaskCreated_even {env : Env D} {tid : Int} {f g : Frame D} (hf : Even env.cpu f)
    (hk : ∀ n tid cpu, env.kernel.schedSetaffinity n tid cpu = 0) (hkind : f.self.kind = .scatter)
    (h0 : f.self.newTaskTid = 0) (hpid : f.self.pid ≠ 0) (h : slotTaskCreated env tid f = some g) :
    Even env.cpu g := by
  have hkept := (slotTaskCreated_created h0 h).kept
  rcases slotTaskCreated_scatter hkind h with ⟨-, hpin, -, hcount⟩ | ⟨node, cpu, ret, hplaced⟩
  · refine ⟨by rw [hpin]; exact hf.dense, by rw [hcount]; exact hf.length, ?_, ?_⟩
    · rw [hcount, hpin, hkept.pid]
      exact hf.exact
    · rw [hpin, hkept.pid]
      exact hf.balanced
  · obtain ⟨-, hmap, hfree⟩ := search_free hplaced.found
    obtain ⟨n, hn, hcount⟩ := hplaced.pinCount
    have hpin := hplaced.pinning
    rw [if_pos (hplaced.answer.trans (hk _ _ _))] at hpin
    have ht : (⟨f.self.pid, tid⟩ : Task) ≠ emptyTask := fun he => hpid (congrArg Task.pid he)
    have hfill := onNode_fill tid hpid hmap hfree
    refine ⟨by rw [hpin, List.length_set]; exact hf.dense, hkept.counts.trans hf.length, ?_, ?_⟩
    · intro m x hx
      rw [hpin, hkept.pid, hfill]
      rw [hcount] at hx
      rcases getElem?_set_cases hx with ⟨rfl, rfl⟩ | ⟨hm, hx⟩
      · simp [hf.exact m n hn]
      · simp [hm, hf.exact m x hx]
    · intro a b hb
      rw [hpin] at hb
      have hb := hasFree_of_set ht hb
      have hle := hf.found_le hplaced.found hb
      have hold := hf.balanced a b hb
      rw [hpin, hkept.pid, hfill, hfill]
      by_cases ha : a = node
      · subst ha
        rw [if_pos rfl]
        omega
      · rw [if_neg ha]
        omega

theorem createdCalls_even {env : Env D} {calls : List SlotCall} {f g : Frame D} (hf : Even env.cpu f)
    (hk : ∀ n tid cpu, env.kernel.schedSetaffinity n tid cpu = 0) (hkind : f.self.kind = .scatter)
    (h0 : f.self.newTaskTid = 0) (hpid : f.self.pid ≠ 0) (hcalls : ∀ tid, .terminated tid ∉ calls)
    (h : calls.foldlM (slotCall env) f = some g) : Even env.cpu g := by
  refine (foldlM_invariant (fun g => Confined f g ∧ Even env.cpu g) calls ?_ ⟨.refl f, hf⟩ h).2
  rintro f' call g' hcall ⟨hconf, heven⟩ hstep
  have h0' := hconf.kept.newTaskTid.trans h0
  refine ⟨hconf.trans (slotCall_confined h0' hstep), ?_⟩
  cases call with
  | created tid =>
    exact slotTaskCreated_even heven hk (hconf.kept.kind.trans hkind) h0' (hconf.kept.pid ▸ hpid) hstep
  | terminated tid => exact absurd hcall (hcalls tid)

end Scatter

namespace ControlStrategy

/-- Creations leave no slot free that was not. -/
theorem createdCalls_free {env : Env D} {calls : List SlotCall} {f g : Frame D}
    (h0 : f.self.newTaskTid = 0) (hcalls : ∀ tid, .terminated tid ∉ calls)
    (h : calls.foldlM (slotCall env) f = some g) {i : Nat} (hi : g.pinning[i]? = some emptyTask) :
    f.pinning[i]? = some emptyTask := by
  refine (foldlM_invariant (fun g => Confined f g ∧
    (g.pinning[i]? = some emptyTask → f.pinning[i]? = some emptyTask)) calls ?_ ⟨.refl f, id⟩ h).2 hi
  rintro f' call g' hcall ⟨hconf, hfree⟩ hstep
  have h0' := hconf.kept.newTaskTid.trans h0
  refine ⟨hconf.trans (slotCall_confined h0' hstep), fun hi => hfree ?_⟩
  cases call with
  | terminated tid => exact absurd hcall (hcalls tid)
  | created tid =>
    rcases (slotTaskCreated_created h0' hstep).table with ⟨hp, -⟩ | ⟨j, ret, -, htid, -, hp⟩
    · exact hp ▸ hi
    · rw [hp] at hi
      split at hi
      · rcases getElem?_set_cases hi with ⟨-, he⟩ | ⟨-, hi⟩
        · exact absurd (congrArg Task.tid he).symm htid
        · exact hi
      · exact hi

end ControlStrategy

namespace System

/-- The event makes its receiver create tasks only. -/
def Creates (s : System D) (e : Event) : Prop :=
  ∀ self, s.strategies[e.receiver]? = some self → ∀ tid, .terminated tid ∉ e.calls self

/-- Creations keep a Scatter strategy even, its own and those of the others. -/
theorem step_even {env : Env D} {s t : System D} {e : Event} {k : Nat} {self : Strategy D} (hs : s.Ready)
    (hk : ∀ n tid cpu, env.kernel.schedSetaffinity n tid cpu = 0) (hok : s.Creates e)
    (hself : s.strategies[k]? = some self) (hkind : self.kind = .scatter)
    (heven : Scatter.Even env.cpu (s.frame self)) (h : step env s e = some t) :
    ∃ self', t.strategies[k]? = some self' ∧ Kept self self' ∧ Scatter.Even env.cpu (t.frame self') := by
  obtain ⟨actor, f, hactor, hf, rfl, hconf⟩ := step_confined hs h
  have hmem := List.mem_of_getElem? hactor
  have hpid : self.pid ≠ 0 := hs.nonzero self (List.mem_of_getElem? hself)
  have hcreates := hok actor hactor
  rw [Event.act_eq_calls] at hf
  by_cases hrec : e.receiver = k
  · rw [hrec] at hactor ⊢
    obtain rfl : actor = self := Option.some.inj (hactor.symm.trans hself)
    have hlt : k < s.strategies.length := (List.getElem?_eq_some_iff.mp hself).1
    refine ⟨f.self, List.getElem?_set_self hlt, hconf.kept, ?_⟩
    cases e with
    | slot i call => exact Scatter.createdCalls_even heven hk hkind (hs.idle actor hmem) hpid hcreates hf
    | timer i scan ord =>
      have hprep : Scatter.Even env.cpu (refreshTasks scan (s.frame actor)) :=
        ⟨heven.dense, heven.length, heven.exact, heven.balanced⟩
      exact Scatter.createdCalls_even hprep hk hkind (hs.idle actor hmem) hpid hcreates hf
  · have hne : actor.pid ≠ self.pid := fun he => hrec (hs.index_eq hactor hself he)
    have hcount : ∀ node, onNode env.cpu self.pid f.pinning node = onNode env.cpu self.pid s.pinning node :=
      fun node => hconf.onlyOwn.owned_eq hne (fun he => hpid he.symm) _
    have hfree : ∀ i : Nat, f.pinning[i]? = some emptyTask → s.pinning[i]? = some emptyTask := by
      intro i hi
      cases e with
      | slot j call => exact createdCalls_free (hs.idle actor hmem) hcreates hf hi
      | timer j scan ord =>
        exact createdCalls_free (f := refreshTasks scan (s.frame actor)) (hs.idle actor hmem) hcreates hf hi
    refine ⟨self, by rw [List.getElem?_set_ne hrec]; exact hself, .refl self, ?_⟩
    exact heven.of_others rfl hconf.onlyOwn.length hcount hfree

/-- While tasks are only created and every `setAffinity` call succeeds, a Scatter strategy balances
its process over the nodes of a dense machine, whatever the others do: no node has two tasks more
than a node with a free CPU. -/
theorem run_balanced (env : Env D) (s t : System D) (es : List Event) (k : Nat) (self : Strategy D)
    (hs : s.Ready) (hdense : env.cpu.Dense s.pinning.length)
    (hk : ∀ n tid cpu, env.kernel.schedSetaffinity n tid cpu = 0)
    (hself : s.strategies[k]? = some self) (hkind : self.kind = .scatter)
    (hcount : self.pinCount = List.replicate env.cpu.getNodeCount 0)
    (hnone : ∀ task ∈ s.pinning, task.pid ≠ self.pid)
    (hok : Admitted (step env) Creates s es) (hrun : run (step env) s es = some t) :
    ∀ a b : Nat, HasFree env.cpu t.pinning b →
      onNode env.cpu self.pid t.pinning a ≤ onNode env.cpu self.pid t.pinning b + 1 := by
  have hzero : ∀ node, onNode env.cpu self.pid s.pinning node = 0 := by
    intro node
    apply List.countP_eq_zero.mpr
    intro cpu _ hany
    cases htask : s.pinning[cpu]? with
    | none => simp [htask] at hany
    | some task => exact hnone task (List.mem_of_getElem? htask) (by simpa [htask] using hany)
  have heven : Scatter.Even env.cpu (s.frame self) := by
    refine ⟨hdense, by simp [frame, hcount], ?_, ?_⟩
    · intro node n hn
      have hn : (List.replicate env.cpu.getNodeCount (0 : Int))[node]? = some n := hcount ▸ hn
      rw [List.getElem?_replicate] at hn
      split at hn
      · cases hn
        simp [frame, hzero]
      · cases hn
    · intro a b _
      simp [frame, hzero]
  have hinv := run_invariant (fun t => t.Ready ∧ ∃ self', t.strategies[k]? = some self' ∧
      Kept self self' ∧ Scatter.Even env.cpu (t.frame self')) ?_ ⟨hs, self, hself, .refl self, heven⟩ hok hrun
  · obtain ⟨-, self', -, hkept, heven'⟩ := hinv
    intro a b hb
    have h := heven'.balanced a b hb
    rw [frame, hkept.pid] at h
    exact h
  · rintro u e v ⟨hu, mid, hmid, hkept, hev⟩ hcreates hstep
    obtain ⟨self', hself', hkept', hev'⟩ := step_even hu hk hcreates hmid (hkept.kind.trans hkind) hev hstep
    exact ⟨step_ready hu hstep, self', hself', hkept.trans hkept', hev'⟩

/-- Three CPUs on each of two nodes. -/
def threePerNode : Env Int where
  kernel := .succeeding
  cpu := { mapping := [0, 0, 0, 1, 1, 1], distances := [[10, 20], [20, 10]] }
  sort := .insertion

/-- A Scatter strategy beside a Compact one. -/
def compactAndScatter : System Int where
  pinning := List.replicate 6 emptyTask
  host := {}
  strategies := [{ kind := .compact, pid := 10 }, { kind := .scatter, pid := 20, pinCount := [0, 0] }]

theorem compactAndScatter_initial : compactAndScatter.Initial := by
  refine ⟨⟨?_, ?_, ?_⟩, ?_, ?_⟩ <;> simp [compactAndScatter]

/-- The process of the Scatter strategy gets three tasks, the other one a task in between. -/
def fourCreations : List Event :=
  [.slot 1 (.created 20), .slot 0 (.created 10), .slot 1 (.created 21), .slot 1 (.created 22)]

theorem fourCreations_balanced :
    ∃ t, run (step threePerNode) compactAndScatter fourCreations = some t ∧
      t.pinning.countP (fun task => task.pid = 20) = 3 ∧ HasFree threePerNode.cpu t.pinning 1 ∧
      onNode threePerNode.cpu 20 t.pinning 0 ≤ onNode threePerNode.cpu 20 t.pinning 1 + 1 := by
  have hpin : (run (step threePerNode) compactAndScatter fourCreations).map System.pinning =
      some [⟨20, 20⟩, ⟨10, 10⟩, ⟨20, 22⟩, ⟨20, 21⟩, emptyTask, emptyTask] := by decide
  obtain ⟨t, ht, hpin⟩ := Option.map_eq_some_iff.mp hpin
  have hfree : HasFree threePerNode.cpu t.pinning 1 := by
    rw [hpin]
    exact ⟨4, rfl, rfl⟩
  have hcreates : Admitted (step threePerNode) Creates compactAndScatter fourCreations := by
    refine ⟨?_, fun _ _ => ⟨?_, fun _ _ => ⟨?_, fun _ _ => ⟨?_, fun _ _ => trivial⟩⟩⟩⟩ <;>
    · intro self _ tid
      simp [Event.calls]
  refine ⟨t, ht, by rw [hpin]; rfl, hfree, ?_⟩
  refine run_balanced threePerNode compactAndScatter t fourCreations 1
    { kind := .scatter, pid := 20, pinCount := [0, 0] } compactAndScatter_initial.toReady ?_ (fun _ _ _ => rfl)
    rfl rfl rfl (by decide) hcreates ht 0 1 hfree
  exact ⟨rfl, by decide, by decide⟩

end System

end AutopinPlus
