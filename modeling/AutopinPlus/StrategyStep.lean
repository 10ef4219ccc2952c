import AutopinPlus.ControlStrategy

/-!
# What one slot of a strategy can do

Every later invariant of the table rests on two facts proved here: a created task
takes at most one slot, which was free, through one `setAffinity` call; a
terminated task gives back at most one slot and calls nothing.
-/
namespace AutopinPlus

open PartialStep (foldlM_invariant foldlM_isSome)

variable {D : Type}

/-! ## Proposals of `getPinning` -/

/-- The proposal is the table itself, or puts the new task on one free CPU. -/
def Proposes (cur new : Pinning) (t : Task) : Prop :=
  new = cur ∨ ∃ j, cur[j]? = some emptyTask ∧ t.tid ≠ 0 ∧ new = cur.set j t

/-- No CPU is chosen yet, or the chosen one is free. -/
def Chosen (cur : Pinning) (acc : Nat × Int) : Prop :=
  acc.2 = -1 ∨ ∃ j : Nat, acc.2 = j ∧ cur[j]? = some emptyTask

namespace Compact

theorem compare_chosen {c : CpuInfo} {pid : Int} {cur : Pinning} {i : Nat}
    (hi : cur[i]? = some emptyTask) {acc acc' : Nat × Int} {j : Nat} (h : Chosen cur acc)
    (hc : compare c pid cur i acc j = some acc') : Chosen cur acc' := by
  simp only [compare, Option.bind_eq_bind, Option.bind_eq_some_iff] at hc
  obtain ⟨task, _, hc⟩ := hc
  split at hc
  · obtain ⟨d, _, hc⟩ := Option.bind_eq_some_iff.mp hc
    split at hc <;> cases hc
    · exact .inr ⟨i, rfl, hi⟩
    · exact h
  · cases hc
    exact h

theorem consider_chosen {c : CpuInfo} {pid : Int} {cur : Pinning} {acc acc' : Nat × Int} {i : Nat}
    (h : Chosen cur acc) (hc : consider c pid cur acc i = some acc') : Chosen cur acc' := by
  simp only [consider, Option.bind_eq_bind, Option.bind_eq_some_iff] at hc
  obtain ⟨task, htask, hc⟩ := hc
  split at hc
  · rename_i hfree
    have hi : cur[i]? = some emptyTask := by rw [htask, (Task.isCpuFree_iff task).mp hfree]
    refine foldlM_invariant (Chosen cur) _ (fun _ _ _ _ hs => compare_chosen hi hs) ?_ hc
    split
    · exact .inr ⟨i, rfl, hi⟩
    · exact h
  · cases hc
    exact h

theorem getPinning_proposes {c : CpuInfo} {pid tid : Int} {cur new : Pinning}
    (h : getPinning c pid tid cur = some new) : Proposes cur new ⟨pid, tid⟩ := by
  unfold getPinning at h
  split at h
  · cases h
    exact .inl rfl
  · rename_i htid
    obtain ⟨acc, hacc, h⟩ := Option.bind_eq_some_iff.mp h
    have hch : Chosen cur acc := foldlM_invariant (Chosen cur) _
      (fun _ _ _ _ hs => consider_chosen hs) (.inl rfl) hacc
    split at h <;> cases h
    · exact .inl rfl
    · rename_i hpos
      obtain hneg | ⟨j, hj, hfree⟩ := hch
      · exact absurd hneg hpos
      · refine .inr ⟨j, hfree, htid, ?_⟩
        rw [hj, Int.toNat_natCast]

end Compact

namespace Scatter

theorem findFree_free {cur : Pinning} {cpus : List Nat} {cpu : Nat}
    (h : findFree cur cpus = some (some cpu)) : cpu ∈ cpus ∧ cur[cpu]? = some emptyTask := by
  induction cpus with
  | nil => simp [findFree] at h
  | cons x rest ih =>
    simp only [findFree, Option.bind_eq_bind, Option.bind_eq_some_iff] at h
    obtain ⟨task, htask, h⟩ := h
    split at h
    · rename_i hfree
      cases h
      exact ⟨by simp, by rw [htask, (Task.isCpuFree_iff task).mp hfree]⟩
    · exact ⟨List.mem_cons_of_mem x (ih h).1, (ih h).2⟩

theorem search_free {c : CpuInfo} {cur : Pinning} {nodes : List Nat} {node cpu : Nat}
    (h : search c cur nodes = some (some (node, cpu))) :
    node ∈ nodes ∧ c.mapping[cpu]? = some (node : Int) ∧ cur[cpu]? = some emptyTask := by
  induction nodes with
  | nil => simp [search] at h
  | cons x rest ih =>
    simp only [search, Option.bind_eq_bind, Option.bind_eq_some_iff] at h
    obtain ⟨found, hfound, h⟩ := h
    cases found with
    | none => exact ⟨List.mem_cons_of_mem x (ih h).1, (ih h).2⟩
    | some y =>
      cases h
      obtain ⟨hmem, hfree⟩ := findFree_free hfound
      exact ⟨by simp, (c.mem_getCpusByNode _ _).mp hmem, hfree⟩

theorem addPinCount_length {pinCount pinCount' : List Int} {node delta : Int}
    (h : addPinCount pinCount node delta = some pinCount') : pinCount'.length = pinCount.length := by
  obtain ⟨n, _, rfl⟩ := Option.map_eq_some_iff.mp h
  rw [List.length_set]

theorem getPinning_proposes {env : Env D} {pid tid : Int} {pinCount pinCount' : List Int}
    {cur new : Pinning} (h : getPinning env pid tid pinCount cur = some (new, pinCount')) :
    Proposes cur new ⟨pid, tid⟩ ∧ pinCount'.length = pinCount.length := by
  unfold getPinning at h
  split at h
  · cases h
    exact ⟨.inl rfl, rfl⟩
  · rename_i htid
    obtain ⟨found, hfound, h⟩ := Option.bind_eq_some_iff.mp h
    cases found with
    | none =>
      cases h
      exact ⟨.inl rfl, rfl⟩
    | some p =>
      obtain ⟨count, hcount, h⟩ := Option.bind_eq_some_iff.mp h
      cases h
      exact ⟨.inr ⟨p.2, (search_free hfound).2.2, htid, rfl⟩, addPinCount_length hcount⟩

end Scatter

namespace ControlStrategy

theorem getPinning_proposes {env : Env D} {cur new : Pinning} {s s' : Strategy D}
    (h : getPinning env cur s = some (new, s')) :
    Proposes cur new ⟨s.pid, s.newTaskTid⟩ ∧
      ∃ pinCount, pinCount.length = s.pinCount.length ∧ s' = { s with pinCount := pinCount } := by
  unfold getPinning at h
  split at h
  · cases h
    exact ⟨.inl rfl, _, rfl, rfl⟩
  · cases h
    exact ⟨.inl rfl, _, rfl, rfl⟩
  · obtain ⟨p, hp, h⟩ := Option.map_eq_some_iff.mp h
    cases h
    exact ⟨Compact.getPinning_proposes hp, _, rfl, rfl⟩
  · obtain ⟨p, hp, h⟩ := Option.map_eq_some_iff.mp h
    cases h
    obtain ⟨hprop, hlen⟩ := Scatter.getPinning_proposes hp
    exact ⟨hprop, _, hlen, rfl⟩

/-! ## The diff-and-apply loop -/

/-- What `changePinning` does with the one slot of a proposal that differs. -/
def pinTask (k : Kernel D) (j : Nat) (t : Task) (f : Frame D) : Frame D :=
  if (f.host.setAffinity k t.tid j).1 ≠ 0 then
    { f with
      host := (f.host.setAffinity k t.tid j).2,
      self.context := f.self.context.report .strategy "set_affinity"
        ("Could not pin thread " ++ toString t.tid ++ " to cpu " ++ toString j) }
  else { f with host := (f.host.setAffinity k t.tid j).2, pinning := f.pinning.set j t }

/-- Slots on which proposal and table agree are left alone. -/
theorem applySlots_agree (k : Kernel D) (new : Pinning) (l : List Nat) (f : Frame D)
    (h : ∀ i ∈ l, ∃ t, new[i]? = some t ∧ f.pinning[i]? = some t) :
    l.foldlM (applySlot k new) f = some f := by
  induction l with
  | nil => rfl
  | cons i l ih =>
    obtain ⟨t, hn, hf⟩ := h i (by simp)
    have hstep : applySlot k new f i = some f := by simp [applySlot, hn, hf]
    rw [List.foldlM_cons, hstep, Option.bind_eq_bind, Option.bind_some]
    exact ih (fun j hj => h j (List.mem_cons_of_mem i hj))

theorem getElem?_of_mem_range {n i : Nat} {p : Pinning} (hp : p.length = n) (hi : i ∈ List.range n) :
    ∃ t, p[i]? = some t := by
  have hlt : i < p.length := by rw [hp]; exact List.mem_range.mp hi
  exact ⟨_, List.getElem?_eq_getElem hlt⟩

theorem applySlots_same (k : Kernel D) (f : Frame D) :
    (List.range f.pinning.length).foldlM (applySlot k f.pinning) f = some f := by
  apply applySlots_agree
  intro i hi
  obtain ⟨t, ht⟩ := getElem?_of_mem_range rfl hi
  exact ⟨t, ht, ht⟩

/-- A proposal that fills one free slot leads to exactly one `setAffinity` call. -/
theorem applySlots_set (k : Kernel D) (f : Frame D) (j : Nat) (t : Task)
    (hj : f.pinning[j]? = some emptyTask) (ht : t ≠ emptyTask) :
    (List.range f.pinning.length).foldlM (applySlot k (f.pinning.set j t)) f =
      some (pinTask k j t f) := by
  have hlt : j < f.pinning.length := (List.getElem?_eq_some_iff.mp hj).1
  obtain ⟨before, after, hsplit⟩ := List.append_of_mem (List.mem_range.mpr hlt)
  have hnodup : (before ++ j :: after).Nodup := hsplit ▸ List.nodup_range
  have hmem : ∀ i, i ∈ before ∨ i ∈ after → i ∈ List.range f.pinning.length := by
    intro i hi
    rw [hsplit]
    simp only [List.mem_append, List.mem_cons]
    tauto
  have hbefore : ∀ i ∈ before, i ≠ j := by
    intro i hi he
    exact List.disjoint_of_nodup_append hnodup hi (by simp [he])
  have hafter : ∀ i ∈ after, i ≠ j := by
    intro i hi he
    exact (List.nodup_cons.mp (List.nodup_append.mp hnodup).2.1).1 (he ▸ hi)
  rw [hsplit, List.foldlM_append, Option.bind_eq_bind]
  -- slots before `j` agree, slot `j` is the only difference, slots after it agree again
  have hpre : before.foldlM (applySlot k (f.pinning.set j t)) f = some f := by
    apply applySlots_agree
    intro i hi
    obtain ⟨u, hu⟩ := getElem?_of_mem_range rfl (hmem i (.inl hi))
    exact ⟨u, by rw [List.getElem?_set_ne (Ne.symm (hbefore i hi))]; exact hu, hu⟩
  have hmid : applySlot k (f.pinning.set j t) f j = some (pinTask k j t f) := by
    have hset : (f.pinning.set j t)[j]? = some t := by
      rw [List.getElem?_set_self]
      exact hlt
    have hfree : emptyTask.isCpuFree = true := by decide
    simp only [applySlot, hset, hj, Option.bind_eq_bind, Option.bind_some, ht, if_false, hfree,
      Bool.not_true, Bool.false_and, Bool.false_eq_true, pinTask]
    split <;> rfl
  rw [hpre, Option.bind_some, List.foldlM_cons, hmid, Option.bind_eq_bind, Option.bind_some]
  apply applySlots_agree
  intro i hi
  obtain ⟨u, hu⟩ := getElem?_of_mem_range rfl (hmem i (.inr hi))
  have hne : j ≠ i := Ne.symm (hafter i hi)
  refine ⟨u, by rw [List.getElem?_set_ne hne]; exact hu, ?_⟩
  unfold pinTask
  split
  · exact hu
  · rw [List.getElem?_set_ne hne]
    exact hu

/-- A proposal leads to a state that is unchanged, or has the new task on one free CPU. -/
theorem applySlots_cases {k : Kernel D} {new : Pinning} {f : Frame D}
    (hprop : Proposes f.pinning new ⟨f.self.pid, f.self.newTaskTid⟩) :
    ∃ g, (List.range f.pinning.length).foldlM (applySlot k new) f = some g ∧
      (g = f ∨ ∃ j, f.pinning[j]? = some emptyTask ∧ f.self.newTaskTid ≠ 0 ∧
        g = pinTask k j ⟨f.self.pid, f.self.newTaskTid⟩ f) := by
  rcases hprop with rfl | ⟨j, hj, htid, rfl⟩
  · exact ⟨f, applySlots_same k f, .inl rfl⟩
  · have ht : (⟨f.self.pid, f.self.newTaskTid⟩ : Task) ≠ emptyTask :=
      fun he => htid (congrArg Task.tid he)
    exact ⟨_, applySlots_set k f j _ hj ht, .inr ⟨j, hj, htid, rfl⟩⟩

/-- The loop never leaves the table: only `getPinning` decides whether the call is defined. -/
theorem changePinning_isSome {env : Env D} {f : Frame D} {r : Pinning × Strategy D}
    (h : getPinning env f.pinning f.self = some r) : (changePinning env f).isSome := by
  obtain ⟨new, self⟩ := r
  obtain ⟨hprop, pinCount, _, rfl⟩ := getPinning_proposes h
  obtain ⟨g, hg, -⟩ := applySlots_cases (k := env.kernel) (f := { f with self.pinCount := pinCount }) hprop
  simp only [changePinning, h, Option.bind_eq_bind, Option.bind_some]
  rw [hg, Option.isSome_some]

/-- `changePinning` applies nothing, or pins the new task on one free CPU. -/
theorem changePinning_cases {env : Env D} {f g : Frame D} (h : changePinning env f = some g) :
    ∃ pinCount, pinCount.length = f.self.pinCount.length ∧ (g = { f with self.pinCount := pinCount } ∨
      ∃ j, f.pinning[j]? = some emptyTask ∧ f.self.newTaskTid ≠ 0 ∧
        g = pinTask env.kernel j ⟨f.self.pid, f.self.newTaskTid⟩
          { f with self.pinCount := pinCount }) := by
  obtain ⟨⟨new, self⟩, hnew, h⟩ := Option.bind_eq_some_iff.mp h
  obtain ⟨hprop, pinCount, hlen, rfl⟩ := getPinning_proposes hnew
  obtain ⟨g', hg', hcases⟩ :=
    applySlots_cases (k := env.kernel) (f := { f with self.pinCount := pinCount }) hprop
  obtain rfl : g' = g := Option.some.inj (hg'.symm.trans h)
  exact ⟨pinCount, hlen, hcases⟩

/-- Without a new task the table is not touched. -/
theorem changePinning_idle {env : Env D} {f g : Frame D} (h : changePinning env f = some g)
    (h0 : f.self.newTaskTid = 0) :
    ∃ pinCount, pinCount.length = f.self.pinCount.length ∧ g = { f with self.pinCount := pinCount } := by
  obtain ⟨pinCount, hlen, rfl | ⟨j, _, htid, _⟩⟩ := changePinning_cases h
  · exact ⟨pinCount, hlen, rfl⟩
  · exact absurd h0 htid

/-! ## The two task slots -/

/-- The report of a strategy that tried to take a slot of another one. -/
def wrongCpu : AutopinErrors × String := (.strategy, "wrong_cpu")

/-- What no slot changes, and that no slot reports `wrong_cpu`. -/
structure Kept (s s' : Strategy D) : Prop where
  kind : s'.kind = s.kind
  pid : s'.pid = s.pid
  newTaskTid : s'.newTaskTid = s.newTaskTid
  counts : s'.pinCount.length = s.pinCount.length
  wrongCpu : wrongCpu ∈ s'.context.errors → wrongCpu ∈ s.context.errors

theorem Kept.refl (s : Strategy D) : Kept s s := ⟨rfl, rfl, rfl, rfl, id⟩

theorem Kept.trans {s s' s'' : Strategy D} (h : Kept s s') (h' : Kept s' s'') : Kept s s'' :=
  ⟨h'.kind.trans h.kind, h'.pid.trans h.pid, h'.newTaskTid.trans h.newTaskTid,
    h'.counts.trans h.counts, fun he => h.wrongCpu (h'.wrongCpu he)⟩

theorem onMonitors_quiet {call : Session (Monitor D) → Option (Session (Monitor D))}
    (hcall : ∀ s s', call s = some s' → s.Quiet s') (ms : List (Monitor D)) {context : AutopinContext}
    {host : Host} {r : List (Monitor D) × AutopinContext × Host}
    (h : onMonitors call ms context host = some r) :
    r.2.2.affinity = host.affinity ∧
      ∀ e ∈ r.2.1.errors, e ∈ context.errors ∨ e.1 = .monitor := by
  induction ms generalizing context host r with
  | nil =>
    cases h
    exact ⟨rfl, fun _ he => .inl he⟩
  | cons m ms ih =>
    obtain ⟨s, hs, h⟩ := Option.bind_eq_some_iff.mp h
    obtain ⟨r', hr', h⟩ := Option.bind_eq_some_iff.mp h
    cases h
    obtain ⟨ha, he⟩ := ih hr'
    have hq := hcall _ _ hs
    refine ⟨ha.trans hq.affinity, ?_⟩
    intro e hmem
    rcases he e hmem with hmem | hmem
    · exact hq.errors e hmem
    · exact .inr hmem

theorem withMonitors_quiet {call : Session (Monitor D) → Option (Session (Monitor D))}
    (hcall : ∀ s s', call s = some s' → s.Quiet s') {f g : Frame D}
    (h : withMonitors call f = some g) :
    g.pinning = f.pinning ∧ g.host.affinity = f.host.affinity ∧ Kept f.self g.self ∧
      g.self.tasks = f.self.tasks ∧ g.self.calls = f.self.calls := by
  obtain ⟨r, hr, rfl⟩ := Option.map_eq_some_iff.mp h
  obtain ⟨ha, he⟩ := onMonitors_quiet hcall _ hr
  refine ⟨rfl, ha, ⟨rfl, rfl, rfl, rfl, ?_⟩, rfl, rfl⟩
  intro hw
  rcases he _ hw with hw | hw
  · exact hw
  · simp [wrongCpu] at hw

/-- The effect of `slot_TaskCreated`. -/
structure Created (tid : Int) (f g : Frame D) : Prop where
  kept : Kept f.self g.self
  tasks : g.self.tasks = f.self.tasks ++ [tid]
  calls : g.self.calls = f.self.calls ++ [.created tid]
  table : (g.pinning = f.pinning ∧ g.host.affinity = f.host.affinity) ∨
    ∃ (j : Nat) (ret : Int), f.pinning[j]? = some emptyTask ∧ tid ≠ 0 ∧
      g.host.affinity = ⟨tid, j, ret⟩ :: f.host.affinity ∧
      g.pinning = if ret = 0 then f.pinning.set j ⟨f.self.pid, tid⟩ else f.pinning

/-- The effect of `slot_TaskTerminated`. -/
structure Terminated (tid : Int) (f g : Frame D) : Prop where
  kept : Kept f.self g.self
  tasks : g.self.tasks = f.self.tasks.erase tid
  calls : g.self.calls = f.self.calls ++ [.terminated tid]
  pinning : g.pinning = f.pinning.replace ⟨f.self.pid, tid⟩ emptyTask
  affinity : g.host.affinity = f.host.affinity

/-- The base slot, entered with `new_task_tid` either clear or set to the tid. -/
theorem baseTaskCreated_cases {env : Env D} {tid : Int} {f g : Frame D}
    (h : baseTaskCreated env tid f = some g) (h0 : f.self.newTaskTid = 0 ∨ f.self.newTaskTid = tid) :
    Kept f.self g.self ∧ g.self.tasks = f.self.tasks ++ [tid] ∧ g.self.calls = f.self.calls ∧
      ((g.pinning = f.pinning ∧ g.host.affinity = f.host.affinity) ∨
        ∃ (j : Nat) (ret : Int), f.pinning[j]? = some emptyTask ∧ tid ≠ 0 ∧
          g.host.affinity = ⟨tid, j, ret⟩ :: f.host.affinity ∧
          g.pinning = if ret = 0 then f.pinning.set j ⟨f.self.pid, tid⟩ else f.pinning) := by
  obtain ⟨pinCount, hlen, rfl | ⟨j, hj, htid, rfl⟩⟩ := changePinning_cases h
  · exact ⟨⟨rfl, rfl, rfl, hlen, id⟩, rfl, rfl, .inl ⟨rfl, rfl⟩⟩
  · have hnew : f.self.newTaskTid = tid := h0.resolve_left htid
    simp only [hnew] at htid ⊢
    unfold pinTask
    split
    · rename_i hret
      refine ⟨⟨rfl, rfl, hnew.symm, hlen, ?_⟩, rfl, rfl, .inr ⟨j, _, hj, htid, rfl, (if_neg hret).symm⟩⟩
      intro hw
      simpa [wrongCpu] using hw
    · rename_i hret
      exact ⟨⟨rfl, rfl, hnew.symm, hlen, id⟩, rfl, rfl,
        .inr ⟨j, _, hj, htid, rfl, (if_pos (not_not.mp hret)).symm⟩⟩

theorem slotTaskCreated_created {env : Env D} {tid : Int} {f g : Frame D}
    (h0 : f.self.newTaskTid = 0) (h : slotTaskCreated env tid f = some g) : Created tid f g := by
  have hoverride : ∀ g', baseTaskCreated env tid
      { f.record (.created tid) with self.newTaskTid := tid } = some g' →
      Created tid f { g' with self.newTaskTid := 0 } := by
    intro g' hg'
    obtain ⟨hk, ht, hc, htable⟩ := baseTaskCreated_cases hg' (.inr rfl)
    exact ⟨⟨hk.kind, hk.pid, h0.symm, hk.counts, hk.wrongCpu⟩, ht, hc, htable⟩
  unfold slotTaskCreated at h
  split at h
  · obtain ⟨hk, ht, hc, htable⟩ := baseTaskCreated_cases h (.inl h0)
    exact ⟨⟨hk.kind, hk.pid, hk.newTaskTid, hk.counts, hk.wrongCpu⟩, ht, hc, htable⟩
  · obtain ⟨g', hg', h⟩ := Option.bind_eq_some_iff.mp h
    obtain ⟨hk, ht, hc, htable⟩ := baseTaskCreated_cases hg' (.inl h0)
    obtain ⟨hp, ha, hk', ht', hc'⟩ := withMonitors_quiet (fun _ _ => Monitor.start_quiet) h
    have hkept := hk.trans hk'
    refine ⟨⟨hkept.kind, hkept.pid, hkept.newTaskTid, hkept.counts, hkept.wrongCpu⟩, ht'.trans ht,
      hc'.trans hc, ?_⟩
    rw [hp, ha]
    exact htable
  all_goals
    obtain ⟨g', hg', h⟩ := Option.bind_eq_some_iff.mp h
    cases h
    exact hoverride g' hg'

theorem baseTaskTerminated_cases {env : Env D} {tid : Int} {f g : Frame D}
    (h : baseTaskTerminated env tid f = some g) (h0 : f.self.newTaskTid = 0) :
    ∃ pinCount, pinCount.length = f.self.pinCount.length ∧ g =
      { f with
        pinning := f.pinning.replace ⟨f.self.pid, tid⟩ emptyTask,
        self.tasks := f.self.tasks.erase tid,
        self.pinCount := pinCount } :=
  changePinning_idle h h0

theorem slotTaskTerminated_terminated {env : Env D} {tid : Int} {f g : Frame D}
    (h0 : f.self.newTaskTid = 0) (h : slotTaskTerminated env tid f = some g) : Terminated tid f g := by
  unfold slotTaskTerminated at h
  split at h
  · obtain ⟨pinCount, hlen, rfl⟩ := baseTaskTerminated_cases h h0
    exact ⟨⟨rfl, rfl, rfl, hlen, id⟩, rfl, rfl, rfl, rfl⟩
  · obtain ⟨pinCount, hlen, rfl⟩ := baseTaskTerminated_cases h h0
    exact ⟨⟨rfl, rfl, rfl, hlen, id⟩, rfl, rfl, rfl, rfl⟩
  · obtain ⟨g', hg', h⟩ := Option.bind_eq_some_iff.mp h
    obtain ⟨pinCount, hlen, rfl⟩ := baseTaskTerminated_cases hg' h0
    obtain ⟨hp, ha, hk, ht, hc⟩ := withMonitors_quiet
      (fun s s' hs => Option.some.inj hs ▸ Monitor.clear_quiet env.kernel tid s) h
    exact ⟨⟨hk.kind, hk.pid, hk.newTaskTid, hk.counts.trans hlen, hk.wrongCpu⟩, ht, hc, hp, ha⟩
  · obtain ⟨node, _, h⟩ := Option.bind_eq_some_iff.mp h
    obtain ⟨count, hcount, h⟩ := Option.bind_eq_some_iff.mp h
    obtain ⟨pinCount, hlen, rfl⟩ := baseTaskTerminated_cases h h0
    have hlen' := hlen.trans (Scatter.addPinCount_length hcount)
    exact ⟨⟨rfl, rfl, rfl, hlen', id⟩, rfl, rfl, rfl, rfl⟩

/-! ## Lookups in the table -/

theorem getCpuByTask_cases (p : Pinning) (t : Task) :
    (t ∉ p ∧ getCpuByTask p t = -1) ∨ ∃ cpu : Nat, p[cpu]? = some t ∧ getCpuByTask p t = cpu := by
  unfold getCpuByTask
  split
  · rename_i cpu hcpu
    obtain ⟨hlt, ht, -⟩ := List.findIdx?_eq_some_iff_getElem.mp hcpu
    have ht : t = p[cpu] := by simpa using ht
    exact .inr ⟨cpu, ht ▸ List.getElem?_eq_getElem hlt, rfl⟩
  · rename_i hnone
    rw [List.findIdx?_eq_none_iff] at hnone
    refine .inl ⟨?_, rfl⟩
    intro hmem
    simpa using hnone t hmem

theorem getCpuByTask_eq_neg_one_iff (p : Pinning) (t : Task) : getCpuByTask p t = -1 ↔ t ∉ p := by
  rcases getCpuByTask_cases p t with ⟨hnot, hcpu⟩ | ⟨cpu, hat, hcpu⟩
  · simp [hnot, hcpu]
  · have hmem : t ∈ p := List.mem_of_getElem? hat
    simp only [hcpu, hmem, not_true_eq_false, iff_false]
    omega

/-! ## Sequences of slots -/

/-- What a slot does to `tasks`. -/
def track (tasks : List Int) : SlotCall → List Int
  | .created tid => tasks ++ [tid]
  | .terminated tid => tasks.erase tid

theorem slotCall_history {env : Env D} {f g : Frame D} {call : SlotCall}
    (h0 : f.self.newTaskTid = 0) (h : slotCall env f call = some g) :
    Kept f.self g.self ∧ g.self.tasks = track f.self.tasks call ∧
      g.self.calls = f.self.calls ++ [call] := by
  cases call with
  | created tid =>
    have hc := slotTaskCreated_created h0 h
    exact ⟨hc.kept, hc.tasks, hc.calls⟩
  | terminated tid =>
    have ht := slotTaskTerminated_terminated h0 h
    exact ⟨ht.kept, ht.tasks, ht.calls⟩

theorem slotCalls_history {env : Env D} {f g : Frame D} {calls : List SlotCall}
    (h0 : f.self.newTaskTid = 0) (h : calls.foldlM (slotCall env) f = some g) :
    Kept f.self g.self ∧ g.self.tasks = calls.foldl track f.self.tasks ∧
      g.self.calls = f.self.calls ++ calls := by
  induction calls generalizing f with
  | nil =>
    cases h
    exact ⟨.refl _, rfl, by simp⟩
  | cons call calls ih =>
    rw [List.foldlM_cons, Option.bind_eq_bind] at h
    obtain ⟨f', hf', h⟩ := Option.bind_eq_some_iff.mp h
    obtain ⟨hk, ht, hc⟩ := slotCall_history h0 hf'
    obtain ⟨hk', ht', hc'⟩ := ih (hk.newTaskTid.trans h0) h
    refine ⟨hk.trans hk', ?_, ?_⟩
    · rw [ht', ht, List.foldl_cons]
    · rw [hc', hc, List.append_assoc, List.singleton_append]

/-- A tid stays in `tasks` as long as it is not reported terminated. -/
theorem mem_foldl_track {calls : List SlotCall} {tasks : List Int} {tid : Int} (h : tid ∈ tasks)
    (hc : .terminated tid ∉ calls) : tid ∈ calls.foldl track tasks := by
  induction calls generalizing tasks with
  | nil => exact h
  | cons call calls ih =>
    rw [List.mem_cons, not_or] at hc
    refine ih ?_ hc.2
    cases call with
    | created x => exact List.mem_append_left _ h
    | terminated x =>
      have hne : tid ≠ x := fun he => hc.1 (congrArg SlotCall.terminated he)
      exact (List.mem_erase_of_ne hne).mpr h

@[simp] theorem terminated_mem_timerCalls (ord : SetOrder) (old new : TidSet) (tid : Int) :
    .terminated tid ∈ timerCalls ord old new ↔ tid ∈ old ∧ tid ∉ new := by
  simp [timerCalls, (ord.perm _).mem_iff]

@[simp] theorem created_mem_timerCalls (ord : SetOrder) (old new : TidSet) (tid : Int) :
    .created tid ∈ timerCalls ord old new ↔ tid ∈ new ∧ tid ∉ old := by
  simp [timerCalls, (ord.perm _).mem_iff]

end ControlStrategy

end AutopinPlus
