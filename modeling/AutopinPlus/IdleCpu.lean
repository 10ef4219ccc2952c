import AutopinPlus.ScatterBalance

/-!
# Idle CPUs beside unpinned tasks

A single Compact or Scatter strategy gives every new task a CPU as long as one is free.
When the end of a task frees a CPU, `changePinning` runs again, but `new_task_tid` is
clear by then and `getPinning` returns the table as it is: a task that found no CPU at
its creation never gets one later.
-/
namespace AutopinPlus

open PartialStep SlotTable ControlStrategy

variable {D : Type}

/-- Some CPU is free. -/
def AnyFree (p : Pinning) : Prop := ∃ j : Nat, p[j]? = some emptyTask

theorem anyFree_iff_mem (p : Pinning) : AnyFree p ↔ emptyTask ∈ p := List.mem_iff_getElem?.symm

instance (p : Pinning) : Decidable (AnyFree p) := decidable_of_iff _ (anyFree_iff_mem p).symm

/-! ## A free CPU is found -/

namespace Compact

/-- Once a CPU is chosen, one stays chosen. -/
theorem compare_ne {c : CpuInfo} {pid : Int} {cur : Pinning} {i j : Nat} {acc acc' : Nat × Int}
    (hacc : acc.2 ≠ -1) (h : compare c pid cur i acc j = some acc') : acc'.2 ≠ -1 := by
  simp only [compare, Option.bind_eq_bind, Option.bind_eq_some_iff] at h
  obtain ⟨task, -, h⟩ := h
  split at h
  · obtain ⟨d, -, h⟩ := Option.bind_eq_some_iff.mp h
    split at h <;> cases h
    · change (i : Int) ≠ -1
      omega
    · exact hacc
  · cases h
    exact hacc

theorem consider_ne {c : CpuInfo} {pid : Int} {cur : Pinning} {i : Nat} {acc acc' : Nat × Int}
    (hacc : acc.2 ≠ -1 ∨ cur[i]? = some emptyTask) (h : consider c pid cur acc i = some acc') :
    acc'.2 ≠ -1 := by
  simp only [consider, Option.bind_eq_bind, Option.bind_eq_some_iff] at h
  obtain ⟨task, htask, h⟩ := h
  split at h
  · refine foldlM_invariant (fun acc => acc.2 ≠ -1) _ (fun _ _ _ _ hs => compare_ne hs) ?_ h
    split
    · change (i : Int) ≠ -1
      omega
    · assumption
  · rename_i hfree
    cases h
    refine hacc.resolve_right (fun he => hfree ?_)
    rw [Task.isCpuFree_iff]
    exact Option.some.inj (htask.symm.trans he)

theorem considerAll_ne {c : CpuInfo} {pid : Int} {cur : Pinning} {cpus : List Nat} {acc acc' : Nat × Int}
    (hacc : acc.2 ≠ -1 ∨ ∃ i ∈ cpus, cur[i]? = some emptyTask)
    (h : cpus.foldlM (consider c pid cur) acc = some acc') : acc'.2 ≠ -1 := by
  induction cpus generalizing acc with
  | nil =>
    cases h
    simpa using hacc
  | cons i cpus ih =>
    rw [List.foldlM_cons, Option.bind_eq_bind] at h
    obtain ⟨mid, hmid, h⟩ := Option.bind_eq_some_iff.mp h
    refine ih ?_ h
    rcases hacc with hacc | ⟨j, hj, hfree⟩
    · exact .inl (consider_ne (.inl hacc) hmid)
    · rcases List.mem_cons.mp hj with rfl | hj
      · exact .inl (consider_ne (.inr hfree) hmid)
      · exact .inr ⟨j, hj, hfree⟩

theorem getPinning_fills {c : CpuInfo} {pid tid : Int} {cur new : Pinning} (htid : tid ≠ 0)
    (hfree : AnyFree cur) (h : getPinning c pid tid cur = some new) :
    ∃ j : Nat, cur[j]? = some emptyTask ∧ new = cur.set j ⟨pid, tid⟩ := by
  rw [getPinning, if_neg htid] at h
  obtain ⟨acc, hacc, h⟩ := Option.bind_eq_some_iff.mp h
  obtain ⟨i, hi⟩ := hfree
  have hlt : i < cur.length := (List.getElem?_eq_some_iff.mp hi).1
  have hne : acc.2 ≠ -1 := considerAll_ne (.inr ⟨i, List.mem_range.mpr hlt, hi⟩) hacc
  have hchosen : Chosen cur acc :=
    foldlM_invariant (Chosen cur) _ (fun _ _ _ _ hs => consider_chosen hs) (.inl rfl) hacc
  rw [if_neg hne] at h
  cases h
  obtain ⟨j, hj, hfree⟩ := hchosen.resolve_left hne
  exact ⟨j, hfree, by rw [hj, Int.toNat_natCast]⟩

end Compact

namespace Scatter

theorem search_none {c : CpuInfo} {cur : Pinning} {nodes : List Nat} (h : search c cur nodes = some none) :
    ∀ node ∈ nodes, ¬ HasFree c cur node := by
  induction nodes with
  | nil => simp
  | cons x rest ih =>
    simp only [search, Option.bind_eq_bind, Option.bind_eq_some_iff] at h
    obtain ⟨found, hfound, h⟩ := h
    cases found with
    | none =>
      rw [List.forall_mem_cons]
      exact ⟨not_hasFree_of_findFree hfound, ih h⟩
    | some y => cases h

/-- Every CPU is on a node that is searched. -/
theorem getPinning_fills {env : Env D} {pid tid : Int} {pinCount pinCount' : List Int} {cur new : Pinning}
    (hcpus : env.cpu.mapping.length = cur.length)
    (hnodes : ∀ node ∈ env.cpu.mapping, 0 ≤ node ∧ node < pinCount.length) (htid : tid ≠ 0)
    (hfree : AnyFree cur) (h : getPinning env pid tid pinCount cur = some (new, pinCount')) :
    ∃ j : Nat, cur[j]? = some emptyTask ∧ new = cur.set j ⟨pid, tid⟩ := by
  rw [getPinning, if_neg htid] at h
  obtain ⟨found, hfound, h⟩ := Option.bind_eq_some_iff.mp h
  cases found with
  | none =>
    obtain ⟨i, hi⟩ := hfree
    have hlt : i < env.cpu.mapping.length := hcpus ▸ (List.getElem?_eq_some_iff.mp hi).1
    obtain ⟨node, hnode⟩ : ∃ node, env.cpu.mapping[i]? = some node := ⟨_, List.getElem?_eq_getElem hlt⟩
    obtain ⟨hnonneg, hbound⟩ := hnodes node (List.mem_of_getElem? hnode)
    obtain ⟨node, rfl⟩ := Int.eq_ofNat_of_zero_le hnonneg
    have hmem : node ∈ env.sort.order pinCount := by
      rw [(env.sort.perm pinCount).mem_iff, List.mem_range]
      omega
    exact absurd ⟨i, hnode, hi⟩ (search_none hfound node hmem)
  | some x =>
    obtain ⟨count, -, h⟩ := Option.bind_eq_some_iff.mp h
    cases h
    exact ⟨x.2, (search_free hfound).2.2, rfl⟩

end Scatter

namespace ControlStrategy

theorem getPinning_fills {env : Env D} {cur new : Pinning} {s s' : Strategy D}
    (hd : env.cpu.Dense cur.length)
    (hlen : s.kind = .scatter → s.pinCount.length = env.cpu.getNodeCount)
    (hkind : s.kind = .compact ∨ s.kind = .scatter) (htid : s.newTaskTid ≠ 0) (hfree : AnyFree cur)
    (h : getPinning env cur s = some (new, s')) :
    ∃ j : Nat, cur[j]? = some emptyTask ∧ new = cur.set j ⟨s.pid, s.newTaskTid⟩ := by
  unfold getPinning at h
  split at h
  · rename_i hk
    simp [hk] at hkind
  · rename_i hk
    simp [hk] at hkind
  · obtain ⟨p, hp, h⟩ := Option.map_eq_some_iff.mp h
    cases h
    exact Compact.getPinning_fills htid hfree hp
  · rename_i hk
    obtain ⟨⟨p, count⟩, hp, h⟩ := Option.map_eq_some_iff.mp h
    cases h
    refine Scatter.getPinning_fills hd.cpus ?_ htid hfree hp
    rw [hlen hk]
    exact hd.nodes

/-- Where every call succeeds, the table becomes what was proposed. -/
theorem changePinning_pinning {env : Env D} {f g : Frame D} {new : Pinning} {self : Strategy D}
    (hk : ∀ n tid cpu, env.kernel.schedSetaffinity n tid cpu = 0)
    (hnew : getPinning env f.pinning f.self = some (new, self)) (h : changePinning env f = some g) :
    g.pinning = new := by
  obtain ⟨hprop, pinCount, -, rfl⟩ := getPinning_proposes hnew
  simp only [changePinning, hnew, Option.bind_eq_bind, Option.bind_some] at h
  rcases hprop with rfl | ⟨j, hj, htid, rfl⟩
  · have hsame := applySlots_same env.kernel { f with self.pinCount := pinCount }
    rw [Option.some.inj (h.symm.trans hsame)]
  · have ht : (⟨f.self.pid, f.self.newTaskTid⟩ : Task) ≠ emptyTask :=
      fun he => htid (congrArg Task.tid he)
    have hset := applySlots_set env.kernel { f with self.pinCount := pinCount } j _ hj ht
    rw [Option.some.inj (h.symm.trans hset), pinTask, if_neg (by simp [hk])]

/-- A free CPU goes to the new task. -/
theorem changePinning_fills {env : Env D} {f g : Frame D}
    (hk : ∀ n tid cpu, env.kernel.schedSetaffinity n tid cpu = 0) (hfits : Fits env.cpu f)
    (hkind : f.self.kind = .compact ∨ f.self.kind = .scatter) (htid : f.self.newTaskTid ≠ 0)
    (hfree : AnyFree f.pinning) (h : changePinning env f = some g) :
    ∃ j : Nat, f.pinning[j]? = some emptyTask ∧
      g.pinning = f.pinning.set j ⟨f.self.pid, f.self.newTaskTid⟩ := by
  obtain ⟨⟨new, self⟩, hnew, -⟩ := Option.bind_eq_some_iff.mp h
  obtain ⟨j, hj, hset⟩ := getPinning_fills hfits.dense hfits.counts hkind htid hfree hnew
  exact ⟨j, hj, (changePinning_pinning hk hnew h).trans hset⟩

end ControlStrategy

/-! ## Runs of one strategy -/

/-- One pass of `slot_timer` is a call of `refreshTasks` and then calls of the two task slots. -/
inductive FrameOp where
  | refresh (scan : Scan)
  | call (slot : SlotCall)

namespace FrameOp

def act (env : Env D) (f : Frame D) : FrameOp → Option (Frame D)
  | .refresh scan => some (refreshTasks scan f)
  | .call slot => slotCall env f slot

def IsSlot : FrameOp → Prop
  | .refresh _ => False
  | .call _ => True

end FrameOp

/-- The operations an event stands for. -/
def Event.ops (self : Strategy D) : Event → List FrameOp
  | .slot _ c => [.call c]
  | .timer k scan ord => .refresh scan :: (Event.calls self (.timer k scan ord)).map .call

theorem run_calls (env : Env D) (slots : List SlotCall) (f : Frame D) :
    run (FrameOp.act env) f (slots.map .call) = slots.foldlM (slotCall env) f := by
  induction slots generalizing f with
  | nil => rfl
  | cons slot slots ih =>
    rw [List.map_cons, run_cons, List.foldlM_cons, Option.bind_eq_bind, FrameOp.act]
    congr 1
    funext g
    exact ih g

theorem Event.act_eq_run (env : Env D) (e : Event) (f : Frame D) :
    e.act env f = run (FrameOp.act env) f (e.ops f.self) := by
  rw [Event.act_eq_calls]
  cases e with
  | slot k c => exact (run_calls env [c] f).symm
  | timer k scan ord => exact (run_calls env _ (refreshTasks scan f)).symm

/-- A Compact or Scatter strategy between two slots. -/
structure Alone (c : CpuInfo) (f : Frame D) : Prop where
  fits : Fits c f
  kind : f.self.kind = .compact ∨ f.self.kind = .scatter
  idle : f.self.newTaskTid = 0
  pid : f.self.pid ≠ 0
  named : (⟨f.self.pid, 0⟩ : Task) ∉ f.pinning

/-- As `ControlStrategy::init` leaves the table. -/
theorem Alone.of_all_free {c : CpuInfo} {f : Frame D} (hfits : Fits c f)
    (hkind : f.self.kind = .compact ∨ f.self.kind = .scatter) (hidle : f.self.newTaskTid = 0)
    (hpid : f.self.pid ≠ 0) (hfree : ∀ t ∈ f.pinning, t = emptyTask) : Alone c f :=
  ⟨hfits, hkind, hidle, hpid, fun hmem => hpid (congrArg Task.pid (hfree _ hmem))⟩

theorem ControlStrategy.Created.named {tid : Int} {f g : Frame D} (h : Created tid f g)
    (hf : (⟨f.self.pid, 0⟩ : Task) ∉ f.pinning) : (⟨f.self.pid, 0⟩ : Task) ∉ g.pinning := by
  rcases h.table with ⟨hp, -⟩ | ⟨j, ret, -, htid, -, hp⟩
  · rw [hp]
    exact hf
  · rw [hp]
    split
    · intro hmem
      rcases List.mem_or_eq_of_mem_set hmem with hmem | he
      · exact hf hmem
      · exact htid (congrArg Task.tid he).symm
    · exact hf

theorem Alone.act {env : Env D} {f g : Frame D} {op : FrameOp} (hf : Alone env.cpu f)
    (h : op.act env f = some g) : Alone env.cpu g := by
  have hconf : Confined f g := by
    cases op with
    | refresh scan =>
      cases h
      exact refreshTasks_confined scan f
    | call slot => exact slotCall_confined hf.idle h
  have hkept := hconf.kept
  refine ⟨hf.fits.of_confined hconf, hkept.kind ▸ hf.kind, hkept.newTaskTid.trans hf.idle,
    hkept.pid ▸ hf.pid, ?_⟩
  rw [hkept.pid]
  cases op with
  | refresh scan =>
    cases h
    exact hf.named
  | call slot =>
    cases slot with
    | created tid => exact (slotTaskCreated_created hf.idle h).named hf.named
    | terminated tid =>
      rw [(slotTaskTerminated_terminated hf.idle h).pinning]
      intro hmem
      obtain ⟨i, hi⟩ := List.mem_iff_getElem?.mp hmem
      rcases getElem?_replace_cases hi with hi | ⟨-, he⟩
      · exact hf.named (List.mem_of_getElem? hi)
      · exact hf.pid (congrArg Task.pid he)

/-- No CPU is free, or every task has one. -/
def Served (f : Frame D) : Prop :=
  ¬ AnyFree f.pinning ∨ ∀ tid ∈ f.self.tasks, (⟨f.self.pid, tid⟩ : Task) ∈ f.pinning

/-- Two CPUs are free. -/
def TwoFree (p : Pinning) : Prop :=
  ∃ i j : Nat, i ≠ j ∧ p[i]? = some emptyTask ∧ p[j]? = some emptyTask

theorem twoFree_iff (p : Pinning) : TwoFree p ↔ ∃ i < p.length, ∃ j < p.length,
    i ≠ j ∧ p[i]? = some emptyTask ∧ p[j]? = some emptyTask := by
  constructor
  · rintro ⟨i, j, hne, hi, hj⟩
    exact ⟨i, (List.getElem?_eq_some_iff.mp hi).1, j, (List.getElem?_eq_some_iff.mp hj).1, hne, hi, hj⟩
  · rintro ⟨i, -, j, -, h⟩
    exact ⟨i, j, h⟩

instance (p : Pinning) : Decidable (TwoFree p) := decidable_of_iff _ (twoFree_iff p).symm

/-- No call of a task slot leaves a CPU free beside a task that waits for one: a new task takes the
last free CPU, and a task that ends was not pinned, while every CPU is taken. -/
def NoneWaits (f : Frame D) : FrameOp → Prop
  | .refresh _ => True
  | .call (.created tid) =>
    if tid = 0 then ¬ AnyFree f.pinning
    else (∃ x ∈ f.self.tasks, x ≠ tid ∧ (⟨f.self.pid, x⟩ : Task) ∉ f.pinning) → ¬ TwoFree f.pinning
  | .call (.terminated tid) =>
    (∃ x ∈ f.self.tasks.erase tid, (⟨f.self.pid, x⟩ : Task) ∉ f.pinning.erase ⟨f.self.pid, tid⟩) →
      ¬ AnyFree f.pinning ∧ (⟨f.self.pid, tid⟩ : Task) ∉ f.pinning

instance (f : Frame D) : (op : FrameOp) → Decidable (NoneWaits f op)
  | .refresh _ => .isTrue trivial
  | .call (.created tid) => inferInstanceAs (Decidable (if tid = 0 then _ else _))
  | .call (.terminated _) => inferInstanceAs (Decidable (_ → _))

/-! ## One step -/

theorem mem_replace_iff_mem_erase {p : Pinning} {t u : Task} (hu : u ≠ emptyTask) :
    u ∈ p.replace t emptyTask ↔ u ∈ p.erase t := by
  induction p with
  | nil => simp
  | cons x p ih =>
    by_cases hx : x = t
    · subst hx
      simp [hu]
    · have hbeq : (t == x) = false := by simpa using Ne.symm hx
      have hbeq' : (x == t) = false := by simpa using hx
      simp [List.replace_cons, hbeq, hbeq', ih]

/-- Filling a free slot adds one entry and loses none. -/
theorem mem_set_free_iff {p : Pinning} {j : Nat} {t u : Task} (hj : p[j]? = some emptyTask)
    (hu : u ≠ emptyTask) : u ∈ p.set j t ↔ u = t ∨ u ∈ p := by
  have hlt : j < p.length := (List.getElem?_eq_some_iff.mp hj).1
  constructor
  · intro hmem
    exact (List.mem_or_eq_of_mem_set hmem).symm
  · rintro (rfl | hmem)
    · exact List.mem_set hlt _
    · obtain ⟨i, hi⟩ := List.mem_iff_getElem?.mp hmem
      have hij : j ≠ i := by
        rintro rfl
        exact hu (Option.some.inj (hi.symm.trans hj))
      have hset : (p.set j t)[i]? = some u := by
        rw [List.getElem?_set_ne hij]
        exact hi
      exact List.mem_of_getElem? hset

theorem anyFree_set_iff {p : Pinning} {j : Nat} {t : Task} (hj : p[j]? = some emptyTask)
    (ht : t ≠ emptyTask) : AnyFree (p.set j t) ↔ TwoFree p := by
  constructor
  · rintro ⟨i, hi⟩
    rcases getElem?_set_cases hi with ⟨-, he⟩ | ⟨hne, hi⟩
    · exact absurd he.symm ht
    · exact ⟨i, j, hne, hi, hj⟩
  · rintro ⟨a, b, hne, ha, hb⟩
    by_cases haj : a = j
    · refine ⟨b, ?_⟩
      rw [List.getElem?_set_ne (haj ▸ hne)]
      exact hb
    · refine ⟨a, ?_⟩
      rw [List.getElem?_set_ne (Ne.symm haj)]
      exact ha

theorem anyFree_replace_iff {p : Pinning} {t : Task} (ht : t ≠ emptyTask) :
    AnyFree (p.replace t emptyTask) ↔ AnyFree p ∨ t ∈ p := by
  constructor
  · rintro ⟨i, hi⟩
    rcases getElem?_replace_cases hi with hi | ⟨hi, -⟩
    · exact .inl ⟨i, hi⟩
    · exact .inr (List.mem_of_getElem? hi)
  · rintro (⟨i, hi⟩ | hmem)
    · exact ⟨i, getElem?_replace_other hi (Ne.symm ht)⟩
    · rcases getCpuByTask_cases p t with ⟨hnot, -⟩ | ⟨cpu, hat, hcpu⟩
      · exact absurd hmem hnot
      · have hlt : cpu < p.length := (List.getElem?_eq_some_iff.mp hat).1
        rw [Scatter.replace_of_getCpuByTask hcpu]
        exact ⟨cpu, List.getElem?_set_self hlt⟩

namespace Alone

variable {env : Env D} {f g : Frame D} {tid : Int}

/-- A new task gets a CPU if one is free. -/
theorem created_fills (hf : Alone env.cpu f) (hk : ∀ n tid cpu, env.kernel.schedSetaffinity n tid cpu = 0)
    (htid : tid ≠ 0) (hfree : AnyFree f.pinning) (h : slotTaskCreated env tid f = some g) :
    ∃ j : Nat, f.pinning[j]? = some emptyTask ∧ g.pinning = f.pinning.set j ⟨f.self.pid, tid⟩ := by
  have hover : ∀ g', baseTaskCreated env tid { f.record (.created tid) with self.newTaskTid := tid } =
      some g' → ∃ j : Nat, f.pinning[j]? = some emptyTask ∧
        g'.pinning = f.pinning.set j ⟨f.self.pid, tid⟩ :=
    fun _ hg' => changePinning_fills (f := { f.record (.created tid) with
      self.newTaskTid := tid, self.tasks := f.self.tasks ++ [tid] })
      hk ⟨hf.fits.dense, hf.fits.counts, hf.fits.kind⟩ hf.kind htid hfree hg'
  unfold slotTaskCreated at h
  split at h
  · rename_i hkind
    exact absurd hf.kind (by simp [hkind])
  · rename_i hkind
    exact absurd hf.kind (by simp [hkind])
  all_goals
    obtain ⟨g', hg', h⟩ := Option.bind_eq_some_iff.mp h
    cases h
    exact hover g' hg'

theorem created_same (hf : Alone env.cpu f) (hnone : ¬ AnyFree f.pinning ∨ tid = 0)
    (h : slotTaskCreated env tid f = some g) : g.pinning = f.pinning := by
  rcases (slotTaskCreated_created hf.idle h).table with ⟨hp, -⟩ | ⟨j, ret, hj, htid, -, -⟩
  · exact hp
  · rcases hnone with hnone | hnone
    · exact absurd ⟨j, hj⟩ hnone
    · exact absurd hnone htid

theorem created_served_iff (hf : Alone env.cpu f)
    (hk : ∀ n tid cpu, env.kernel.schedSetaffinity n tid cpu = 0)
    (h : slotTaskCreated env tid f = some g) : Served g ↔ NoneWaits f (.call (.created tid)) := by
  have hc := slotTaskCreated_created hf.idle h
  simp only [Served, NoneWaits, hc.tasks, hc.kept.pid]
  by_cases htid : tid = 0
  · have hnot : ¬ ∀ x ∈ f.self.tasks ++ [tid], (⟨f.self.pid, x⟩ : Task) ∈ f.pinning :=
      fun hall => hf.named (htid ▸ hall tid (by simp))
    rw [if_pos htid, hf.created_same (.inr htid) h]
    simp only [hnot, or_false]
  · rw [if_neg htid]
    by_cases hfree : AnyFree f.pinning
    · obtain ⟨j, hj, hp⟩ := hf.created_fills hk htid hfree h
      have hne : (⟨f.self.pid, tid⟩ : Task) ≠ emptyTask := fun he => htid (congrArg Task.tid he)
      have hpinned : (∀ x ∈ f.self.tasks ++ [tid], (⟨f.self.pid, x⟩ : Task) ∈ g.pinning) ↔
          ¬ ∃ x ∈ f.self.tasks, x ≠ tid ∧ (⟨f.self.pid, x⟩ : Task) ∉ f.pinning := by
        have hmem : ∀ x, (⟨f.self.pid, x⟩ : Task) ∈ g.pinning ↔
            x = tid ∨ (⟨f.self.pid, x⟩ : Task) ∈ f.pinning := by
          intro x
          rw [hp, mem_set_free_iff hj (fun he => hf.pid (congrArg Task.pid he))]
          simp
        simp only [hmem, List.forall_mem_append, List.forall_mem_singleton, true_or, and_true, not_exists,
          not_and, not_not, ne_eq]
        simp only [or_iff_not_imp_left]
      rw [hpinned, hp, anyFree_set_iff hj hne, imp_iff_not_or, or_comm]
    · rw [hf.created_same (.inl hfree) h]
      have hnone : ¬ TwoFree f.pinning := fun ⟨i, _, _, hi, _⟩ => hfree ⟨i, hi⟩
      simp [hfree, hnone]

theorem terminated_served_iff (hf : Alone env.cpu f) (h : slotTaskTerminated env tid f = some g) :
    Served g ↔ NoneWaits f (.call (.terminated tid)) := by
  have ht := slotTaskTerminated_terminated hf.idle h
  have hne : ∀ x, (⟨f.self.pid, x⟩ : Task) ≠ emptyTask := fun _ he => hf.pid (congrArg Task.pid he)
  simp only [Served, NoneWaits, ht.tasks, ht.kept.pid, ht.pinning, anyFree_replace_iff (hne _),
    mem_replace_iff_mem_erase (hne _)]
  constructor
  · rintro (hfree | hall) ⟨x, hx, hnot⟩
    · exact not_or.mp hfree
    · exact absurd (hall x hx) hnot
  · intro hcond
    by_cases hwait : ∃ x ∈ f.self.tasks.erase tid,
        (⟨f.self.pid, x⟩ : Task) ∉ f.pinning.erase ⟨f.self.pid, tid⟩
    · exact .inl (not_or.mpr (hcond hwait))
    · refine .inr (fun x hx => ?_)
      by_contra hnot
      exact hwait ⟨x, hx, hnot⟩

end Alone

/-! ## Every run -/

/-- In a run of one Compact or Scatter strategy whose `setAffinity` calls succeed, every call of a
task slot leaves no CPU free or every task pinned, if and only if each call finds either no other task
of `tasks` waiting for a CPU or nothing that it would leave free. -/
theorem run_served_iff (env : Env D) (f : Frame D) (ops : List FrameOp)
    (hk : ∀ n tid cpu, env.kernel.schedSetaffinity n tid cpu = 0) (hfits : Fits env.cpu f)
    (hkind : f.self.kind = .compact ∨ f.self.kind = .scatter) (hidle : f.self.newTaskTid = 0)
    (hpid : f.self.pid ≠ 0) (hfree : ∀ t ∈ f.pinning, t = emptyTask)
    (hdef : (run (FrameOp.act env) f ops).isSome) :
    Admitted (FrameOp.act env) (fun f op => op.IsSlot → ∀ g, op.act env f = some g → Served g) f ops ↔
      Admitted (FrameOp.act env) NoneWaits f ops := by
  refine admitted_congr (Alone env.cpu) (fun _ _ _ hf _ h => hf.act h) ?_
    (.of_all_free hfits hkind hidle hpid hfree) hdef
  intro f op g hf h
  cases op with
  | refresh scan => exact ⟨fun _ => trivial, fun _ hslot => hslot.elim⟩
  | call slot =>
    have hiff : Served g ↔ NoneWaits f (.call slot) := by
      cases slot with
      | created tid => exact hf.created_served_iff hk h
      | terminated tid => exact hf.terminated_served_iff h
    rw [← hiff]
    constructor
    · intro hserved
      exact hserved trivial g h
    · intro hserved _ g' hg'
      exact Option.some.inj (h.symm.trans hg') ▸ hserved

/-- One Compact process on one CPU. -/
def oneCompact : Frame Int where
  pinning := [emptyTask]
  host := {}
  self := { kind := .compact, pid := 10 }

theorem oneCompact_fits : Fits Env.oneCpu.cpu oneCompact := by
  refine ⟨⟨?_, ?_, ?_⟩, ?_, ?_⟩ <;> simp [oneCompact, Env.oneCpu, CpuInfo.getNodeCount]

/-- The second task finds the CPU taken, and does not get it when the first one ends. -/
theorem oneCompact_idle :
    ∃ f g, run (FrameOp.act .oneCpu) oneCompact [.call (.created 10), .call (.created 11)] = some f ∧
      FrameOp.act .oneCpu f (.call (.terminated 10)) = some g ∧ g.pinning = [emptyTask] ∧
      g.self.tasks = [11] ∧ ¬ Served g := by
  refine ⟨_, _, rfl, rfl, rfl, rfl, ?_⟩
  rintro (hfull | hpinned)
  · exact hfull ⟨0, rfl⟩
  · exact absurd (hpinned 11 (by decide)) (by decide)

/-- A task that ends while no other one waits. -/
theorem oneCompact_served :
    Admitted (FrameOp.act .oneCpu) (fun f op => op.IsSlot → ∀ g, op.act .oneCpu f = some g → Served g)
      oneCompact [.call (.created 10), .call (.terminated 10), .call (.created 11)] := by
  refine (run_served_iff .oneCpu oneCompact _ (fun _ _ _ => rfl) oneCompact_fits (.inl rfl) rfl
    (by decide) (by decide) (by decide)).mpr ?_
  refine ⟨by decide, ?_⟩
  rintro _ ⟨⟩
  refine ⟨by decide, ?_⟩
  rintro _ ⟨⟩
  exact ⟨by decide, fun _ _ => trivial⟩

end AutopinPlus
