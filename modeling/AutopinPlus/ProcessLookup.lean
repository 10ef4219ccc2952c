import AutopinPlus.ProcessTree

/-!
# Lookups in a process tree

`findTask` and `findProcess` search a tree in preorder and compare what a branch returns with the empty tree. In
a tree without the pid 0 each of them is the first node in preorder with the task or the pid. `getTasks` asks
for a process, but searches for a task.
-/
namespace AutopinPlus

namespace ProcessTree

/-! ## The subtrees in preorder -/

mutual
/-- The node itself, then what is below it. -/
def subtrees : ProcessTree → List ProcessTree
  | node pid tasks cs => node pid tasks cs :: subtreesOf cs
def subtreesOf : List ProcessTree → List ProcessTree
  | [] => []
  | c :: cs => subtrees c ++ subtreesOf cs
end

mutual
/-- `getAllTasks` gives the tasks of all subtrees. -/
theorem mem_getAllTasks_iff (tid : Int) (t : ProcessTree) : tid ∈ t.getAllTasks ↔ ∃ s ∈ subtrees t, tid ∈ s.tasks := by
  cases t with
  | node pid tasks cs =>
    rw [mem_getAllTasks_node, subtrees, List.exists_mem_cons_iff, exists_mem_getAllTasks_iff tid cs]
    rfl
theorem exists_mem_getAllTasks_iff (tid : Int) (cs : List ProcessTree) :
    (∃ c ∈ cs, tid ∈ c.getAllTasks) ↔ ∃ s ∈ subtreesOf cs, tid ∈ s.tasks := by
  cases cs with
  | nil => simp [subtreesOf]
  | cons c cs =>
    rw [List.exists_mem_cons_iff, subtreesOf, mem_getAllTasks_iff tid c, exists_mem_getAllTasks_iff tid cs]
    simp only [List.mem_append, or_and_right, exists_or]
end

/-! ## What the calls keep of each process -/

section

variable {P : Int → TidSet → Prop}

theorem forall_subtrees_leaf (pid : Int) (tasks : TidSet) :
    (∀ s ∈ subtrees (node pid tasks []), P s.pid s.tasks) ↔ P pid tasks := by
  rw [subtrees, subtreesOf, List.forall_mem_singleton]
  rfl

theorem forall_subtreesOf_assign {c : ProcessTree} {cs : List ProcessTree}
    (hc : ∀ s ∈ subtrees c, P s.pid s.tasks) (h : ∀ s ∈ subtreesOf cs, P s.pid s.tasks) :
    ∀ s ∈ subtreesOf (assign c cs), P s.pid s.tasks := by
  induction cs with
  | nil => simpa [assign, subtreesOf] using hc
  | cons d ds ih =>
    have hrest := h
    rw [subtreesOf, List.forall_mem_append] at hrest
    rw [assign]
    split
    · rw [subtreesOf, List.forall_mem_append]
      exact ⟨hc, h⟩
    · split
      · rw [subtreesOf, List.forall_mem_append]
        exact ⟨hc, hrest.2⟩
      · rw [subtreesOf, List.forall_mem_append]
        exact ⟨hrest.1, ih hrest.2⟩

mutual
theorem forall_addChildProcess {cpid : Int} (hnew : P cpid (.singleton cpid)) (ppid : Int) (t : ProcessTree)
    (h : ∀ s ∈ subtrees t, P s.pid s.tasks) : ∀ s ∈ subtrees (addChildProcess ppid cpid t), P s.pid s.tasks := by
  cases t with
  | node pid tasks cs =>
    rw [subtrees, List.forall_mem_cons] at h
    rw [addChildProcess]
    split
    · rw [subtrees, List.forall_mem_cons]
      exact ⟨h.1, forall_subtreesOf_assign ((forall_subtrees_leaf ..).mpr hnew) h.2⟩
    · rw [subtrees, List.forall_mem_cons]
      exact ⟨h.1, forall_addChildProcessTo hnew ppid cs h.2⟩
theorem forall_addChildProcessTo {cpid : Int} (hnew : P cpid (.singleton cpid)) (ppid : Int) (cs : List ProcessTree)
    (h : ∀ s ∈ subtreesOf cs, P s.pid s.tasks) :
    ∀ s ∈ subtreesOf (addChildProcessTo ppid cpid cs), P s.pid s.tasks := by
  cases cs with
  | nil => exact h
  | cons c cs =>
    rw [subtreesOf, List.forall_mem_append] at h
    rw [addChildProcessTo, subtreesOf, List.forall_mem_append]
    exact ⟨forall_addChildProcess hnew ppid c h.1, forall_addChildProcessTo hnew ppid cs h.2⟩
end

mutual
theorem forall_addProcessTaskList {tids : TidSet} (hadd : ∀ pid tasks, P pid tasks → P pid (tasks.union tids))
    (pid : Int)
    (t : ProcessTree) (h : ∀ s ∈ subtrees t, P s.pid s.tasks) :
    ∀ s ∈ subtrees (addProcessTaskList pid tids t), P s.pid s.tasks := by
  cases t with
  | node p tasks cs =>
    rw [subtrees, List.forall_mem_cons] at h
    rw [addProcessTaskList]
    split
    · rw [subtrees, List.forall_mem_cons]
      exact ⟨hadd p tasks h.1, h.2⟩
    · rw [subtrees, List.forall_mem_cons]
      exact ⟨h.1, forall_addProcessTaskListTo hadd pid cs h.2⟩
theorem forall_addProcessTaskListTo {tids : TidSet} (hadd : ∀ pid tasks, P pid tasks → P pid (tasks.union tids))
    (pid : Int) (cs : List ProcessTree) (h : ∀ s ∈ subtreesOf cs, P s.pid s.tasks) :
    ∀ s ∈ subtreesOf (addProcessTaskListTo pid tids cs), P s.pid s.tasks := by
  cases cs with
  | nil => exact h
  | cons c cs =>
    rw [subtreesOf, List.forall_mem_append] at h
    rw [addProcessTaskListTo, subtreesOf, List.forall_mem_append]
    exact ⟨forall_addProcessTaskList hadd pid c h.1, forall_addProcessTaskListTo hadd pid cs h.2⟩
end

end

mutual
/-- One task is added as a list of one. -/
theorem addProcessTask_eq (pid tid : Int) (t : ProcessTree) :
    addProcessTask pid tid t = addProcessTaskList pid (.singleton tid) t := by
  cases t with
  | node p tasks cs =>
    have hinsert : tasks.insert tid = tasks.union (.singleton tid) := by
      apply SortedSet.ext_mem
      intro x
      rw [SortedSet.mem_insert, SortedSet.mem_union, SortedSet.mem_singleton, or_comm]
    rw [addProcessTask, addProcessTaskList, addProcessTaskTo_eq pid tid cs, hinsert]
theorem addProcessTaskTo_eq (pid tid : Int) (cs : List ProcessTree) :
    addProcessTaskTo pid tid cs = addProcessTaskListTo pid (.singleton tid) cs := by
  cases cs with
  | nil => rfl
  | cons c cs =>
    rw [addProcessTaskTo, addProcessTaskListTo, addProcessTask_eq pid tid c, addProcessTaskTo_eq pid tid cs]
end

/-! ## Trees that are built by the calls -/

/-- A tree of the constructors and any calls that add to it, in which no process gets the pid 0. -/
inductive Built : ProcessTree → Prop
  | ofPid {pid : Int} (hpid : pid ≠ 0) : Built (ofPid pid)
  | ofTasks {pid : Int} (hpid : pid ≠ 0) (tasks : TidSet) : Built (ofTasks pid tasks)
  | addChildProcess {t : ProcessTree} (ht : Built t) (ppid : Int) {cpid : Int} (hcpid : cpid ≠ 0) :
      Built (addChildProcess ppid cpid t)
  | addProcessTask {t : ProcessTree} (ht : Built t) (pid tid : Int) : Built (addProcessTask pid tid t)
  | addProcessTaskList {t : ProcessTree} (ht : Built t) (pid : Int) (tids : TidSet) :
      Built (addProcessTaskList pid tids t)

/-- A process that has its own pid as a task and not the pid of the empty tree. -/
def OwnTask (pid : Int) (tasks : TidSet) : Prop := pid ≠ 0 ∧ pid ∈ tasks

theorem OwnTask.union {pid : Int} {tasks : TidSet} (h : OwnTask pid tasks) (tids : TidSet) :
    OwnTask pid (tasks.union tids) :=
  ⟨h.1, (SortedSet.mem_union ..).mpr (.inl h.2)⟩

theorem OwnTask.insert {pid : Int} (h : pid ≠ 0) (tasks : TidSet) : OwnTask pid (tasks.insert pid) :=
  ⟨h, (SortedSet.mem_insert ..).mpr (.inl rfl)⟩

theorem OwnTask.singleton {pid : Int} (h : pid ≠ 0) : OwnTask pid (.singleton pid) :=
  ⟨h, (SortedSet.mem_singleton ..).mpr rfl⟩

theorem Built.own_task {t : ProcessTree} (h : Built t) : ∀ s ∈ subtrees t, OwnTask s.pid s.tasks := by
  induction h with
  | ofPid hpid => exact (forall_subtrees_leaf ..).mpr (.singleton hpid)
  | ofTasks hpid tasks => exact (forall_subtrees_leaf ..).mpr (.insert hpid tasks)
  | addChildProcess ht ppid hcpid ih => exact forall_addChildProcess (P := OwnTask) (.singleton hcpid) ppid _ ih
  | addProcessTask ht pid tid ih =>
    rw [addProcessTask_eq]
    exact forall_addProcessTaskList (P := OwnTask) (fun _ _ h => h.union _) pid _ ih
  | addProcessTaskList ht pid tids ih =>
    exact forall_addProcessTaskList (P := OwnTask) (fun _ _ h => h.union tids) pid _ ih

theorem Built.pid_ne_zero {t : ProcessTree} (h : Built t) : ∀ s ∈ subtrees t, s.pid ≠ 0 :=
  fun s hs => (h.own_task s hs).1

/-! ## The searches -/

section

variable (found : Int → TidSet → Bool)

mutual
/-- Without the pid 0, a search finds the first node in preorder. -/
theorem search_eq (t : ProcessTree) (h : ∀ s ∈ subtrees t, s.pid ≠ 0) :
    search found t = ((subtrees t).find? fun s => found s.pid s.tasks).getD empty := by
  cases t with
  | node pid tasks cs =>
    rw [subtrees, List.forall_mem_cons] at h
    rw [search, subtrees]
    by_cases hfound : found (node pid tasks cs).pid (node pid tasks cs).tasks = true
    · rw [List.find?_cons_of_pos (p := fun s : ProcessTree => found s.pid s.tasks) hfound, Option.getD_some]
      exact if_pos hfound
    · rw [List.find?_cons_of_neg (p := fun s : ProcessTree => found s.pid s.tasks) hfound, ← searchIn_eq cs h.2]
      exact if_neg hfound
theorem searchIn_eq (cs : List ProcessTree) (h : ∀ s ∈ subtreesOf cs, s.pid ≠ 0) :
    searchIn found cs = ((subtreesOf cs).find? fun s => found s.pid s.tasks).getD empty := by
  cases cs with
  | nil => rfl
  | cons c cs =>
    rw [subtreesOf, List.forall_mem_append] at h
    rw [searchIn, subtreesOf, List.find?_append, search_eq c h.1, searchIn_eq cs h.2]
    cases hfind : (subtrees c).find? fun s => found s.pid s.tasks with
    | none => rfl
    | some s =>
      have hs : s.pid ≠ empty.pid := h.1 s (List.mem_of_find?_eq_some hfind)
      rw [Option.getD_some, if_pos hs]
      rfl
end

/-- A search is sound and complete. -/
theorem search_spec {t : ProcessTree} (h : ∀ s ∈ subtrees t, s.pid ≠ 0) :
    ((∃ s ∈ subtrees t, found s.pid s.tasks = true) →
      search found t ∈ subtrees t ∧ found (search found t).pid (search found t).tasks = true) ∧
    ((∀ s ∈ subtrees t, ¬ found s.pid s.tasks = true) → search found t = empty) := by
  rw [search_eq found t h]
  cases hfind : (subtrees t).find? fun s => found s.pid s.tasks with
  | none =>
    have hnone := List.find?_eq_none.mp hfind
    constructor
    · rintro ⟨s, hs, hfound⟩
      exact absurd hfound (hnone s hs)
    · intro _
      rfl
  | some s =>
    have hmem := List.mem_of_find?_eq_some hfind
    have hfound := List.find?_some hfind
    constructor
    · intro _
      exact ⟨hmem, hfound⟩
    · intro hnone
      exact absurd hfound (hnone s hmem)

end

/-- In every tree that the calls build, each process has its own pid among its tasks, `findTask` gives a node
with the task and `findProcess` one with the pid, wherever in the tree there is one, and else the empty tree. -/
theorem lookups_spec {t : ProcessTree} (ht : Built t) :
    (∀ s ∈ subtrees t, s.pid ∈ s.tasks) ∧
    (∀ tid, (tid ∈ t.getAllTasks → t.findTask tid ∈ subtrees t ∧ tid ∈ (t.findTask tid).tasks) ∧
      (tid ∉ t.getAllTasks → t.findTask tid = empty)) ∧
    ∀ p, ((∃ s ∈ subtrees t, s.pid = p) → t.findProcess p ∈ subtrees t ∧ (t.findProcess p).pid = p) ∧
      ((∀ s ∈ subtrees t, s.pid ≠ p) → t.findProcess p = empty) := by
  refine ⟨fun s hs => (ht.own_task s hs).2, ?_, ?_⟩
  · intro tid
    have hspec := search_spec (fun _ tasks => tid ∈ tasks) ht.pid_ne_zero
    simp only [decide_eq_true_eq] at hspec
    rw [mem_getAllTasks_iff]
    exact ⟨hspec.1, fun hnot => hspec.2 fun s hs htid => hnot ⟨s, hs, htid⟩⟩
  · intro p
    have hspec := search_spec (fun pid _ => pid = p) ht.pid_ne_zero
    simp only [decide_eq_true_eq] at hspec
    exact hspec

/-- Process 1 with the child 2, which has the thread 3. -/
def family : ProcessTree := addProcessTask 2 3 (addChildProcess 1 2 (ofPid 1))

theorem family_built : Built family := .addProcessTask (.addChildProcess (.ofPid (by decide)) 1 (by decide)) 2 3

theorem family_lookups : 3 ∈ (family.findTask 3).tasks ∧ family.findTask 4 = empty ∧ family.findProcess 3 = empty :=
  ⟨(((lookups_spec family_built).2.1 3).1 (by decide)).2, ((lookups_spec family_built).2.1 4).2 (by decide),
    ((lookups_spec family_built).2.2 3).2 (by decide)⟩

/-! ## The tasks of a process -/

/-- `getTasks` gives the tasks of the first node in preorder that has the number as a task. -/
theorem getTasks_eq {t : ProcessTree} (h : ∀ s ∈ subtrees t, s.pid ≠ 0) (p : Int) :
    t.getTasks p = ((subtrees t).find? fun s => p ∈ s.tasks).elim .empty tasks := by
  rw [getTasks, findTask, search_eq _ t h]
  cases hfind : (subtrees t).find? fun s => p ∈ s.tasks with
  | none => rfl
  | some s => exact if_pos (h s (List.mem_of_find?_eq_some hfind))

/-- The first node in preorder that has `p` as a task, if any, has the tasks of process `p`. -/
def PidFirst (t : ProcessTree) (p : Int) : Prop :=
  ∀ before first after, subtrees t = before ++ first :: after → p ∈ first.tasks → (∀ s ∈ before, p ∉ s.tasks) →
    ∃ s ∈ subtrees t, s.pid = p ∧ s.tasks = first.tasks

/-- It is enough that no other process has `p` as a task. -/
theorem pidFirst_of_own {t : ProcessTree} {p : Int} (h : ∀ s ∈ subtrees t, p ∈ s.tasks → s.pid = p) : PidFirst t p := by
  intro before first after hsplit hmem _
  have hfirst : first ∈ subtrees t := by simp [hsplit]
  exact ⟨first, hfirst, h first hfirst hmem, rfl⟩

/-- `getTasks` gives the tasks of a process, and nothing for a number that is none, exactly where the search for
the number as a task meets the process first. -/
theorem getTasks_correct_iff {t : ProcessTree} (ht : Built t) (hdistinct : ((subtrees t).map pid).Nodup) (p : Int) :
    (∀ s ∈ subtrees t, s.pid = p → t.getTasks p = s.tasks) ∧
      ((∀ s ∈ subtrees t, s.pid ≠ p) → t.getTasks p = .empty) ↔ PidFirst t p := by
  rw [getTasks_eq ht.pid_ne_zero]
  cases hfind : (subtrees t).find? fun s => p ∈ s.tasks with
  | none =>
    have hnone : ∀ s ∈ subtrees t, p ∉ s.tasks := by simpa using hfind
    constructor
    · intro _ before first after hsplit hmem _
      exact absurd hmem (hnone first (by simp [hsplit]))
    · intro _
      constructor
      · intro s hs hpid
        exact absurd (hpid ▸ (ht.own_task s hs).2) (hnone s hs)
      · intro _
        rfl
  | some first =>
    obtain ⟨hmem, before, after, hsplit, hbefore⟩ := List.find?_eq_some_iff_append.mp hfind
    simp only [decide_eq_true_eq, Bool.not_eq_true', decide_eq_false_iff_not] at hmem hbefore
    constructor
    · rintro ⟨hprocess, hother⟩ before' first' after' hsplit' hmem' hbefore'
      have hfind' : ((subtrees t).find? fun s => p ∈ s.tasks) = some first' :=
        List.find?_eq_some_iff_append.mpr ⟨by simpa using hmem', before', after', hsplit', by simpa using hbefore'⟩
      obtain rfl : first = first' := Option.some.inj (hfind.symm.trans hfind')
      by_contra hnone
      have habsent : ∀ s ∈ subtrees t, s.pid ≠ p := by
        intro s hs hpid
        exact hnone ⟨s, hs, hpid, (hprocess s hs hpid).symm⟩
      have hempty : first.tasks = .empty := hother habsent
      rw [hempty] at hmem
      exact SortedSet.not_mem_empty p hmem
    · intro hfirst
      obtain ⟨s, hs, hpid, htasks⟩ := hfirst before first after hsplit hmem hbefore
      constructor
      · intro s' hs' hpid'
        obtain rfl : s = s' := List.inj_on_of_nodup_map hdistinct hs hs' (hpid.trans hpid'.symm)
        exact htasks.symm
      · intro hother
        exact absurd hpid (hother s hs)

theorem family_tasks : family.getTasks 2 = (family.findProcess 2).tasks :=
  ((getTasks_correct_iff family_built (by decide) 2).mpr (pidFirst_of_own (by decide))).1 _ (.tail _ (.head _)) rfl

/-- There is no process 3, but the tasks of process 2, whose thread it is, are returned. -/
theorem family_thread :
    Built family ∧ ((subtrees family).map pid).Nodup ∧ (∀ s ∈ subtrees family, s.pid ≠ 3) ∧
      (family.getTasks 3).elems = [2, 3] ∧ family.getTasks 3 ≠ .empty := by
  have htasks : (family.getTasks 3).elems = [2, 3] := by decide
  refine ⟨family_built, by decide, by decide, htasks, ?_⟩
  intro hempty
  rw [hempty] at htasks
  cases htasks

end ProcessTree

end AutopinPlus
