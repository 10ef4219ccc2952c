import AutopinPlus.OSServices

/-!
# Process trees

A node stores a process, its tasks and its child processes. The map of children
is the list of child nodes in increasing order of their pids: the source only
ever stores a node under its own pid.
-/
namespace AutopinPlus

inductive ProcessTree where
  | node (pid : Int) (tasks : TidSet) (childProcs : List ProcessTree)

namespace ProcessTree

def pid : ProcessTree → Int
  | node pid _ _ => pid

def tasks : ProcessTree → TidSet
  | node _ tasks _ => tasks

def childProcs : ProcessTree → List ProcessTree
  | node _ _ childProcs => childProcs

/-- The constructor `ProcessTree(int pid)`. -/
def ofPid (pid : Int) : ProcessTree := node pid (.singleton pid) []

/-- The constructor `ProcessTree(int pid, autopin_tid_list tasks)`. -/
def ofTasks (pid : Int) (tasks : TidSet) : ProcessTree := node pid (tasks.insert pid) []

/-- `ProcessTree::empty` is a node like any other, for pid 0 with the task 0. -/
def empty : ProcessTree := ofPid 0

/-- `child_procs[cpid] = c`, replacing a child with the same pid. -/
def assign (c : ProcessTree) : List ProcessTree → List ProcessTree
  | [] => [c]
  | d :: ds => if c.pid < d.pid then c :: d :: ds else if c.pid = d.pid then c :: ds else d :: assign c ds

mutual
def addChildProcess (ppid cpid : Int) : ProcessTree → ProcessTree
  | node pid tasks cs =>
    if pid = ppid then node pid tasks (assign (ofPid cpid) cs)
    else node pid tasks (addChildProcessTo ppid cpid cs)
def addChildProcessTo (ppid cpid : Int) : List ProcessTree → List ProcessTree
  | [] => []
  | c :: cs => addChildProcess ppid cpid c :: addChildProcessTo ppid cpid cs
end

mutual
def addProcessTask (pid tid : Int) : ProcessTree → ProcessTree
  | node p tasks cs => if p = pid then node p (tasks.insert tid) cs else node p tasks (addProcessTaskTo pid tid cs)
def addProcessTaskTo (pid tid : Int) : List ProcessTree → List ProcessTree
  | [] => []
  | c :: cs => addProcessTask pid tid c :: addProcessTaskTo pid tid cs
end

mutual
def addProcessTaskList (pid : Int) (tids : TidSet) : ProcessTree → ProcessTree
  | node p tasks cs =>
    if p = pid then node p (tasks.union tids) cs else node p tasks (addProcessTaskListTo pid tids cs)
def addProcessTaskListTo (pid : Int) (tids : TidSet) : List ProcessTree → List ProcessTree
  | [] => []
  | c :: cs => addProcessTaskList pid tids c :: addProcessTaskListTo pid tids cs
end

mutual
def getAllTasks : ProcessTree → TidSet
  | node _ tasks cs => insertTasks (SortedSet.empty.union tasks) cs
def insertTasks (result : TidSet) : List ProcessTree → TidSet
  | [] => result
  | c :: cs => insertTasks (result.union (getAllTasks c)) cs
end

mutual
/-- The recursion of `findTask` and `findProcess`. Trees are compared by their pids, also with `empty`. -/
def search (found : Int → TidSet → Bool) : ProcessTree → ProcessTree
  | node pid tasks cs => if found pid tasks then node pid tasks cs else searchIn found cs
def searchIn (found : Int → TidSet → Bool) : List ProcessTree → ProcessTree
  | [] => empty
  | c :: cs => if (search found c).pid ≠ empty.pid then search found c else searchIn found cs
end

def findTask (tid : Int) : ProcessTree → ProcessTree := search fun _ tasks => tid ∈ tasks

def findProcess (pid : Int) : ProcessTree → ProcessTree := search fun p _ => p = pid

def getTasks (pid : Int) (t : ProcessTree) : TidSet :=
  let tasknode := t.findTask pid
  if tasknode.pid ≠ empty.pid then tasknode.tasks else .empty

@[simp] theorem getAllTasks_empty (t : Int) : t ∈ empty.getAllTasks ↔ t = 0 := by
  simp [empty, ofPid, getAllTasks, insertTasks]

/-! ## The nodes of a tree -/

/-- A node as seen from outside: the pid of the node above it, its pid and its tasks. -/
structure Node where
  parent : Int
  pid : Int
  tasks : TidSet

mutual
/-- All nodes, each before those below it, for a root with the given parent. -/
def nodes (parent : Int) : ProcessTree → List Node
  | node pid tasks cs => ⟨parent, pid, tasks⟩ :: nodesOf pid cs
def nodesOf (parent : Int) : List ProcessTree → List Node
  | [] => []
  | c :: cs => nodes parent c ++ nodesOf parent cs
end

theorem nodesOf_eq_flatMap (parent : Int) (cs : List ProcessTree) :
    nodesOf parent cs = cs.flatMap (nodes parent) := by
  induction cs with
  | nil => rfl
  | cons c cs ih => rw [nodesOf, ih, List.flatMap_cons]

theorem exists_node_pid (parent : Int) (t : ProcessTree) : ∃ n ∈ nodes parent t, n.pid = t.pid := by
  cases t with
  | node pid tasks cs => exact ⟨⟨parent, pid, tasks⟩, by simp [nodes], rfl⟩

/-- A child with a new pid is added, not put in the place of another. -/
theorem assign_perm (c : ProcessTree) (cs : List ProcessTree) (h : ∀ d ∈ cs, d.pid ≠ c.pid) :
    (assign c cs).Perm (c :: cs) := by
  induction cs with
  | nil => exact .refl _
  | cons d ds ih =>
    have hd : c.pid ≠ d.pid := Ne.symm (h d (by simp))
    rw [assign, if_neg hd]
    split
    · exact .refl _
    · exact ((ih (fun e he => h e (List.mem_cons_of_mem d he))).cons d).trans (.swap c d ds)

mutual
theorem addChildProcess_absent (ppid cpid parent : Int) (t : ProcessTree)
    (h : ∀ n ∈ nodes parent t, n.pid ≠ ppid) : addChildProcess ppid cpid t = t := by
  cases t with
  | node pid tasks cs =>
    rw [nodes, List.forall_mem_cons] at h
    rw [addChildProcess, if_neg h.1, addChildProcessTo_absent ppid cpid pid cs h.2]
theorem addChildProcessTo_absent (ppid cpid parent : Int) (cs : List ProcessTree)
    (h : ∀ n ∈ nodesOf parent cs, n.pid ≠ ppid) : addChildProcessTo ppid cpid cs = cs := by
  cases cs with
  | nil => rfl
  | cons c cs =>
    rw [nodesOf, List.forall_mem_append] at h
    rw [addChildProcessTo, addChildProcess_absent ppid cpid parent c h.1,
      addChildProcessTo_absent ppid cpid parent cs h.2]
end

mutual
/-- In a tree without duplicate pids a new child becomes one new node under its parent. -/
theorem nodes_addChildProcess (ppid cpid parent : Int) (t : ProcessTree)
    (hnodup : ((nodes parent t).map Node.pid).Nodup) (hp : ∃ n ∈ nodes parent t, n.pid = ppid)
    (hc : ∀ n ∈ nodes parent t, n.pid ≠ cpid) :
    (nodes parent (addChildProcess ppid cpid t)).Perm
      (⟨ppid, cpid, .singleton cpid⟩ :: nodes parent t) := by
  cases t with
  | node pid tasks cs =>
    simp only [nodes, List.map_cons, List.nodup_cons, List.exists_mem_cons_iff, List.forall_mem_cons]
      at hnodup hp hc
    rw [addChildProcess]
    split
    · rename_i hpid
      have hfresh : ∀ d ∈ cs, d.pid ≠ (ofPid cpid).pid := by
        intro d hd
        obtain ⟨n, hn, hnd⟩ := exists_node_pid pid d
        have hmem : n ∈ nodesOf pid cs := by
          rw [nodesOf_eq_flatMap]
          exact List.mem_flatMap.mpr ⟨d, hd, hn⟩
        exact hnd ▸ hc.2 n hmem
      have hperm : (nodesOf pid (assign (ofPid cpid) cs)).Perm
          (⟨ppid, cpid, .singleton cpid⟩ :: nodesOf pid cs) := by
        rw [nodesOf_eq_flatMap]
        refine ((assign_perm _ cs hfresh).flatMap_right _).trans ?_
        rw [List.flatMap_cons, ← nodesOf_eq_flatMap, hpid]
        exact .refl _
      rw [nodes, nodes]
      exact (hperm.cons _).trans (.swap _ _ _)
    · rename_i hpid
      have hp' := hp.resolve_left hpid
      rw [nodes, nodes]
      exact ((nodesOf_addChildProcessTo ppid cpid pid cs hnodup.2 hp' hc.2).cons _).trans (.swap _ _ _)
theorem nodesOf_addChildProcessTo (ppid cpid parent : Int) (cs : List ProcessTree)
    (hnodup : ((nodesOf parent cs).map Node.pid).Nodup) (hp : ∃ n ∈ nodesOf parent cs, n.pid = ppid)
    (hc : ∀ n ∈ nodesOf parent cs, n.pid ≠ cpid) :
    (nodesOf parent (addChildProcessTo ppid cpid cs)).Perm
      (⟨ppid, cpid, .singleton cpid⟩ :: nodesOf parent cs) := by
  cases cs with
  | nil => simp [nodesOf] at hp
  | cons c cs =>
    rw [nodesOf, List.map_append, List.nodup_append] at hnodup
    obtain ⟨hn1, hn2, hdisj⟩ := hnodup
    rw [nodesOf, List.forall_mem_append] at hc
    have hother : ∀ n ∈ nodes parent c, ∀ m ∈ nodesOf parent cs, n.pid ≠ m.pid :=
      fun n hn m hm => hdisj n.pid (List.mem_map_of_mem hn) m.pid (List.mem_map_of_mem hm)
    rw [addChildProcessTo, nodesOf, nodesOf]
    obtain ⟨n, hn, hpid⟩ := hp
    rw [nodesOf, List.mem_append] at hn
    rcases hn with hn | hn
    · rw [addChildProcessTo_absent ppid cpid parent cs
        (fun m hm he => hother n hn m hm (hpid.trans he.symm))]
      exact (nodes_addChildProcess ppid cpid parent c hn1 ⟨n, hn, hpid⟩ hc.1).append_right _
    · rw [addChildProcess_absent ppid cpid parent c
        (fun m hm he => hother m hm n hn (he.trans hpid.symm))]
      exact ((nodesOf_addChildProcessTo ppid cpid parent cs hn2 ⟨n, hn, hpid⟩ hc.2).append_left _).trans
        List.perm_middle
end

/-- What `addProcessTaskList` does to a node. -/
def Node.addTasks (pid : Int) (tids : TidSet) (n : Node) : Node :=
  if n.pid = pid then { n with tasks := n.tasks.union tids } else n

theorem map_addTasks_absent (pid : Int) (tids : TidSet) (ns : List Node) (h : ∀ n ∈ ns, n.pid ≠ pid) :
    ns.map (Node.addTasks pid tids) = ns := by
  conv_rhs => rw [← List.map_id ns]
  exact List.map_congr_left (fun n hn => by simp [Node.addTasks, h n hn])

mutual
theorem nodes_addProcessTaskList (pid : Int) (tids : TidSet) (parent : Int) (t : ProcessTree)
    (hnodup : ((nodes parent t).map Node.pid).Nodup) :
    nodes parent (addProcessTaskList pid tids t) = (nodes parent t).map (Node.addTasks pid tids) := by
  cases t with
  | node p tasks cs =>
    simp only [nodes, List.map_cons, List.nodup_cons] at hnodup
    rw [addProcessTaskList]
    split
    · rename_i hp
      have hrest : ∀ n ∈ nodesOf p cs, n.pid ≠ pid :=
        fun n hn he => hnodup.1 (List.mem_map.mpr ⟨n, hn, he.trans hp.symm⟩)
      rw [nodes, nodes, List.map_cons, map_addTasks_absent pid tids _ hrest]
      simp [Node.addTasks, hp]
    · rename_i hp
      rw [nodes, nodes, List.map_cons, nodesOf_addProcessTaskListTo pid tids p cs hnodup.2]
      simp [Node.addTasks, hp]
theorem nodesOf_addProcessTaskListTo (pid : Int) (tids : TidSet) (parent : Int) (cs : List ProcessTree)
    (hnodup : ((nodesOf parent cs).map Node.pid).Nodup) :
    nodesOf parent (addProcessTaskListTo pid tids cs) =
      (nodesOf parent cs).map (Node.addTasks pid tids) := by
  cases cs with
  | nil => rfl
  | cons c cs =>
    rw [nodesOf, List.map_append, List.nodup_append] at hnodup
    rw [addProcessTaskListTo, nodesOf, nodesOf, List.map_append,
      nodes_addProcessTaskList pid tids parent c hnodup.1,
      nodesOf_addProcessTaskListTo pid tids parent cs hnodup.2.1]
end

mutual
/-- `getAllTasks` is the union over the nodes. -/
theorem mem_getAllTasks (tid parent : Int) (t : ProcessTree) :
    tid ∈ t.getAllTasks ↔ ∃ n ∈ nodes parent t, tid ∈ n.tasks := by
  cases t with
  | node pid tasks cs =>
    rw [getAllTasks, mem_insertTasks tid pid, nodes, List.exists_mem_cons_iff]
    simp
theorem mem_insertTasks (tid parent : Int) (result : TidSet) (cs : List ProcessTree) :
    tid ∈ insertTasks result cs ↔ tid ∈ result ∨ ∃ n ∈ nodesOf parent cs, tid ∈ n.tasks := by
  cases cs with
  | nil => simp [insertTasks, nodesOf]
  | cons c cs =>
    rw [insertTasks, mem_insertTasks tid parent, nodesOf, SortedSet.mem_union,
      mem_getAllTasks tid parent c]
    simp only [List.mem_append, or_and_right, exists_or, or_assoc]
end

theorem mem_getAllTasks_node (tid pid : Int) (tasks : TidSet) (cs : List ProcessTree) :
    tid ∈ (node pid tasks cs).getAllTasks ↔ tid ∈ tasks ∨ ∃ c ∈ cs, tid ∈ c.getAllTasks := by
  rw [getAllTasks, mem_insertTasks tid pid, nodesOf_eq_flatMap]
  simp only [SortedSet.mem_union, SortedSet.not_mem_empty, false_or, List.mem_flatMap, mem_getAllTasks tid pid]
  refine or_congr_right ⟨?_, ?_⟩
  · rintro ⟨n, ⟨c, hc, hn⟩, htid⟩
    exact ⟨c, hc, n, hn, htid⟩
  · rintro ⟨c, hc, n, hn, htid⟩
    exact ⟨n, ⟨c, hc, hn⟩, htid⟩

theorem mem_assign {c d : ProcessTree} {cs : List ProcessTree} (h : d ∈ assign c cs) : d = c ∨ d ∈ cs := by
  induction cs with
  | nil => exact .inl (List.mem_singleton.mp h)
  | cons e es ih =>
    rw [assign] at h
    split at h
    · exact List.mem_cons.mp h
    · split at h
      · exact (List.mem_cons.mp h).imp id (List.mem_cons_of_mem e)
      · rcases List.mem_cons.mp h with rfl | h
        · exact .inr (by simp)
        · exact (ih h).imp id (List.mem_cons_of_mem e)

mutual
/-- A new child process brings no task but its own. -/
theorem mem_getAllTasks_addChildProcess (ppid cpid tid : Int) (t : ProcessTree)
    (h : tid ∈ (addChildProcess ppid cpid t).getAllTasks) : tid ∈ t.getAllTasks ∨ tid = cpid := by
  cases t with
  | node pid tasks cs =>
    rw [addChildProcess] at h
    rw [mem_getAllTasks_node]
    split at h
    · rcases (mem_getAllTasks_node ..).mp h with h | ⟨c, hc, h⟩
      · exact .inl (.inl h)
      · rcases mem_assign hc with rfl | hc
        · exact .inr (by simpa [ofPid, mem_getAllTasks_node] using h)
        · exact .inl (.inr ⟨c, hc, h⟩)
    · rcases (mem_getAllTasks_node ..).mp h with h | h
      · exact .inl (.inl h)
      · exact (mem_getAllTasks_addChildProcessTo ppid cpid tid cs h).imp .inr id
theorem mem_getAllTasks_addChildProcessTo (ppid cpid tid : Int) (cs : List ProcessTree)
    (h : ∃ c ∈ addChildProcessTo ppid cpid cs, tid ∈ c.getAllTasks) :
    (∃ c ∈ cs, tid ∈ c.getAllTasks) ∨ tid = cpid := by
  cases cs with
  | nil => exact .inl h
  | cons c cs =>
    rw [addChildProcessTo, List.exists_mem_cons_iff] at h
    rw [List.exists_mem_cons_iff]
    rcases h with h | h
    · exact (mem_getAllTasks_addChildProcess ppid cpid tid c h).imp .inl id
    · exact (mem_getAllTasks_addChildProcessTo ppid cpid tid cs h).imp .inr id
end

mutual
theorem mem_getAllTasks_addProcessTaskList (pid : Int) (tids : TidSet) (tid : Int) (t : ProcessTree)
    (h : tid ∈ (addProcessTaskList pid tids t).getAllTasks) : tid ∈ t.getAllTasks ∨ tid ∈ tids := by
  cases t with
  | node p tasks cs =>
    rw [addProcessTaskList] at h
    rw [mem_getAllTasks_node]
    split at h
    · rcases (mem_getAllTasks_node ..).mp h with h | h
      · exact ((SortedSet.mem_union ..).mp h).imp .inl id
      · exact .inl (.inr h)
    · rcases (mem_getAllTasks_node ..).mp h with h | h
      · exact .inl (.inl h)
      · exact (mem_getAllTasks_addProcessTaskListTo pid tids tid cs h).imp .inr id
theorem mem_getAllTasks_addProcessTaskListTo (pid : Int) (tids : TidSet) (tid : Int)
    (cs : List ProcessTree) (h : ∃ c ∈ addProcessTaskListTo pid tids cs, tid ∈ c.getAllTasks) :
    (∃ c ∈ cs, tid ∈ c.getAllTasks) ∨ tid ∈ tids := by
  cases cs with
  | nil => exact .inl h
  | cons c cs =>
    rw [addProcessTaskListTo, List.exists_mem_cons_iff] at h
    rw [List.exists_mem_cons_iff]
    rcases h with h | h
    · exact (mem_getAllTasks_addProcessTaskList pid tids tid c h).imp .inl id
    · exact (mem_getAllTasks_addProcessTaskListTo pid tids tid cs h).imp .inr id
end

theorem pid_addChildProcess (ppid cpid : Int) (t : ProcessTree) :
    (addChildProcess ppid cpid t).pid = t.pid := by
  cases t with
  | node pid tasks cs =>
    rw [addChildProcess]
    split <;> rfl

theorem pid_addProcessTaskList (pid : Int) (tids : TidSet) (t : ProcessTree) :
    (addProcessTaskList pid tids t).pid = t.pid := by
  cases t with
  | node p tasks cs =>
    rw [addProcessTaskList]
    split <;> rfl

end ProcessTree

end AutopinPlus
