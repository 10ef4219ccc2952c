import AutopinPlus.ControlStrategy
import AutopinPlus.Worklist

/-!
# The observed process and its tree

`getProcessTree` reads `/proc` process by process from a worklist. What each read
finds is an answer of the file system. On a fixed table of processes that is read
without errors the tree has exactly the observed process and its descendants, each
under its parent, and it is found within as many rounds as there are processes.
-/
namespace AutopinPlus

open Relation Worklist

/-- What the `n`-th read of `/proc` finds: the entries of `/proc/<pid>/task`, and the processes
whose parent is `pid`, with whether all processes could be read. No answer means that the
directory could not be entered. -/
structure ProcFs where
  threads : Nat → Int → Option TidSet
  children : Nat → Int → Option (TidSet × Bool)

/-- `OSServices::getProcessThreads`. -/
def getProcessThreads (p : ProcFs) (n : Nat) (pid : Int) (c : AutopinContext) : TidSet × AutopinContext :=
  match p.threads n pid with
  | some tids => (tids, c)
  | none => (.empty, c.report .system "get_threads" ("Could not get threads of process " ++ toString pid))

/-- `OSServices::getChildProcesses`. -/
def getChildProcesses (p : ProcFs) (n : Nat) (pid : Int) (c : AutopinContext) : TidSet × AutopinContext :=
  match p.children n pid with
  | some (pids, true) => (pids, c)
  | some (pids, false) =>
    (pids, c.report .system "get_children" ("Could not get all children of process " ++ toString pid))
  | none => (.empty, c.report .system "access_proc" "Could not access the proc filesystem")

structure ObservedProcess where
  pid : Int
  running : Bool := true

namespace ObservedProcess

/-- The loop over the worklist; no result if it is still going after `fuel` rounds. -/
def grow (p : ProcFs) :
    Nat → Nat → ProcessTree → List (Int × Int) → AutopinContext → Option (ProcessTree × AutopinContext)
  | _, _, result, [], c => some (result, c)
  | 0, _, _, _ :: _, _ => none
  | fuel + 1, n, result, workItem :: worklist, c =>
    let result := result.addChildProcess workItem.1 workItem.2
    let (tasks, c) := getProcessThreads p n workItem.2 c
    if c.isError then some (.empty, c)
    else
      let result := result.addProcessTaskList workItem.2 tasks
      let (childProcs, c) := getChildProcesses p (n + 1) workItem.2 c
      if c.isError then some (.empty, c)
      else grow p fuel (n + 2) result (worklist ++ childProcs.elems.map (fun x => (workItem.2, x))) c

def getProcessTree (o : ObservedProcess) (p : ProcFs) (fuel : Nat) (c : AutopinContext) :
    Option (ProcessTree × AutopinContext) :=
  if !o.running then some (.empty, c)
  else
    let (tasks, c) := getProcessThreads p 0 o.pid c
    if c.isError then some (.empty, c)
    else
      let result := (ProcessTree.ofPid o.pid).addProcessTaskList o.pid tasks
      let (childProcs, c) := getChildProcesses p 1 o.pid c
      if c.isError then some (.empty, c)
      else grow p fuel 2 result (childProcs.elems.map (fun x => (o.pid, x))) c

end ObservedProcess

/-! ## Process tables -/

structure ProcTable where
  procs : List Int
  parent : Int → Int
  threads : Int → TidSet

namespace ProcTable

def IsChild (t : ProcTable) (a b : Int) : Prop := b ∈ t.procs ∧ t.parent b = a

/-- The process itself or a process below it. -/
def Descends (t : ProcTable) : Int → Int → Prop := ReflTransGen t.IsChild

def children (t : ProcTable) (pid : Int) : TidSet := .ofList (t.procs.filter (fun q => t.parent q = pid))

/-- A process is one of its own threads and not its own ancestor. -/
structure Valid (t : ProcTable) : Prop where
  threads : ∀ q ∈ t.procs, q ∈ t.threads q
  acyclic : ∀ q, ¬ TransGen t.IsChild q q

theorem mem_children (t : ProcTable) (a b : Int) : b ∈ (t.children a).elems ↔ t.IsChild a b := by
  simp [children, IsChild]

theorem below_eq (t : ProcTable) : Below (fun a => (t.children a).elems) = t.Descends := by
  have hrel : (fun x y => y ∈ (t.children x).elems) = t.IsChild := by
    funext a b
    exact propext (t.mem_children a b)
  funext a b
  rw [Below, hrel, Descends]

theorem Valid.forest {t : ProcTable} (hv : t.Valid) (root : Int) :
    Forest (fun a => (t.children a).elems) root where
  nodup a := (t.children a).elems_nodup
  parent a a' b h h' := by
    rw [mem_children] at h h'
    exact h.2.symm.trans h'.2
  top a ha hroot := by
    rw [below_eq] at ha
    rw [mem_children] at hroot
    exact hv.acyclic root (TransGen.tail' ha hroot)

theorem Descends.mem {t : ProcTable} {a b : Int} (h : t.Descends a b) (ha : a ∈ t.procs) :
    b ∈ t.procs := by
  induction h with
  | refl => exact ha
  | tail _ hb _ => exact hb.1

/-- Adding the threads of a process to its new node leaves exactly these. -/
theorem Valid.union_threads {t : ProcTable} (hv : t.Valid) {q : Int} (hq : q ∈ t.procs) :
    (SortedSet.singleton q).union (t.threads q) = t.threads q := by
  apply SortedSet.ext_mem
  intro x
  simp only [SortedSet.mem_union, SortedSet.mem_singleton, or_iff_right_iff_imp]
  rintro rfl
  exact hv.threads x hq

end ProcTable

/-- The file system shows the table, without an error. -/
def ProcFs.Shows (p : ProcFs) (t : ProcTable) : Prop :=
  ∀ n, ∀ q ∈ t.procs, p.threads n q = some (t.threads q) ∧ p.children n q = some (t.children q, true)

/-! ## Exactness -/

namespace ObservedProcess

variable {t : ProcTable} {p : ProcFs}

/-- The node a process should have. -/
def entry (t : ProcTable) (q : Int) : ProcessTree.Node := ⟨t.parent q, q, t.threads q⟩

theorem map_entry_pid (t : ProcTable) (done : List Int) :
    (done.map (entry t)).map ProcessTree.Node.pid = done := by
  simp [entry, Function.comp_def]

/-- One round of the loop: a process below a visited one becomes its entry. -/
theorem nodes_visit {top a b : Int} {done : List Int} {tree : ProcessTree} (hv : t.Valid)
    (hperm : (tree.nodes top).Perm (done.map (entry t))) (hnodup : done.Nodup) (ha : a ∈ done)
    (hb : b ∉ done) (hab : t.IsChild a b) :
    (((tree.addChildProcess a b).addProcessTaskList b (t.threads b)).nodes top).Perm
      ((done ++ [b]).map (entry t)) := by
  have hpids : ((tree.nodes top).map ProcessTree.Node.pid).Perm done := by
    have := hperm.map ProcessTree.Node.pid
    rwa [map_entry_pid] at this
  have hmem : ∀ x, x ∈ done ↔ ∃ n ∈ tree.nodes top, n.pid = x := by
    intro x
    rw [← hpids.mem_iff, List.mem_map]
  have hadd := ProcessTree.nodes_addChildProcess a b top tree (hpids.nodup_iff.mpr hnodup)
    ((hmem a).mp ha) (fun n hn he => hb ((hmem b).mpr ⟨n, hn, he⟩))
  have hnodup' : (((tree.addChildProcess a b).nodes top).map ProcessTree.Node.pid).Nodup := by
    rw [(hadd.map _).nodup_iff, List.map_cons, List.nodup_cons, hpids.nodup_iff]
    exact ⟨fun h => hb (hpids.mem_iff.mp h), hnodup⟩
  rw [ProcessTree.nodes_addProcessTaskList b (t.threads b) top _ hnodup']
  refine ((hadd.trans (hperm.cons _)).map _).trans ?_
  have hnew : ProcessTree.Node.addTasks b (t.threads b) ⟨a, b, .singleton b⟩ = entry t b := by
    simp [ProcessTree.Node.addTasks, entry, hv.union_threads hab.1, hab.2]
  have hold : (done.map (entry t)).map (ProcessTree.Node.addTasks b (t.threads b)) =
      done.map (entry t) := by
    apply ProcessTree.map_addTasks_absent
    intro n hn he
    obtain ⟨x, hx, rfl⟩ := List.mem_map.mp hn
    exact hb (he ▸ hx)
  rw [List.map_cons, hnew, hold, List.map_append]
  exact @List.perm_append_comm _ [entry t b] _

theorem getProcessThreads_shows (hp : p.Shows t) (n : Nat) {q : Int} (hq : q ∈ t.procs)
    (c : AutopinContext) : getProcessThreads p n q c = (t.threads q, c) := by
  simp [getProcessThreads, (hp n q hq).1]

theorem getChildProcesses_shows (hp : p.Shows t) (n : Nat) {q : Int} (hq : q ∈ t.procs)
    (c : AutopinContext) : getChildProcesses p n q c = (t.children q, c) := by
  simp [getChildProcesses, (hp n q hq).2]

/-- The loop ends with the exploration complete and one entry for each visited process. -/
theorem grow_complete {root top : Int} {c : AutopinContext} (hv : t.Valid) (hp : p.Shows t)
    (hroot : root ∈ t.procs) (hc : c.isError = false) (rounds : Nat) {done : List Int}
    {worklist : List (Int × Int)} {tree : ProcessTree} (n : Nat)
    (hrounds : t.procs.length ≤ done.length + rounds)
    (hex : Explored (fun a => (t.children a).elems) root done worklist)
    (hperm : (tree.nodes top).Perm (done.map (entry t))) :
    ∃ (tree' : ProcessTree) (done' : List Int),
      (∀ fuel, rounds ≤ fuel → grow p fuel n tree worklist c = some (tree', c)) ∧
      tree'.pid = tree.pid ∧ Explored (fun a => (t.children a).elems) root done' [] ∧
      (tree'.nodes top).Perm (done'.map (entry t)) := by
  induction rounds generalizing done worklist tree n with
  | zero =>
    -- every process has been visited, so nothing can be left to do
    have hle := hex.length_le t.procs (fun a ha => by
      rw [ProcTable.below_eq] at ha
      exact ha.mem hroot)
    obtain rfl : worklist = [] := List.eq_nil_of_length_eq_zero (by omega)
    exact ⟨tree, done, fun fuel _ => by rw [grow], rfl, hex, hperm⟩
  | succ rounds ih =>
    cases worklist with
    | nil => exact ⟨tree, done, fun fuel _ => by rw [grow], rfl, hex, hperm⟩
    | cons workItem worklist =>
      obtain ⟨a, b⟩ := workItem
      obtain ⟨ha, hab⟩ := hex.edge (a, b) (by simp)
      rw [ProcTable.mem_children] at hab
      have hb : b ∉ done := fun hb => List.disjoint_of_nodup_append hex.nodup hb (by simp)
      have hvisit := nodes_visit hv hperm (List.Nodup.of_append_left hex.nodup) ha hb hab
      obtain ⟨tree', done', hgrow, hpid, hex', hperm'⟩ := ih (n + 2)
        (by simp only [List.length_append, List.length_singleton]; omega)
        (hex.step (hv.forest root)) hvisit
      refine ⟨tree', done', ?_, ?_, hex', hperm'⟩
      · intro fuel hfuel
        obtain ⟨fuel, rfl⟩ : ∃ k, fuel = k + 1 := ⟨fuel - 1, by omega⟩
        simp only [grow, getProcessThreads_shows hp n hab.1, getChildProcesses_shows hp (n + 1) hab.1, hc,
          Bool.false_eq_true, if_false]
        exact hgrow fuel (by omega)
      · rw [hpid, ProcessTree.pid_addProcessTaskList, ProcessTree.pid_addChildProcess]

/-- `getProcessTree` returns, and the nodes of the tree are the entries of the processes at and
below the observed one. -/
theorem getProcessTree_complete (o : ObservedProcess) {c : AutopinContext} (hv : t.Valid) (hp : p.Shows t)
    (hrun : o.running = true) (ho : o.pid ∈ t.procs) (hc : c.isError = false) :
    ∃ (tree : ProcessTree) (done : List Int),
      (∀ fuel, t.procs.length ≤ fuel → o.getProcessTree p fuel c = some (tree, c)) ∧
      tree.pid = o.pid ∧ done.Nodup ∧ (∀ q, q ∈ done ↔ t.Descends o.pid q) ∧
      (tree.nodes (t.parent o.pid)).Perm (done.map (entry t)) := by
  have hroot : ((ProcessTree.ofPid o.pid).addProcessTaskList o.pid (t.threads o.pid)).nodes
      (t.parent o.pid) = [o.pid].map (entry t) := by
    simp [ProcessTree.ofPid, ProcessTree.addProcessTaskList, ProcessTree.nodes, ProcessTree.nodesOf,
      entry, hv.union_threads ho]
  obtain ⟨tree, done, hgrow, hpid, hex, hperm⟩ := grow_complete hv hp ho hc t.procs.length 2 (by omega)
    (Explored.init (hv.forest o.pid)) (List.Perm.of_eq hroot)
  refine ⟨tree, done, ?_, ?_, ?_, ?_, hperm⟩
  · intro fuel hfuel
    simp only [getProcessTree, hrun, Bool.not_true, Bool.false_eq_true, if_false,
      getProcessThreads_shows hp 0 ho, getChildProcesses_shows hp 1 ho, hc]
    exact hgrow fuel hfuel
  · rw [hpid, ProcessTree.pid_addProcessTaskList]
    rfl
  · simpa using hex.nodup
  · intro q
    rw [hex.complete, ProcTable.below_eq]

theorem mem_getAllTasks_entries {top : Int} {done : List Int} {tree : ProcessTree}
    (hperm : (tree.nodes top).Perm (done.map (entry t))) (tid : Int) :
    tid ∈ tree.getAllTasks ↔ ∃ q ∈ done, tid ∈ t.threads q := by
  rw [ProcessTree.mem_getAllTasks tid top]
  constructor
  · rintro ⟨n, hn, htid⟩
    obtain ⟨q, hq, rfl⟩ := List.mem_map.mp (hperm.mem_iff.mp hn)
    exact ⟨q, hq, htid⟩
  · rintro ⟨q, hq, htid⟩
    exact ⟨entry t q, hperm.mem_iff.mpr (List.mem_map_of_mem hq), htid⟩

/-- On a valid table that is read without errors, `getProcessTree` returns, with one node for
the observed process and each of its descendants, each under its parent's node, and
`getAllTasks` is the union of their thread sets. -/
theorem getProcessTree_exact (t : ProcTable) (p : ProcFs) (o : ObservedProcess) (c : AutopinContext)
    (hv : t.Valid) (hp : p.Shows t) (hrun : o.running = true) (ho : o.pid ∈ t.procs)
    (hc : c.isError = false) :
    ∃ tree : ProcessTree,
      (∀ fuel, t.procs.length ≤ fuel → o.getProcessTree p fuel c = some (tree, c)) ∧
      tree.pid = o.pid ∧
      ((tree.nodes (t.parent o.pid)).map ProcessTree.Node.pid).Nodup ∧
      (∀ q, q ∈ (tree.nodes (t.parent o.pid)).map ProcessTree.Node.pid ↔ t.Descends o.pid q) ∧
      (∀ n ∈ tree.nodes (t.parent o.pid), n.parent = t.parent n.pid) ∧
      (∀ tid, tid ∈ tree.getAllTasks ↔ ∃ q, t.Descends o.pid q ∧ tid ∈ t.threads q) := by
  obtain ⟨tree, done, hreturns, hpid, hnodup, hdone, hperm⟩ := getProcessTree_complete o hv hp hrun ho hc
  have hpids : ((tree.nodes (t.parent o.pid)).map ProcessTree.Node.pid).Perm done := by
    have := hperm.map ProcessTree.Node.pid
    rwa [map_entry_pid] at this
  refine ⟨tree, hreturns, hpid, hpids.nodup_iff.mpr hnodup, ?_, ?_, ?_⟩
  · intro q
    rw [hpids.mem_iff, hdone]
  · intro n hn
    obtain ⟨q, -, rfl⟩ := List.mem_map.mp (hperm.mem_iff.mp hn)
    rfl
  · intro tid
    rw [mem_getAllTasks_entries hperm]
    simp only [hdone]

/-- Three processes, each the parent of the next. -/
def chain : ProcTable where
  procs := [10, 11, 12]
  parent q := q - 1
  threads q := .singleton q

theorem chain_valid : chain.Valid := by
  refine ⟨fun q _ => by simp [chain], ?_⟩
  have hlt : ∀ a b, TransGen chain.IsChild a b → a < b := by
    intro a b h
    induction h with
    | single hab =>
      have := hab.2
      simp only [chain] at this
      omega
    | tail _ hbc ih =>
      have := hbc.2
      simp only [chain] at this
      omega
  exact fun q hq => lt_irrefl q (hlt q q hq)

/-- The grandchild is found. -/
theorem chain_tree :
    ∃ tree, (⟨10, true⟩ : ObservedProcess).getProcessTree
        ⟨fun _ q => some (chain.threads q), fun _ q => some (chain.children q, true)⟩ 3 {} =
          some (tree, {}) ∧ chain.Descends 10 12 ∧ 12 ∈ tree.getAllTasks := by
  obtain ⟨tree, htree, -, -, -, -, htasks⟩ := getProcessTree_exact chain
    ⟨fun _ q => some (chain.threads q), fun _ q => some (chain.children q, true)⟩ ⟨10, true⟩ {}
    chain_valid (fun _ _ _ => ⟨rfl, rfl⟩) rfl (by decide) rfl
  have hdesc : chain.Descends 10 12 :=
    .tail (.single (⟨by decide, by decide⟩ : chain.IsChild 10 11)) ⟨by decide, by decide⟩
  exact ⟨tree, htree 3 (by decide), hdesc, (htasks 12).mpr ⟨12, hdesc, by decide⟩⟩

end ObservedProcess

end AutopinPlus
