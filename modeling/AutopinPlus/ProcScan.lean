import AutopinPlus.ObservedProcess
import AutopinPlus.StatFile
import AutopinPlus.StrategyStep
import AutopinPlus.SysFiles

/-!
# Scans of the proc filesystem

`getChildProcesses` and `getPid` list `/proc` and then read the stat file of one process
after the other. A process can be gone before its file is read. The first scan ends there,
and the second one goes on but has reported an error.
-/
namespace AutopinPlus

open QString StatFile

/-- What a scan finds: the directories in `/proc`, and the stat file of a process at its turn. -/
structure ProcDir where
  entries : Option (List String)
  stat : Int → Option (List Char)

/-- The pids in a listing, in order. -/
def listed (procs : List String) : List Int := (procs.filter isInteger).map toIntOrZero

@[simp] theorem listed_nil : listed [] = [] := rfl

theorem listed_cons_skip {p : String} (h : isInteger p = false) (procs : List String) :
    listed (p :: procs) = listed procs := by simp [listed, h]

theorem listed_cons {p : String} (h : isInteger p = true) (procs : List String) :
    listed (p :: procs) = toIntOrZero p :: listed procs := by simp [listed, h]

namespace ProcDir

/-- The loop of `getChildProcesses`, with `success`. -/
def childLoop (stat : Int → Option (List Char)) (pid : Int) :
    List String → TidSet → AutopinContext → TidSet × Bool × AutopinContext
  | [], result, c => (result, true, c)
  | tmp_pid :: procs, result, c =>
    if !isInteger tmp_pid then childLoop stat pid procs result c
    else
      let (ppid, c) := getProcEntry stat (toIntOrZero tmp_pid) 3 false c
      if ppid = [] then (result, false, c)
      else if toIntOrZero (ofUnits ppid) = pid then
        childLoop stat pid procs (result.insert (toIntOrZero tmp_pid)) c
      else childLoop stat pid procs result c

def getChildProcesses (d : ProcDir) (pid : Int) (c : AutopinContext) : TidSet × AutopinContext :=
  match d.entries with
  | none => (.empty, c.report .system "access_proc" "Could not access the proc filesystem")
  | some procs =>
    let (result, success, c) := childLoop d.stat pid procs .empty c
    (result, if success then c
      else c.report .system "get_children" ("Could not get all children of process " ++ toString pid))

/-- The loop of `getPid`. -/
def pidLoop (stat : Int → Option (List Char)) (proc : String) :
    List String → TidSet → AutopinContext → TidSet × AutopinContext
  | [], result, c => (result, c)
  | tmp_pid :: procs, result, c =>
    if !isInteger tmp_pid then pidLoop stat proc procs result c
    else
      let (procname, c) := getProcEntry stat (toIntOrZero tmp_pid) 1 true c
      if procname = [] then pidLoop stat proc procs result c
      else if procname = units proc.toList then
        pidLoop stat proc procs (result.insert (toIntOrZero tmp_pid)) c
      else pidLoop stat proc procs result c

def getPid (d : ProcDir) (proc : String) (c : AutopinContext) : TidSet × AutopinContext :=
  match d.entries with
  | none => (.empty, c.report .system "access_proc" "Could not access the proc filesystem")
  | some procs => pidLoop d.stat proc procs .empty c

/-! ## The scan for children -/

/-- The parent of a process can be read. -/
def Readable (d : ProcDir) (q : Int) : Prop := entryOf d.stat q 3 ≠ []

instance (d : ProcDir) (q : Int) : Decidable (d.Readable q) := inferInstanceAs (Decidable (_ ≠ _))

def parent (d : ProcDir) (q : Int) : Int := toIntOrZero (ofUnits (entryOf d.stat q 3))

/-- The processes that are read before the scan ends. -/
def reached (d : ProcDir) (procs : List String) : List Int := (listed procs).takeWhile (fun q => d.Readable q)

theorem reached_skip (d : ProcDir) {p : String} (hp : isInteger p = false) (procs : List String) :
    d.reached (p :: procs) = d.reached procs := by rw [reached, reached, listed_cons_skip hp]

theorem reached_read (d : ProcDir) {p : String} (hp : isInteger p = true) (h : d.Readable (toIntOrZero p))
    (procs : List String) : d.reached (p :: procs) = toIntOrZero p :: d.reached procs := by
  simp [reached, listed_cons hp, h]

theorem reached_gone (d : ProcDir) {p : String} (hp : isInteger p = true) (h : ¬ d.Readable (toIntOrZero p))
    (procs : List String) : d.reached (p :: procs) = [] := by
  simp [reached, listed_cons hp, h]

section Loop

variable (d : ProcDir) (pid : Int) {p : String} (procs : List String) (result : TidSet) (c : AutopinContext)

theorem childLoop_skip (hp : isInteger p = false) :
    childLoop d.stat pid (p :: procs) result c = childLoop d.stat pid procs result c := by
  rw [childLoop, hp]
  rfl

theorem childLoop_gone (hp : isInteger p = true) (h : ¬ d.Readable (toIntOrZero p)) :
    childLoop d.stat pid (p :: procs) result c = (result, false, c) := by
  rw [childLoop, hp, getProcEntry_silent]
  exact if_pos (not_not.mp h)

theorem childLoop_read (hp : isInteger p = true) (h : d.Readable (toIntOrZero p)) :
    childLoop d.stat pid (p :: procs) result c = childLoop d.stat pid procs
      (if d.parent (toIntOrZero p) = pid then result.insert (toIntOrZero p) else result) c := by
  rw [childLoop, hp, getProcEntry_silent]
  refine (if_neg h).trans ?_
  by_cases hpid : d.parent (toIntOrZero p) = pid
  · rw [if_pos hpid]
    exact if_pos hpid
  · rw [if_neg hpid]
    exact if_neg hpid

/-- The loop finds the children among the processes before the first one that cannot be read. -/
theorem mem_childLoop (x : Int) :
    x ∈ (childLoop d.stat pid procs result c).1 ↔ x ∈ result ∨ x ∈ d.reached procs ∧ d.parent x = pid := by
  induction procs generalizing result with
  | nil => simp [childLoop, reached]
  | cons p procs ih =>
    cases hp : isInteger p with
    | false => rw [childLoop_skip d pid procs result c hp, ih, d.reached_skip hp]
    | true =>
      by_cases h : d.Readable (toIntOrZero p)
      · rw [childLoop_read d pid procs result c hp h, ih, d.reached_read hp h, List.mem_cons]
        split
        · next hpid =>
          rw [SortedSet.mem_insert]
          constructor
          · rintro ((rfl | hx) | hx)
            · exact .inr ⟨.inl rfl, hpid⟩
            · exact .inl hx
            · exact .inr ⟨.inr hx.1, hx.2⟩
          · rintro (hx | ⟨rfl | hx, hparent⟩)
            · exact .inl (.inr hx)
            · exact .inl (.inl rfl)
            · exact .inr ⟨hx, hparent⟩
        · next hpid =>
          constructor
          · rintro (hx | hx)
            · exact .inl hx
            · exact .inr ⟨.inr hx.1, hx.2⟩
          · rintro (hx | ⟨rfl | hx, hparent⟩)
            · exact .inl hx
            · exact absurd hparent hpid
            · exact .inr ⟨hx, hparent⟩
      · rw [childLoop_gone d pid procs result c hp h, d.reached_gone hp h]
        simp

theorem childLoop_context : (childLoop d.stat pid procs result c).2.2 = c := by
  induction procs generalizing result with
  | nil => rfl
  | cons p procs ih =>
    cases hp : isInteger p with
    | false => rw [childLoop_skip d pid procs result c hp, ih]
    | true =>
      by_cases h : d.Readable (toIntOrZero p)
      · rw [childLoop_read d pid procs result c hp h, ih]
      · rw [childLoop_gone d pid procs result c hp h]

end Loop

/-- The children of a process that are listed and can be read. -/
def ChildrenFound (d : ProcDir) (procs : List String) (pid : Int) (found : TidSet) : Prop :=
  ∀ x, x ∈ found ↔ x ∈ listed procs ∧ d.Readable x ∧ d.parent x = pid

/-- Every child stands before the first process that cannot be read. -/
def ChildrenFirst (d : ProcDir) (procs : List String) (pid : Int) : Prop :=
  ∀ x ∈ listed procs, d.Readable x → d.parent x = pid → x ∈ d.reached procs

theorem mem_reached {d : ProcDir} {procs : List String} {x : Int} (h : x ∈ d.reached procs) :
    x ∈ listed procs ∧ d.Readable x := by
  constructor
  · exact (List.takeWhile_sublist _).subset h
  · exact of_decide_eq_true (List.all_eq_true.mp List.all_takeWhile x h)

theorem getChildProcesses_found_iff {d : ProcDir} {procs : List String} (hd : d.entries = some procs) (pid : Int)
    (c : AutopinContext) :
    d.ChildrenFound procs pid (d.getChildProcesses pid c).1 ↔ d.ChildrenFirst procs pid := by
  have hmem : ∀ x, x ∈ (d.getChildProcesses pid c).1 ↔ x ∈ d.reached procs ∧ d.parent x = pid := by
    intro x
    rw [getChildProcesses, hd]
    exact (mem_childLoop d pid procs .empty c x).trans (or_iff_right (SortedSet.not_mem_empty x))
  constructor
  · intro h x hx hr hp
    exact ((hmem x).mp ((h x).mpr ⟨hx, hr, hp⟩)).1
  · intro h x
    rw [hmem]
    constructor
    · rintro ⟨hx, hp⟩
      exact ⟨(mem_reached hx).1, (mem_reached hx).2, hp⟩
    · rintro ⟨hx, hr, hp⟩
      exact ⟨h x hx hr hp, hp⟩

theorem childLoop_congr (stat : Int → Option (List Char)) (pid : Int) (procs : List String) (result : TidSet)
    (c c' : AutopinContext) :
    (childLoop stat pid procs result c).1 = (childLoop stat pid procs result c').1 ∧
      (childLoop stat pid procs result c).2.1 = (childLoop stat pid procs result c').2.1 := by
  let d : ProcDir := ⟨none, stat⟩
  change (childLoop d.stat pid procs result c).1 = (childLoop d.stat pid procs result c').1 ∧
    (childLoop d.stat pid procs result c).2.1 = (childLoop d.stat pid procs result c').2.1
  induction procs generalizing result with
  | nil => exact ⟨rfl, rfl⟩
  | cons p procs ih =>
    cases hp : isInteger p with
    | false =>
      rw [childLoop_skip d pid procs result c hp, childLoop_skip d pid procs result c' hp]
      exact ih result
    | true =>
      by_cases h : d.Readable (toIntOrZero p)
      · rw [childLoop_read d pid procs result c hp h, childLoop_read d pid procs result c' hp h]
        exact ih _
      · rw [childLoop_gone d pid procs result c hp h, childLoop_gone d pid procs result c' hp h]
        exact ⟨rfl, rfl⟩

end ProcDir

/-! ## A tick of the timer -/

/-- The reads of a process tree, each of which scans `/proc` as it is then. -/
def ProcFs.ofDirs (threads : Nat → Int → Option TidSet) (dirs : Nat → ProcDir) : ProcFs where
  threads := threads
  children n pid := (dirs n).entries.map fun procs =>
    let found := ProcDir.childLoop (dirs n).stat pid procs .empty {}
    (found.1, found.2.1)

theorem getChildProcesses_ofDirs (threads : Nat → Int → Option TidSet) (dirs : Nat → ProcDir) (n : Nat) (pid : Int)
    (c : AutopinContext) :
    getChildProcesses (.ofDirs threads dirs) n pid c = (dirs n).getChildProcesses pid c := by
  have hchildren : (ProcFs.ofDirs threads dirs).children n pid = (dirs n).entries.map fun procs =>
      ((ProcDir.childLoop (dirs n).stat pid procs .empty {}).1,
        (ProcDir.childLoop (dirs n).stat pid procs .empty {}).2.1) := rfl
  rw [getChildProcesses, ProcDir.getChildProcesses, hchildren]
  cases (dirs n).entries with
  | none => rfl
  | some procs =>
    obtain ⟨hfound, hsuccess⟩ := ProcDir.childLoop_congr (dirs n).stat pid procs .empty c {}
    have hcontext := ProcDir.childLoop_context (dirs n) pid procs .empty c
    rw [Option.map_some, ← hfound, ← hsuccess]
    cases hs : (ProcDir.childLoop (dirs n).stat pid procs .empty c).2.1 with
    | true => simp [hs, hcontext]
    | false => simp [hs, hcontext]

/-- The same file system, where no scan for children reports that it ended early. -/
def ProcFs.unflagged (p : ProcFs) : ProcFs where
  threads := p.threads
  children n pid := (p.children n pid).map fun r => (r.1, true)

theorem getChildProcesses_unflagged (p : ProcFs) (n : Nat) (pid : Int) {c c' : AutopinContext}
    (hc : c.isError = c'.isError) :
    (getChildProcesses p n pid c).1 = (getChildProcesses p.unflagged n pid c').1 ∧
      (getChildProcesses p n pid c).2.isError = (getChildProcesses p.unflagged n pid c').2.isError := by
  have hflag : p.unflagged.children n pid = (p.children n pid).map fun r => (r.1, true) := rfl
  rw [getChildProcesses, getChildProcesses, hflag]
  cases p.children n pid with
  | none => simp [setsError]
  | some r =>
    obtain ⟨pids, flag⟩ := r
    -- the report that the scan ended early is not fatal
    cases flag with
    | true => exact ⟨rfl, hc⟩
    | false => exact ⟨rfl, by simpa [setsError] using hc⟩

theorem getProcessThreads_unflagged (p : ProcFs) (n : Nat) (pid : Int) {c c' : AutopinContext}
    (hc : c.isError = c'.isError) :
    (getProcessThreads p n pid c).1 = (getProcessThreads p.unflagged n pid c').1 ∧
      (getProcessThreads p n pid c).2.isError = (getProcessThreads p.unflagged n pid c').2.isError := by
  change _ = (getProcessThreads p n pid c').1 ∧ _ = (getProcessThreads p n pid c').2.isError
  unfold getProcessThreads
  cases p.threads n pid with
  | none => exact ⟨rfl, by simpa [setsError] using hc⟩
  | some tids => exact ⟨rfl, hc⟩

namespace ObservedProcess

/-- The loop over the worklist finds the same tree. -/
theorem grow_unflagged (p : ProcFs) (fuel n : Nat) (tree : ProcessTree) (worklist : List (Int × Int))
    {c c' : AutopinContext} (hc : c.isError = c'.isError) :
    (grow p fuel n tree worklist c).map Prod.fst = (grow p.unflagged fuel n tree worklist c').map Prod.fst := by
  induction fuel generalizing n tree worklist c c' with
  | zero =>
    cases worklist with
    | nil => simp [grow]
    | cons w worklist => simp [grow]
  | succ fuel ih =>
    cases worklist with
    | nil => simp [grow]
    | cons w worklist =>
      obtain ⟨htasks, hthreads⟩ := getProcessThreads_unflagged p n w.2 hc
      obtain ⟨hpids, hchildren⟩ := getChildProcesses_unflagged p (n + 1) w.2 hthreads
      simp only [grow, hthreads, hchildren, htasks, hpids]
      split
      · rfl
      · split
        · rfl
        · exact ih _ _ _ hchildren

theorem getProcessTree_unflagged (o : ObservedProcess) (p : ProcFs) (fuel : Nat) (c : AutopinContext) :
    (o.getProcessTree p fuel c).map Prod.fst = (o.getProcessTree p.unflagged fuel c).map Prod.fst := by
  obtain ⟨htasks, hthreads⟩ := getProcessThreads_unflagged p 0 o.pid (rfl : c.isError = c.isError)
  obtain ⟨hpids, hchildren⟩ := getChildProcesses_unflagged p 1 o.pid hthreads
  simp only [getProcessTree, hthreads, hchildren, htasks, hpids]
  split
  · rfl
  · split
    · rfl
    · split
      · rfl
      · exact grow_unflagged p fuel 2 _ _ hchildren

/-- The processes at and below the observed one that live on during a tick. Whatever else is
listed by a read may be there for others or not. -/
structure Survives (o : ObservedProcess) (t : ProcTable) (threads : Nat → Int → Option TidSet) (dirs : Nat → ProcDir) :
    Prop where
  valid : t.Valid
  running : o.running = true
  root : o.pid ∈ t.procs
  threads : ∀ n, ∀ q ∈ t.procs, threads n q = some (t.threads q)
  children : ∀ n, ∃ procs, (dirs n).entries = some procs ∧ ∀ q ∈ t.procs, ∀ x,
    x ∈ listed procs ∧ (dirs n).Readable x ∧ (dirs n).parent x = q ↔ t.IsChild q x

/-- No read misses a child of a surviving process. -/
def MissesNone (t : ProcTable) (dirs : Nat → ProcDir) : Prop :=
  ∀ n procs, (dirs n).entries = some procs → ∀ q ∈ t.procs, (dirs n).ChildrenFirst procs q

theorem Survives.shows {o : ObservedProcess} {t : ProcTable} {threads : Nat → Int → Option TidSet}
    {dirs : Nat → ProcDir} (h : o.Survives t threads dirs) (hfirst : MissesNone t dirs) :
    (ProcFs.ofDirs threads dirs).unflagged.Shows t := by
  intro n q hq
  obtain ⟨procs, hd, hchildren⟩ := h.children n
  refine ⟨h.threads n q hq, ?_⟩
  have hread : (ProcFs.ofDirs threads dirs).unflagged.children n q =
      ((dirs n).entries.map fun procs => (ProcDir.childLoop (dirs n).stat q procs .empty {}).1).map
        fun r => (r, true) := by
    change Option.map _ (Option.map _ _) = _
    rw [Option.map_map, Option.map_map]
    rfl
  have hfound := (ProcDir.getChildProcesses_found_iff hd q {}).mpr (hfirst n procs hd q hq)
  rw [hread, hd, Option.map_some, Option.map_some]
  congr 2
  apply SortedSet.ext_mem
  intro x
  rw [ProcDir.getChildProcesses, hd] at hfound
  rw [hfound x, hchildren q hq, ← ProcTable.mem_children]
  rfl

/-- The tree of a tick has the tasks of all surviving processes. -/
theorem Survives.tree {o : ObservedProcess} {t : ProcTable} {threads : Nat → Int → Option TidSet}
    {dirs : Nat → ProcDir} (h : o.Survives t threads dirs) (hfirst : MissesNone t dirs) {c : AutopinContext}
    (hc : c.isError = false) :
    ∃ tree : ProcessTree,
      (∀ fuel, t.procs.length ≤ fuel →
        ∃ c', o.getProcessTree (.ofDirs threads dirs) fuel c = some (tree, c')) ∧
      ∀ q tid, t.Descends o.pid q → tid ∈ t.threads q → tid ∈ tree.getAllTasks := by
  obtain ⟨tree, done, hreturns, -, -, hdone, hperm⟩ :=
    getProcessTree_complete o h.valid (h.shows hfirst) h.running h.root hc
  refine ⟨tree, ?_, ?_⟩
  · intro fuel hfuel
    have hsame := getProcessTree_unflagged o (.ofDirs threads dirs) fuel c
    rw [hreturns fuel hfuel, Option.map_some] at hsame
    obtain ⟨⟨tree', c'⟩, hr, rfl⟩ := Option.map_eq_some_iff.mp hsame
    exact ⟨c', hr⟩
  · intro q tid hq htid
    exact (mem_getAllTasks_entries hperm tid).mpr ⟨q, (hdone q).mpr hq, htid⟩

end ObservedProcess

namespace ProcDir

theorem not_readable_of_gone {d : ProcDir} {q : Int} (h : d.stat q = none) : ¬ d.Readable q := by
  intro hr
  rw [Readable, entryOf, h] at hr
  exact hr rfl

/-- The parent is read from the stat text of a process, unless its name hides it. -/
theorem readable_of_text {d : ProcDir} {q : Int} {s : Stat} {comm ppid : List Char} (hcomm : Harmless comm)
    (hstat : d.stat q = some (s.text comm)) (hppid : s.fields[1]? = some ppid) :
    d.Readable q ∧ d.parent q = toIntOrZero (String.ofList ppid) := by
  have hplain : Plain ppid := s.plain ppid (List.mem_cons_of_mem _ (List.mem_of_getElem? hppid))
  have hentry : entryOf d.stat q 3 = units ppid := by
    have hread := s.readEntry_field hcomm 1
    rw [hppid] at hread
    change ((d.stat q).bind fun text => readEntry text 3).getD [] = _
    rw [hstat, Option.bind_some, hread]
    rfl
  constructor
  · intro he
    have hlen := congrArg List.length (hentry.symm.trans he)
    rw [length_units_ascii hplain.ascii] at hlen
    exact hplain.1 (List.eq_nil_of_length_eq_zero hlen)
  · rw [parent, hentry, ofUnits_ascii hplain.ascii]

/-- A scan finds the children of a process exactly if each of them stands before the first process that is gone.
Then no task of a process that lives on is taken for terminated. -/
theorem children_complete_iff (d : ProcDir) (procs : List String) (hd : d.entries = some procs) (pid : Int)
    (c : AutopinContext) :
    (d.ChildrenFound procs pid (d.getChildProcesses pid c).1 ↔ d.ChildrenFirst procs pid) ∧
    (∀ q, (d.stat q = none → ¬ d.Readable q) ∧
      ∀ (s : Stat) comm ppid, Harmless comm → d.stat q = some (s.text comm) → s.fields[1]? = some ppid →
        d.Readable q ∧ d.parent q = toIntOrZero (String.ofList ppid)) ∧
    ∀ (o : ObservedProcess) t threads dirs (c₀ : AutopinContext), o.Survives t threads dirs →
      ObservedProcess.MissesNone t dirs → c₀.isError = false →
      ∃ tree : ProcessTree,
        (∀ fuel, t.procs.length ≤ fuel →
          ∃ c', o.getProcessTree (.ofDirs threads dirs) fuel c₀ = some (tree, c')) ∧
        ∀ ord old q tid, t.Descends o.pid q → tid ∈ t.threads q →
          .terminated tid ∉ ControlStrategy.timerCalls ord (.ofList old) (.ofList tree.getAllTasks.elems) := by
  refine ⟨?_, ?_, ?_⟩
  · exact getChildProcesses_found_iff hd pid c
  · exact fun q => ⟨not_readable_of_gone, fun s comm ppid hcomm hstat hppid => readable_of_text hcomm hstat hppid⟩
  · intro o t threads dirs c₀ hlive hfirst hc
    obtain ⟨tree, hreturns, htasks⟩ := hlive.tree hfirst hc
    refine ⟨tree, hreturns, ?_⟩
    intro ord old q tid hq htid hterminated
    rw [ControlStrategy.terminated_mem_timerCalls, SortedSet.mem_ofList] at hterminated
    exact hterminated.2 ((SortedSet.mem_ofList ..).mpr (htasks q tid hq htid))

/-- Process 12 is a child of process 10, and another process is gone. -/
def twoLeft (procs : List String) : ProcDir where
  entries := some procs
  stat
    | 10 => some "10 (sh) S 1\n".toList
    | 12 => some "12 (app) S 10\n".toList
    | _ => none

def twoLeftTable : ProcTable where
  procs := [10, 12]
  parent q := if q = 12 then 10 else 1
  threads q := .singleton q

theorem twoLeftTable_valid : twoLeftTable.Valid := by
  refine ⟨fun q _ => by simp [twoLeftTable], ?_⟩
  have hlt : ∀ a b, Relation.TransGen twoLeftTable.IsChild a b → a < b := by
    have hstep : ∀ a b, twoLeftTable.IsChild a b → a < b := by
      rintro a b ⟨hb, rfl⟩
      simp only [twoLeftTable, List.mem_cons, List.not_mem_nil, or_false] at hb
      rcases hb with rfl | rfl <;> decide
    intro a b h
    induction h with
    | single hab => exact hstep _ _ hab
    | tail _ hbc ih => exact ih.trans (hstep _ _ hbc)
  exact fun q hq => lt_irrefl q (hlt q q hq)

theorem twoLeft_survives :
    (⟨10, true⟩ : ObservedProcess).Survives twoLeftTable (fun _ q => some (.singleton q))
      (fun _ => twoLeft ["10", "12", "13"]) where
  valid := twoLeftTable_valid
  running := rfl
  root := by decide
  threads _ _ _ := rfl
  children := by
    have hlist : listed ["10", "12", "13"] = [10, 12, 13] := by decide +kernel
    have hread : (twoLeft ["10", "12", "13"]).Readable 10 ∧ (twoLeft ["10", "12", "13"]).Readable 12 ∧
        ¬ (twoLeft ["10", "12", "13"]).Readable 13 := by decide +kernel
    have hparent : (twoLeft ["10", "12", "13"]).parent 10 = 1 ∧ (twoLeft ["10", "12", "13"]).parent 12 = 10 := by
      decide +kernel
    intro n
    refine ⟨_, rfl, fun q _ x => ?_⟩
    rw [hlist, ProcTable.IsChild]
    simp only [twoLeftTable, List.mem_cons, List.not_mem_nil, or_false]
    constructor
    · rintro ⟨rfl | rfl | rfl, hr, rfl⟩
      · exact ⟨.inl rfl, hparent.1.symm⟩
      · exact ⟨.inr rfl, hparent.2.symm⟩
      · exact absurd hr hread.2.2
    · rintro ⟨rfl | rfl, rfl⟩
      · exact ⟨.inl rfl, hread.1, hparent.1⟩
      · exact ⟨.inr (.inl rfl), hread.2.1, hparent.2⟩

theorem children_complete_last :
    (twoLeft ["10", "12", "13"]).ChildrenFound ["10", "12", "13"] 10
        ((twoLeft ["10", "12", "13"]).getChildProcesses 10 {}).1 ∧
      ∃ tree c', (⟨10, true⟩ : ObservedProcess).getProcessTree
          (.ofDirs (fun _ q => some (.singleton q)) (fun _ => twoLeft ["10", "12", "13"])) 2 {} = some (tree, c') ∧
        .terminated 12 ∉ ControlStrategy.timerCalls .ascending (.ofList [10, 12]) (.ofList tree.getAllTasks.elems) := by
  have hfirst : ∀ q ∈ twoLeftTable.procs,
      (twoLeft ["10", "12", "13"]).ChildrenFirst ["10", "12", "13"] q := by
    unfold ChildrenFirst
    decide +kernel
  have hmisses : ObservedProcess.MissesNone twoLeftTable (fun _ => twoLeft ["10", "12", "13"]) := by
    rintro n procs hp q hq
    cases hp
    exact hfirst q hq
  have hdesc : twoLeftTable.Descends 10 12 := .single ⟨by decide, by decide⟩
  obtain ⟨hfound, -, htick⟩ := children_complete_iff (twoLeft ["10", "12", "13"]) _ rfl 10 {}
  obtain ⟨tree, hreturns, hkept⟩ := htick ⟨10, true⟩ twoLeftTable (fun _ q => some (.singleton q))
    (fun _ => twoLeft ["10", "12", "13"]) {} twoLeft_survives hmisses rfl
  obtain ⟨c', hc'⟩ := hreturns 2 (by decide)
  refine ⟨?_, tree, c', hc', ?_⟩
  · exact hfound.mpr (hfirst 10 (by decide))
  · exact hkept .ascending [10, 12] 12 12 hdesc (by decide)

/-- The process that is gone stands before the child. -/
theorem children_missed :
    ¬ (twoLeft ["10", "11", "12"]).ChildrenFound ["10", "11", "12"] 10
        ((twoLeft ["10", "11", "12"]).getChildProcesses 10 {}).1 ∧
      ((⟨10, true⟩ : ObservedProcess).getProcessTree
          (.ofDirs (fun _ q => some (.singleton q)) (fun _ => twoLeft ["10", "11", "12"])) 2 {}).map
        (fun r => ControlStrategy.timerCalls .ascending (.ofList [10, 12]) (.ofList r.1.getAllTasks.elems)) =
        some [.terminated 12] := by
  constructor
  · intro h
    have := h 12
    revert this
    decide +kernel
  · decide +kernel

/-! ## The scan for a name -/

/-- The name of a process, if its stat file can be read. -/
def name (d : ProcDir) (q : Int) : Option (List UInt16) := (d.stat q).bind fun text => readEntry text 1

theorem getProcEntry_name (d : ProcDir) (q : Int) (c : AutopinContext) :
    (getProcEntry d.stat q 1 true c).1 = (d.name q).getD [] ∧
      ((getProcEntry d.stat q 1 true c).2.isError = true ↔ c.isError = true ∨ d.name q = none) := by
  constructor
  · exact getProcEntry_fst d.stat q 1 true c
  · rw [getProcEntry, if_neg (by decide : ¬ ((1 : Int) < 0 ∨ 43 < (1 : Int)))]
    change _ ↔ _ ∨ (d.stat q).bind (fun text => readEntry text (Int.toNat 1)) = none
    cases (d.stat q).bind (fun text => readEntry text (Int.toNat 1)) with
    | none => simp [reportEntry, setsError]
    | some result => simp

section Loop

variable (d : ProcDir) (proc : String) {p : String} (procs : List String) (result : TidSet) (c : AutopinContext)

theorem pidLoop_skip (hp : isInteger p = false) :
    pidLoop d.stat proc (p :: procs) result c = pidLoop d.stat proc procs result c := by
  rw [pidLoop, hp]
  rfl

theorem pidLoop_read (hp : isInteger p = true) :
    pidLoop d.stat proc (p :: procs) result c = pidLoop d.stat proc procs
      (if d.name (toIntOrZero p) = some (units proc.toList) ∧ proc ≠ "" then result.insert (toIntOrZero p) else result)
      (getProcEntry d.stat (toIntOrZero p) 1 true c).2 := by
  have hname := (d.getProcEntry_name (toIntOrZero p) c).1
  rw [pidLoop, hp]
  generalize getProcEntry d.stat (toIntOrZero p) 1 true c = entry at hname ⊢
  obtain ⟨procname, c'⟩ := entry
  change procname = _ at hname
  by_cases hempty : procname = []
  · -- an empty name is taken for one that could not be read
    refine (if_pos hempty).trans ?_
    rw [if_neg]
    rintro ⟨hn, hproc⟩
    rw [hn, Option.getD_some, hempty, eq_comm, units_eq_nil_iff, String.toList_eq_nil_iff] at hname
    exact hproc hname
  · refine (if_neg hempty).trans ?_
    obtain ⟨n, hn⟩ : ∃ n, d.name (toIntOrZero p) = some n := by
      apply Option.ne_none_iff_exists'.mp
      intro hn
      rw [hn, Option.getD_none] at hname
      exact hempty hname
    rw [hn, Option.getD_some] at hname
    subst hname
    by_cases hsame : procname = units proc.toList
    · refine (if_pos hsame).trans ?_
      rw [if_pos]
      refine ⟨hn.trans (congrArg some hsame), ?_⟩
      rintro rfl
      exact hempty hsame
    · refine (if_neg hsame).trans ?_
      rw [if_neg]
      rintro ⟨hother, -⟩
      exact hsame (Option.some.inj (hn.symm.trans hother))

theorem mem_pidLoop (x : Int) :
    x ∈ (pidLoop d.stat proc procs result c).1 ↔
      x ∈ result ∨ x ∈ listed procs ∧ d.name x = some (units proc.toList) ∧ proc ≠ "" := by
  induction procs generalizing result c with
  | nil => simp [pidLoop]
  | cons p procs ih =>
    cases hp : isInteger p with
    | false => rw [pidLoop_skip d proc procs result c hp, ih, listed_cons_skip hp]
    | true =>
      rw [pidLoop_read d proc procs result c hp, ih, listed_cons hp, List.mem_cons]
      split
      · next h =>
        rw [SortedSet.mem_insert]
        constructor
        · rintro ((rfl | hx) | hx)
          · exact .inr ⟨.inl rfl, h⟩
          · exact .inl hx
          · exact .inr ⟨.inr hx.1, hx.2⟩
        · rintro (hx | ⟨rfl | hx, hname⟩)
          · exact .inl (.inr hx)
          · exact .inl (.inl rfl)
          · exact .inr ⟨hx, hname⟩
      · next h =>
        constructor
        · rintro (hx | hx)
          · exact .inl hx
          · exact .inr ⟨.inr hx.1, hx.2⟩
        · rintro (hx | ⟨rfl | hx, hname⟩)
          · exact .inl hx
          · exact absurd hname h
          · exact .inr ⟨hx, hname⟩

theorem pidLoop_isError :
    (pidLoop d.stat proc procs result c).2.isError = true ↔ c.isError = true ∨ ∃ x ∈ listed procs, d.name x = none := by
  induction procs generalizing result c with
  | nil => simp [pidLoop]
  | cons p procs ih =>
    cases hp : isInteger p with
    | false => rw [pidLoop_skip d proc procs result c hp, ih, listed_cons_skip hp]
    | true =>
      rw [pidLoop_read d proc procs result c hp, ih, (d.getProcEntry_name _ c).2, listed_cons hp,
        List.exists_mem_cons_iff, or_assoc]

end Loop

theorem getPid_eq {d : ProcDir} {procs : List String} (hd : d.entries = some procs) (proc : String)
    (c : AutopinContext) : d.getPid proc c = pidLoop d.stat proc procs .empty c := by
  rw [getPid, hd]

/-- An empty name is taken for a stat file that cannot be read. -/
theorem getPid_found_iff {d : ProcDir} {procs : List String} (hd : d.entries = some procs) (proc : String)
    (c : AutopinContext) :
    (∀ x, x ∈ (d.getPid proc c).1 ↔ x ∈ listed procs ∧ d.name x = some (units proc.toList)) ↔
      proc ≠ "" ∨ ∀ x ∈ listed procs, d.name x ≠ some [] := by
  rw [getPid_eq hd]
  simp only [d.mem_pidLoop, SortedSet.not_mem_empty, false_or]
  constructor
  · intro hfound
    by_cases hproc : proc = ""
    · subst hproc
      exact .inr (fun x hx hn => ((hfound x).mpr ⟨hx, hn⟩).2.2 rfl)
    · exact .inl hproc
  · intro hname x
    constructor
    · exact fun h => ⟨h.1, h.2.1⟩
    · rintro ⟨hx, hn⟩
      refine ⟨hx, hn, ?_⟩
      rintro rfl
      exact (hname.resolve_left (fun h => h rfl)) x hx hn

/-- Every process that is gone is reported. -/
theorem getPid_kept_iff {d : ProcDir} {procs : List String} (hd : d.entries = some procs) (proc : String)
    (c : AutopinContext) :
    (d.getPid proc c).2.isError = c.isError ↔ c.isError = true ∨ ∀ x ∈ listed procs, d.name x ≠ none := by
  rw [getPid_eq hd, Bool.eq_iff_iff, d.pidLoop_isError proc procs .empty c]
  constructor
  · intro hkept
    by_cases hc : c.isError = true
    · exact .inl hc
    · exact .inr (fun x hx hn => hc (hkept.mp (.inr ⟨x, hx, hn⟩)))
  · intro hkept
    constructor
    · rintro (hc | ⟨x, hx, hn⟩)
      · exact hc
      · exact hkept.resolve_right (fun h => h x hx hn)
    · exact .inl

/-- The processes with the name are found if the name is not empty, and the error state is kept as long as no
process is gone. -/
theorem getPid_tolerant_iff {d : ProcDir} {procs : List String} (hd : d.entries = some procs) (proc : String)
    (c : AutopinContext) :
    ((∀ x, x ∈ (d.getPid proc c).1 ↔ x ∈ listed procs ∧ d.name x = some (units proc.toList)) ∧
        (d.getPid proc c).2.isError = c.isError ↔
      (c.isError = true ∨ ∀ x ∈ listed procs, d.name x ≠ none) ∧
        (proc ≠ "" ∨ ∀ x ∈ listed procs, d.name x ≠ some [])) ∧
    (∀ q, d.stat q = none → d.name q = none) ∧
    ∀ q (s : Stat) comm, (∀ ch ∈ comm, IsAscii ch ∧ ch ≠ '(' ∧ ch ≠ ')') → d.stat q = some (s.text comm) →
      d.name q = some (units comm) := by
  refine ⟨?_, ?_, ?_⟩
  · rw [getPid_found_iff hd, getPid_kept_iff hd]
    exact and_comm
  · intro q hq
    rw [name, hq, Option.bind_none]
  · intro q s comm hcomm hstat
    rw [name, hstat, Option.bind_some, s.readEntry_text hcomm]
    rfl

/-- Both processes can be read, and one of them has the name. -/
theorem getPid_tolerant_twoLeft :
    12 ∈ ((twoLeft ["10", "12"]).getPid "app" {}).1 ∧ 10 ∉ ((twoLeft ["10", "12"]).getPid "app" {}).1 ∧
      ((twoLeft ["10", "12"]).getPid "app" {}).2.isError = false := by
  have hd : (twoLeft ["10", "12"]).entries = some ["10", "12"] := rfl
  have hread : ∀ x ∈ listed ["10", "12"], (twoLeft ["10", "12"]).name x ≠ none := by decide +kernel
  obtain ⟨hfound, herror⟩ := (getPid_tolerant_iff hd "app" {}).1.mpr ⟨.inr hread, .inl (by decide)⟩
  refine ⟨(hfound 12).mpr (by decide +kernel), ?_, herror⟩
  rw [hfound]
  decide +kernel

/-- Process 11 is gone, and the context is in the error state afterwards. -/
theorem getPid_aborted :
    ((twoLeft ["10", "11", "12"]).getPid "app" {}).1.elems = [12] ∧
      ({} : AutopinContext).isError = false ∧ ((twoLeft ["10", "11", "12"]).getPid "app" {}).2.isError = true := by
  decide +kernel

/-! ## The names of processes -/

/-- `OSServices::getTaskSortId`. -/
def getTaskSortId (d : ProcDir) (tid : Int) (c : AutopinContext) : Int × AutopinContext :=
  let (str_result, c) := getProcEntry d.stat tid 21 true c
  if c.isError then (0, c) else (toIntOrZero (ofUnits str_result), c)

/-- The same processes, where some have given themselves another harmless name. -/
structure Renamed (d d' : ProcDir) : Prop where
  entries : d'.entries = d.entries
  stat : ∀ q, d'.stat q = d.stat q ∨ ∃ pid comm comm' rest, Plain pid ∧ Harmless comm ∧ Harmless comm' ∧
    d.stat q = some (statText pid comm rest) ∧ d'.stat q = some (statText pid comm' rest)

theorem Renamed.getProcEntry {d d' : ProcDir} (h : d.Renamed d') (tid : Int) {index : Int} (hi : index ≠ 1)
    (error : Bool) (c : AutopinContext) :
    StatFile.getProcEntry d'.stat tid index error c = StatFile.getProcEntry d.stat tid index error c := by
  rw [getProcEntry_text_only, getProcEntry_text_only d.stat]
  obtain hsame | ⟨pid, comm, comm', rest, hpid, hc, hc', hstat, hstat'⟩ := h.stat tid
  · rw [hsame]
  · rw [hstat, hstat']
    exact (harmless_noInfluence hc hc' pid rest hpid tid index error c hi).symm

theorem Renamed.childLoop {d d' : ProcDir} (h : d.Renamed d') (pid : Int) (procs : List String) (result : TidSet)
    (c : AutopinContext) :
    ProcDir.childLoop d'.stat pid procs result c = ProcDir.childLoop d.stat pid procs result c := by
  induction procs generalizing result c with
  | nil => rfl
  | cons p procs ih =>
    have hentry := h.getProcEntry (toIntOrZero p) (by decide : (3 : Int) ≠ 1) false c
    rw [ProcDir.childLoop, ProcDir.childLoop, hentry]
    simp only [ih]

/-- With harmless names, which children a scan finds and which start time a task has depend on no name. -/
theorem Renamed.unchanged {d d' : ProcDir} (h : d.Renamed d') (c : AutopinContext) :
    (∀ pid, d'.getChildProcesses pid c = d.getChildProcesses pid c) ∧
      ∀ tid, d'.getTaskSortId tid c = d.getTaskSortId tid c := by
  constructor
  · intro pid
    rw [ProcDir.getChildProcesses, ProcDir.getChildProcesses, h.entries]
    simp only [h.childLoop]
  · intro tid
    rw [ProcDir.getTaskSortId, ProcDir.getTaskSortId, h.getProcEntry tid (by decide : (21 : Int) ≠ 1) true c]

end ProcDir

end AutopinPlus
