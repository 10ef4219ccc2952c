import AutopinPlus.MonitoredTasks

/-!
# Stopping many tasks

The base class measures a set of tasks by one call for each, in the order of the tids, and gives up when the
context is in the error state after a call. For monitors that refuse exactly the tasks they do not watch, this is
at the least such tid, with the measurements of the tids below it.
-/
namespace AutopinPlus

variable {M D : Type}

namespace PerformanceMonitor

/-- `autopin_measurements`. -/
abbrev Measurements (D : Type) := AList (fun _ : Int => D)

/-- `std::map::insert`, which leaves an entry that is there. -/
def insertNew (task : Int) (v : D) (result : Measurements D) : Measurements D :=
  if task ∈ result then result else result.insert task v

/-- The loop of `value` and `stop` over a list of tasks. -/
def measure (call : Int → Session M → D × Session M) :
    List Int → Measurements D → Session M → Measurements D × Session M
  | [], result, s => (result, s)
  | task :: rest, result, s =>
    let (v, s) := call task s
    if s.context.isError then (result, s) else measure call rest (insertNew task v result) s

/-- `stop(tasks)`. -/
def stopTasks (monitor : PerformanceMonitor M D) (tasks : TidSet) (s : Session M) : Measurements D × Session M :=
  measure monitor.stop tasks.elems ∅ s

/-- `stop()`. -/
def stopAll (monitor : PerformanceMonitor M D) (s : Session M) : Measurements D × Session M :=
  stopTasks monitor (monitor.getMonitoredTasks s.self) s

/-- A monitor that outside the error state stops the tasks it watches, each with its value, and refuses all others. -/
structure StopsOne (monitor : PerformanceMonitor M D) : Prop where
  watched : ∀ tid s, s.context.isError = false → tid ∈ monitor.getMonitoredTasks s.self →
    (monitor.stop tid s).1 = (monitor.value tid s).1 ∧ (monitor.stop tid s).2.context.isError = false ∧
      ∀ x, x ∈ monitor.getMonitoredTasks (monitor.stop tid s).2.self ↔
        x ∈ monitor.getMonitoredTasks s.self ∧ x ≠ tid
  refused : ∀ tid s, s.context.isError = false → tid ∉ monitor.getMonitoredTasks s.self →
    (monitor.stop tid s).2.context.isError = true ∧ (monitor.stop tid s).2.self = s.self

/-- The session in which some tasks have been stopped one after the other. -/
def stopped (monitor : PerformanceMonitor M D) (tasks : List Int) (s : Session M) : Session M :=
  tasks.foldl (fun s tid => (monitor.stop tid s).2) s

/-- What `value` returns for a task just before the loop stops it. -/
def valueBefore (monitor : PerformanceMonitor M D) (tasks : List Int) (s : Session M) (tid : Int) : D :=
  (monitor.value tid (monitor.stopped (tasks.filter (· < tid)) s)).1

/-! ## The loop -/

theorem measure_cons_ok {call : Int → Session M → D × Session M} {task : Int} {s : Session M}
    (h : (call task s).2.context.isError = false) (rest : List Int) (result : Measurements D) :
    measure call (task :: rest) result s =
      measure call rest (insertNew task (call task s).1 result) (call task s).2 := by
  simp only [measure, h, Bool.false_eq_true, if_false]

theorem measure_cons_error {call : Int → Session M → D × Session M} {task : Int} {s : Session M}
    (h : (call task s).2.context.isError = true) (rest : List Int) (result : Measurements D) :
    measure call (task :: rest) result s = (result, (call task s).2) := by
  simp only [measure, h, if_true]

theorem lookup_insertNew_self {task : Int} {result : Measurements D} (h : task ∉ result) (v : D) :
    (insertNew task v result).lookup task = some v := by
  rw [insertNew, if_neg h, AList.lookup_insert]

theorem lookup_insertNew_other {task x : Int} (h : x ≠ task) (v : D) (result : Measurements D) :
    (insertNew task v result).lookup x = result.lookup x := by
  unfold insertNew
  split
  · rfl
  · rw [AList.lookup_insert_ne h]

theorem not_mem_insertNew {task x : Int} (h : x ≠ task) {v : D} {result : Measurements D} (hx : x ∉ result) :
    x ∉ insertNew task v result := by
  rw [← AList.lookup_eq_none] at hx ⊢
  rw [lookup_insertNew_other h, hx]

/-- The loop gets to stop a task: it and all tasks below it are watched. -/
def Served (monitor : PerformanceMonitor M D) (tasks : List Int) (s : Session M) (x : Int) : Prop :=
  x ∈ tasks ∧ ∀ y ∈ tasks, y ≤ x → y ∈ monitor.getMonitoredTasks s.self

instance (monitor : PerformanceMonitor M D) (tasks : List Int) (s : Session M) (x : Int) :
    Decidable (monitor.Served tasks s x) :=
  inferInstanceAs (Decidable (_ ∧ _))

variable {monitor : PerformanceMonitor M D}

theorem valueBefore_cons {task x : Int} (h : task < x) (rest : List Int) (s : Session M) :
    valueBefore monitor (task :: rest) s x = valueBefore monitor rest (monitor.stop task s).2 x := by
  rw [valueBefore, List.filter_cons_of_pos (by simpa using h)]
  rfl

theorem valueBefore_least {task : Int} {rest : List Int} (h : ∀ x ∈ rest, task < x) (s : Session M) :
    valueBefore monitor (task :: rest) s task = (monitor.value task s).1 := by
  have hnone : (task :: rest).filter (· < task) = [] := by
    rw [List.filter_eq_nil_iff, List.forall_mem_cons]
    refine ⟨by simp, ?_⟩
    intro x hx
    simpa using (h x hx).le
  rw [valueBefore, hnone]
  rfl

theorem served_cons_watched {task : Int} {rest : List Int} (hleast : ∀ x ∈ rest, task < x) {s t : Session M}
    (hmem : task ∈ monitor.getMonitoredTasks s.self)
    (hleft : ∀ x, x ∈ monitor.getMonitoredTasks t.self ↔ x ∈ monitor.getMonitoredTasks s.self ∧ x ≠ task) (x : Int) :
    monitor.Served (task :: rest) s x ↔ x = task ∨ monitor.Served rest t x := by
  constructor
  · rintro ⟨hx, hbelow⟩
    rcases List.mem_cons.mp hx with rfl | hx
    · exact .inl rfl
    · refine .inr ⟨hx, ?_⟩
      intro y hy hle
      exact (hleft y).mpr ⟨hbelow y (List.mem_cons_of_mem task hy) hle, (hleast y hy).ne'⟩
  · rintro (rfl | ⟨hx, hbelow⟩)
    · refine ⟨List.mem_cons_self, ?_⟩
      intro y hy hle
      rcases List.mem_cons.mp hy with rfl | hy
      · exact hmem
      · exact absurd hle (hleast y hy).not_ge
    · refine ⟨List.mem_cons_of_mem task hx, ?_⟩
      intro y hy hle
      rcases List.mem_cons.mp hy with rfl | hy
      · exact hmem
      · exact ((hleft y).mp (hbelow y hy hle)).1

theorem not_served_cons {task : Int} {rest : List Int} (hleast : ∀ x ∈ rest, task < x) {s : Session M}
    (hmem : task ∉ monitor.getMonitoredTasks s.self) (x : Int) : ¬ monitor.Served (task :: rest) s x := by
  rintro ⟨hx, hbelow⟩
  apply hmem
  rcases List.mem_cons.mp hx with rfl | hx
  · exact hbelow x List.mem_cons_self (le_refl x)
  · exact hbelow task List.mem_cons_self (hleast x hx).le

/-- The loop over tids in increasing order returns the values of the tasks it serves, none of which is watched any
more, and the context is in error if one was not watched. -/
theorem measure_stop (hm : monitor.StopsOne) {tasks : List Int} (hsorted : tasks.Pairwise (· < ·))
    {result : Measurements D} (hnew : ∀ x ∈ tasks, x ∉ result) {s : Session M} (hs : s.context.isError = false) :
    ((measure monitor.stop tasks result s).2.context.isError = false ↔
      ∀ x ∈ tasks, x ∈ monitor.getMonitoredTasks s.self) ∧
    (∀ x, (measure monitor.stop tasks result s).1.lookup x =
      if monitor.Served tasks s x then some (monitor.valueBefore tasks s x) else result.lookup x) ∧
    ∀ x, x ∈ monitor.getMonitoredTasks (measure monitor.stop tasks result s).2.self ↔
      x ∈ monitor.getMonitoredTasks s.self ∧ ¬ monitor.Served tasks s x := by
  induction tasks generalizing result s with
  | nil => simp [measure, Served, hs]
  | cons task rest ih =>
    rw [List.pairwise_cons] at hsorted
    rw [List.forall_mem_cons] at hnew
    by_cases hmem : task ∈ monitor.getMonitoredTasks s.self
    · obtain ⟨hvalue, hok, hleft⟩ := hm.watched task s hs hmem
      have hserved := served_cons_watched hsorted.1 hmem hleft
      have hne : ∀ x ∈ rest, x ≠ task := fun x hx => (hsorted.1 x hx).ne'
      obtain ⟨herror, hlookup, hwatched⟩ := ih hsorted.2
        (fun x hx => not_mem_insertNew (v := (monitor.stop task s).1) (hne x hx) (hnew.2 x hx)) hok
      rw [measure_cons_ok hok]
      refine ⟨?_, ?_, ?_⟩
      · rw [herror, List.forall_mem_cons]
        constructor
        · intro h
          exact ⟨hmem, fun x hx => ((hleft x).mp (h x hx)).1⟩
        · intro h x hx
          exact (hleft x).mpr ⟨h.2 x hx, hne x hx⟩
      · intro x
        rw [hlookup]
        by_cases hx : x = task
        · subst hx
          have hnot : ¬ monitor.Served rest (monitor.stop x s).2 x := fun h => hne x h.1 rfl
          rw [if_neg hnot, if_pos ((hserved x).mpr (.inl rfl)), lookup_insertNew_self hnew.1, hvalue,
            valueBefore_least hsorted.1]
        · rw [lookup_insertNew_other hx]
          by_cases hrest : monitor.Served rest (monitor.stop task s).2 x
          · rw [if_pos hrest, if_pos ((hserved x).mpr (.inr hrest)), valueBefore_cons (hsorted.1 x hrest.1)]
          · have hnot : ¬ monitor.Served (task :: rest) s x := by
              rw [hserved]
              exact not_or.mpr ⟨hx, hrest⟩
            rw [if_neg hrest, if_neg hnot]
      · intro x
        rw [hwatched, hleft, hserved, not_or, and_assoc]
    · obtain ⟨herror, hself⟩ := hm.refused task s hs hmem
      have hserved := not_served_cons hsorted.1 hmem
      rw [measure_cons_error herror]
      refine ⟨?_, ?_, ?_⟩
      · simp [herror, hmem]
      · intro x
        rw [if_neg (hserved x)]
      · intro x
        rw [hself]
        simp [hserved x]

theorem served_subset {tasks : TidSet} {s : Session M}
    (hsub : ∀ x ∈ tasks, x ∈ monitor.getMonitoredTasks s.self) (x : Int) :
    monitor.Served tasks.elems s x ↔ x ∈ tasks :=
  ⟨fun h => h.1, fun h => ⟨h, fun y hy _ => hsub y hy⟩⟩

/-- Below the least task that is not watched. -/
theorem served_below {tasks : TidSet} {s : Session M} {u : Int} (hu : u ∈ tasks)
    (hnot : u ∉ monitor.getMonitoredTasks s.self)
    (hleast : ∀ y ∈ tasks, y < u → y ∈ monitor.getMonitoredTasks s.self) (x : Int) :
    monitor.Served tasks.elems s x ↔ x ∈ tasks ∧ x < u := by
  constructor
  · rintro ⟨hx, hbelow⟩
    refine ⟨hx, ?_⟩
    by_contra hle
    exact hnot (hbelow u hu (not_lt.mp hle))
  · rintro ⟨hx, hlt⟩
    exact ⟨hx, fun y hy hle => hleast y hy (hle.trans_lt hlt)⟩

theorem stopTasks_spec (hm : monitor.StopsOne) (tasks : TidSet) {s : Session M} (hs : s.context.isError = false) :
    ((stopTasks monitor tasks s).2.context.isError = false ↔
      ∀ x ∈ tasks, x ∈ monitor.getMonitoredTasks s.self) ∧
    (∀ x, (stopTasks monitor tasks s).1.lookup x =
      if monitor.Served tasks.elems s x then some (monitor.valueBefore tasks.elems s x) else none) ∧
    ∀ x, x ∈ monitor.getMonitoredTasks (stopTasks monitor tasks s).2.self ↔
      x ∈ monitor.getMonitoredTasks s.self ∧ ¬ monitor.Served tasks.elems s x :=
  measure_stop hm tasks.sorted (fun x _ => AList.notMem_empty x) hs

theorem stopTasks_watched (hm : monitor.StopsOne) {tasks : TidSet} {s : Session M} (hs : s.context.isError = false)
    (hsub : ∀ x ∈ tasks, x ∈ monitor.getMonitoredTasks s.self) :
    (∀ x, (stopTasks monitor tasks s).1.lookup x =
      if x ∈ tasks then some (monitor.valueBefore tasks.elems s x) else none) ∧
    (stopTasks monitor tasks s).2.context.isError = false ∧
    monitor.getMonitoredTasks (stopTasks monitor tasks s).2.self = (monitor.getMonitoredTasks s.self).diff tasks := by
  obtain ⟨herror, hlookup, hwatched⟩ := stopTasks_spec hm tasks hs
  refine ⟨?_, herror.mpr hsub, ?_⟩
  · intro x
    rw [hlookup]
    exact if_congr (served_subset hsub x) rfl rfl
  · apply SortedSet.ext_mem
    intro x
    rw [hwatched, served_subset hsub, SortedSet.mem_diff]

theorem stopTasks_refused (hm : monitor.StopsOne) {tasks : TidSet} {s : Session M} (hs : s.context.isError = false)
    {u : Int} (hu : u ∈ tasks) (hnot : u ∉ monitor.getMonitoredTasks s.self)
    (hleast : ∀ y ∈ tasks, y < u → y ∈ monitor.getMonitoredTasks s.self) :
    (∀ x, (stopTasks monitor tasks s).1.lookup x =
      if x ∈ tasks ∧ x < u then some (monitor.valueBefore tasks.elems s x) else none) ∧
    (stopTasks monitor tasks s).2.context.isError = true ∧
    ∀ x, x ∈ monitor.getMonitoredTasks (stopTasks monitor tasks s).2.self ↔
      x ∈ monitor.getMonitoredTasks s.self ∧ ¬ (x ∈ tasks ∧ x < u) := by
  obtain ⟨herror, hlookup, hwatched⟩ := stopTasks_spec hm tasks hs
  refine ⟨?_, ?_, ?_⟩
  · intro x
    rw [hlookup]
    exact if_congr (served_below hu hnot hleast x) rfl rfl
  · rw [← Bool.not_eq_false]
    intro hno
    exact hnot (herror.mp hno u hu)
  · intro x
    rw [hwatched, served_below hu hnot hleast]

/-- Nothing is left to watch. -/
theorem stopAll_watched (hm : monitor.StopsOne) {s : Session M} (hs : s.context.isError = false) :
    monitor.getMonitoredTasks (stopAll monitor s).2.self = .empty := by
  apply SortedSet.ext_mem
  intro x
  rw [stopAll, (stopTasks_watched hm hs fun _ hx => hx).2.2, SortedSet.mem_diff]
  simp

/-- Stopping a task changes the value of no other one. -/
def KeepsValues (monitor : PerformanceMonitor M D) : Prop :=
  ∀ x y s, s.context.isError = false → x ∈ monitor.getMonitoredTasks s.self → y ≠ x →
    (monitor.value y (monitor.stop x s).2).1 = (monitor.value y s).1

/-- Then the loop returns the values from before the first stop. -/
theorem valueBefore_eq (hm : monitor.StopsOne) (hkeeps : monitor.KeepsValues) {tasks : List Int}
    (hsorted : tasks.Pairwise (· < ·)) {s : Session M} (hs : s.context.isError = false) {x : Int}
    (hx : monitor.Served tasks s x) : monitor.valueBefore tasks s x = (monitor.value x s).1 := by
  induction tasks generalizing s with
  | nil => cases hx.1
  | cons task rest ih =>
    rw [List.pairwise_cons] at hsorted
    have hmem : task ∈ monitor.getMonitoredTasks s.self := by
      by_contra hn
      exact not_served_cons hsorted.1 hn x hx
    obtain ⟨-, hok, hleft⟩ := hm.watched task s hs hmem
    rcases (served_cons_watched hsorted.1 hmem hleft x).mp hx with rfl | hrest
    · exact valueBefore_least hsorted.1 s
    · have hlt := hsorted.1 x hrest.1
      rw [valueBefore_cons hlt, ih hsorted.2 hok hrest, hkeeps task x s hs hmem hlt.ne']

end PerformanceMonitor

/-! ## The two monitors -/

namespace Random

variable [Zero D]

theorem value_watched {tid : Int} {s : Session (Random D)} (h : tid ∈ s.self.rands) :
    ∃ v, s.self.rands.lookup tid = some v ∧ value tid s = (v, s) := by
  obtain ⟨v, hv⟩ := Option.isSome_iff_exists.mp (AList.lookup_isSome.mpr h)
  refine ⟨v, hv, ?_⟩
  rw [value, hv]

theorem stop_watched {tid : Int} {s : Session (Random D)} (hs : s.context.isError = false) (h : tid ∈ s.self.rands) :
    stop tid s = ((value tid s).1, { s with self := { s.self with rands := s.self.rands.erase tid } }) := by
  obtain ⟨v, -, hv⟩ := value_watched h
  simp only [stop, hv, hs, Bool.false_eq_true, if_false]

theorem monitor_stopsOne (k : Kernel D) : (monitor k).StopsOne := by
  constructor
  · intro tid s hs hmem
    simp only [monitor, mem_getMonitoredTasks] at hmem ⊢
    rw [stop_watched hs hmem]
    refine ⟨rfl, hs, ?_⟩
    intro x
    rw [AList.mem_erase, and_comm]
  · intro tid s hs hmem
    simp only [monitor, mem_getMonitoredTasks] at hmem ⊢
    rw [← AList.lookup_eq_none] at hmem
    simp [stop, value, hmem, Session.report, setsError]

theorem monitor_keepsValues (k : Kernel D) : (monitor k).KeepsValues := by
  intro x y s hs hmem hne
  simp only [monitor, mem_getMonitoredTasks] at hmem ⊢
  rw [stop_watched hs hmem]
  simp only [value, AList.lookup_erase_ne hne]
  cases s.self.rands.lookup y with
  | none => rfl
  | some v => rfl

end Random

namespace GPerf

variable {k : Kernel D}

theorem clear_watched (hclose : ∀ n fd, k.close n fd ≠ -1) {tid : Int} {s : Session (GPerf D)}
    (h : tid ∈ s.self.threads) :
    ∃ host, clear k tid s = { s with self := { s.self with threads := s.self.threads.erase tid }, host := host } := by
  have hok := closeAll_ok hclose (s.self.fds tid) s.host
  refine ⟨(closeAll k (s.self.fds tid) s.host).2, ?_⟩
  simp only [clear, h, if_true, hok, Bool.not_true, Bool.false_eq_true, if_false]

variable [Add D] [Mul D] [NatCast D]

/-- Counters that stand still are read alike at any time. -/
theorem readAll_same (hsame : ∀ n n' fd, k.read n fd = k.read n' fd) (scale : D) (fds : List Int) (sum : D)
    (h h' : Host) : (readAll k scale fds sum h).1 = (readAll k scale fds sum h').1 := by
  induction fds generalizing sum h h' with
  | nil => rfl
  | cons fd rest ih =>
    simp only [readAll, Host.read]
    rw [hsame h.clock h'.clock]
    cases k.read h'.clock fd with
    | none => rfl
    | some raw => exact ih _ _ _

variable [Zero D]

theorem value_watched (hread : ∀ n fd, (k.read n fd).isSome) {tid : Int} {s : Session (GPerf D)}
    (h : tid ∈ s.self.threads) : ∃ result host, value k tid s = (result, { s with host := host }) := by
  obtain ⟨result, host, hr⟩ := readAll_isSome hread s.self.sensorScale (s.self.fds tid) 0 s.host
  refine ⟨result, host, ?_⟩
  rw [value, if_pos h, hr]

theorem stop_watched (hread : ∀ n fd, (k.read n fd).isSome) (hclose : ∀ n fd, k.close n fd ≠ -1) {tid : Int}
    {s : Session (GPerf D)} (hs : s.context.isError = false) (h : tid ∈ s.self.threads) :
    ∃ host, stop k tid s = ((value k tid s).1,
      { s with self := { s.self with threads := s.self.threads.erase tid }, host := host }) := by
  obtain ⟨result, host, hv⟩ := value_watched hread h
  obtain ⟨host', hc⟩ := clear_watched hclose (s := { s with host := host }) h
  refine ⟨host', ?_⟩
  simp only [stop, hv, hs, hc, Bool.false_eq_true, if_false]

theorem monitor_stopsOne (hread : ∀ n fd, (k.read n fd).isSome) (hclose : ∀ n fd, k.close n fd ≠ -1) :
    (monitor k).StopsOne := by
  constructor
  · intro tid s hs hmem
    simp only [monitor, mem_getMonitoredTasks] at hmem ⊢
    obtain ⟨host, hstop⟩ := stop_watched hread hclose hs hmem
    rw [hstop]
    refine ⟨rfl, hs, ?_⟩
    intro x
    rw [AList.mem_erase, and_comm]
  · intro tid s hs hmem
    simp only [monitor, mem_getMonitoredTasks] at hmem ⊢
    simp [stop, value, hmem, Session.report, setsError]

theorem monitor_keepsValues (hread : ∀ n fd, (k.read n fd).isSome) (hclose : ∀ n fd, k.close n fd ≠ -1)
    (hsame : ∀ n n' fd, k.read n fd = k.read n' fd) : (monitor k).KeepsValues := by
  intro x y s hs hmem hne
  simp only [monitor, mem_getMonitoredTasks] at hmem ⊢
  obtain ⟨host, hstop⟩ := stop_watched hread hclose hs hmem
  rw [hstop]
  have hfds : ({ s.self with threads := s.self.threads.erase x } : GPerf D).fds y = s.self.fds y := by
    rw [fds, fds, AList.lookup_erase_ne hne]
  have hthreads : y ∈ s.self.threads.erase x ↔ y ∈ s.self.threads := by
    rw [AList.mem_erase]
    exact and_iff_right hne
  by_cases hy : y ∈ s.self.threads
  · have hreads := readAll_same hsame s.self.sensorScale (s.self.fds y) 0 host s.host
    simp only [value, hthreads, hy, if_true, hfds]
    obtain ⟨result, h, hr⟩ := readAll_isSome hread s.self.sensorScale (s.self.fds y) 0 host
    obtain ⟨result', h', hr'⟩ := readAll_isSome hread s.self.sensorScale (s.self.fds y) 0 s.host
    rw [hr, hr'] at hreads
    rw [hr, hr']
    exact Option.some.inj hreads
  · simp only [value, hthreads, hy, if_false]

end GPerf

namespace PerformanceMonitor

/-! ## `stop` over a set -/

variable [Zero D] [Add D] [Mul D] [NatCast D] {k : Kernel D}

/-- A Random monitor, or a GPerf one that can read and close its counters. -/
inductive SyscallsSucceed (k : Kernel D) : {M : Type} → PerformanceMonitor M D → Prop
  | random : SyscallsSucceed k (Random.monitor k)
  | gperf (hread : ∀ n fd, (k.read n fd).isSome) (hclose : ∀ n fd, k.close n fd ≠ -1) :
    SyscallsSucceed k (GPerf.monitor k)

theorem SyscallsSucceed.stopsOne {monitor : PerformanceMonitor M D} (h : SyscallsSucceed k monitor) :
    monitor.StopsOne := by
  cases h with
  | random => exact Random.monitor_stopsOne k
  | gperf hread hclose => exact GPerf.monitor_stopsOne hread hclose

/-- Such a monitor whose values change only by its own calls. -/
inductive StandsStill (k : Kernel D) : {M : Type} → PerformanceMonitor M D → Prop
  | random : StandsStill k (Random.monitor k)
  | gperf (hread : ∀ n fd, (k.read n fd).isSome) (hclose : ∀ n fd, k.close n fd ≠ -1)
    (hsame : ∀ n n' fd, k.read n fd = k.read n' fd) : StandsStill k (GPerf.monitor k)

theorem StandsStill.keepsValues {monitor : PerformanceMonitor M D} (h : StandsStill k monitor) :
    monitor.KeepsValues := by
  cases h with
  | random => exact Random.monitor_keepsValues k
  | gperf hread hclose hsame => exact GPerf.monitor_keepsValues hread hclose hsame

variable {monitor : PerformanceMonitor M D}

/-- Stopping watched tasks returns the value of each and leaves the others watched. Otherwise `stop` gives up at the
least task that is not watched, having done so for the tasks below it. Without an argument it stops all. -/
theorem bulk_stop_exact (hm : SyscallsSucceed k monitor) (s : Session M) (hs : s.context.isError = false) :
    (∀ tasks : TidSet, (∀ x ∈ tasks, x ∈ monitor.getMonitoredTasks s.self) →
      (∀ x, (stopTasks monitor tasks s).1.lookup x =
        if x ∈ tasks then some (monitor.valueBefore tasks.elems s x) else none) ∧
      (stopTasks monitor tasks s).2.context.isError = false ∧
      monitor.getMonitoredTasks (stopTasks monitor tasks s).2.self =
        (monitor.getMonitoredTasks s.self).diff tasks) ∧
    (∀ (tasks : TidSet) (u : Int), u ∈ tasks → u ∉ monitor.getMonitoredTasks s.self →
      (∀ y ∈ tasks, y < u → y ∈ monitor.getMonitoredTasks s.self) →
      (∀ x, (stopTasks monitor tasks s).1.lookup x =
        if x ∈ tasks ∧ x < u then some (monitor.valueBefore tasks.elems s x) else none) ∧
      (stopTasks monitor tasks s).2.context.isError = true ∧
      ∀ x, x ∈ monitor.getMonitoredTasks (stopTasks monitor tasks s).2.self ↔
        x ∈ monitor.getMonitoredTasks s.self ∧ ¬ (x ∈ tasks ∧ x < u)) ∧
    (∀ x, (stopAll monitor s).1.lookup x =
      if x ∈ monitor.getMonitoredTasks s.self
      then some (monitor.valueBefore (monitor.getMonitoredTasks s.self).elems s x) else none) ∧
    monitor.getMonitoredTasks (stopAll monitor s).2.self = .empty ∧
    (StandsStill k monitor → ∀ (tasks : TidSet) (x : Int), ((stopTasks monitor tasks s).1.lookup x).isSome →
      (stopTasks monitor tasks s).1.lookup x = some (monitor.value x s).1) := by
  have hstops := hm.stopsOne
  refine ⟨?_, ?_, ?_, stopAll_watched hstops hs, ?_⟩
  · intro tasks hsub
    exact stopTasks_watched hstops hs hsub
  · intro tasks u hu hnot hleast
    exact stopTasks_refused hstops hs hu hnot hleast
  · exact (stopTasks_watched hstops hs fun _ hx => hx).1
  · intro hstill tasks x
    rw [(stopTasks_spec hstops tasks hs).2.1]
    split
    · rename_i hserved
      intro _
      rw [valueBefore_eq hstops hstill.keepsValues tasks.sorted hs hserved]
    · rintro ⟨⟩

/-- A Random monitor that watches tasks 1 and 3. -/
def drawing : Session (Random Int) :=
  [1, 3].foldl (fun s tid => Random.start .succeeding tid s) { self := {}, context := {}, host := {} }

/-- A GPerf monitor that watches tasks 5 and 7. -/
def counting : Session (GPerf Int) :=
  [5, 7].foldl (fun s tid => GPerf.start .succeeding tid s)
    { self := { sensorScale := 1 }, context := {}, host := {} }

theorem bulk_stop_two :
    (∀ x, (stopTasks (Random.monitor .succeeding) (.ofList [1, 2, 3]) drawing).1.lookup x =
      if x ∈ SortedSet.ofList [1, 2, 3] ∧ x < 2
      then some (valueBefore (Random.monitor .succeeding) [1, 2, 3] drawing x) else none) ∧
    (stopTasks (Random.monitor .succeeding) (.ofList [1, 2, 3]) drawing).2.context.isError = true ∧
    (∀ x, (stopAll (GPerf.monitor .succeeding) counting).1.lookup x =
      if x ∈ SortedSet.ofList [5, 7]
      then some (valueBefore (GPerf.monitor .succeeding) [5, 7] counting x) else none) ∧
    (GPerf.monitor .succeeding).getMonitoredTasks (stopAll (GPerf.monitor .succeeding) counting).2.self = .empty := by
  have hleast : ∀ y ∈ SortedSet.ofList [1, 2, 3], y < 2 →
      y ∈ (Random.monitor .succeeding).getMonitoredTasks drawing.self := by
    intro y hy hlt
    have h1 : y = 1 := by
      simp only [SortedSet.mem_ofList, List.mem_cons, List.not_mem_nil, or_false] at hy
      omega
    subst h1
    decide
  have hrandom := (bulk_stop_exact (k := .succeeding) .random drawing rfl).2.1 (.ofList [1, 2, 3]) 2
    (by decide) (by decide) hleast
  have hclose : ∀ n fd, Kernel.succeeding.close n fd ≠ -1 := by simp [Kernel.succeeding]
  have hgperf := (bulk_stop_exact (.gperf (fun _ _ => rfl) hclose) counting rfl).2.2
  exact ⟨hrandom.1, hrandom.2.1, hgperf.1, hgperf.2.1⟩

end PerformanceMonitor

end AutopinPlus
