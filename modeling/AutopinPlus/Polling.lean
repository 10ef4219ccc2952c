import AutopinPlus.MonitoredTasks
import AutopinPlus.ScatterRange

/-!
# The task events a polling strategy gives itself

Without tracing, `slot_timer` compares `tasks` with the tids of a new process tree
and calls the two task slots itself, which append to and erase from the same list.
Over any number of ticks the calls for one tid alternate, the live tids after a
tick are those of its tree, and under Noop the monitors watch exactly these.
-/
namespace AutopinPlus

open PartialStep ControlStrategy

variable {D : Type}

/-- One expiry of the timer: the tree `getProcessTree` returns, and the table and the
host as the other strategies have left them. -/
structure Tick where
  scan : Scan
  ord : SetOrder
  pinning : Pinning
  host : Host

/-- The task set the tick reads. -/
def Tick.tasks (t : Tick) : TidSet := t.scan.tree.getAllTasks

def tick (env : Env D) (f : Frame D) (t : Tick) : Option (Frame D) :=
  slotTimer env t.scan t.ord { f with pinning := t.pinning, host := t.host }

/-- `ObservedProcess::start` announces the process, then only the timer runs. -/
def poll (env : Env D) (f : Frame D) (ticks : List Tick) : Option (Frame D) := do
  let f ← slotTaskCreated env f.self.pid f
  ticks.foldlM (tick env) f

/-- The task set of the last tick. -/
def lastTasks (tasks : TidSet) : List Tick → TidSet
  | [] => tasks
  | t :: ts => lastTasks t.tasks ts

/-! ## Alternation -/

/-- The calls for one tid, `true` for a creation. -/
def callsFor (tid : Int) (calls : List SlotCall) : List Bool :=
  calls.filterMap fun
    | .created t => if t = tid then some true else none
    | .terminated t => if t = tid then some false else none

/-- Creation, termination, creation, ... -/
def alternating (n : Nat) : List Bool := (List.range n).map (fun i => i % 2 = 0)

theorem alternating_succ (n : Nat) : alternating (n + 1) = alternating n ++ [decide (n % 2 = 0)] := by
  simp [alternating, List.range_succ]

@[simp] theorem alternating_length (n : Nat) : (alternating n).length = n := by
  simp [alternating]

theorem alternating_getLast? (n : Nat) : (alternating n).getLast? = some true ↔ n % 2 = 1 := by
  cases n with
  | zero => simp [alternating]
  | succ n =>
    rw [alternating_succ, List.getLast?_concat, Option.some.injEq, decide_eq_true_eq]
    omega

/-- The calls for each tid alternate, and the live ones are those created last. -/
def Streams (live : Int → Prop) (calls : List SlotCall) : Prop :=
  ∀ tid, ∃ n, callsFor tid calls = alternating n ∧ (live tid ↔ n % 2 = 1)

/-- The live tids after a call. -/
def after (live : Int → Prop) : SlotCall → Int → Prop
  | .created tid => fun x => live x ∨ x = tid
  | .terminated tid => fun x => live x ∧ x ≠ tid

/-- Only dead tids are created and only live ones terminated. -/
def Legal (live : Int → Prop) : List SlotCall → Prop
  | [] => True
  | .created tid :: calls => ¬ live tid ∧ Legal (after live (.created tid)) calls
  | .terminated tid :: calls => live tid ∧ Legal (after live (.terminated tid)) calls

theorem Streams.congr {live live' : Int → Prop} {calls : List SlotCall} (h : Streams live calls)
    (he : ∀ x, live' x ↔ live x) : Streams live' calls := by
  intro tid
  obtain ⟨n, hn, hl⟩ := h tid
  exact ⟨n, hn, (he tid).trans hl⟩

theorem Streams.created {live : Int → Prop} {calls : List SlotCall} {tid : Int}
    (h : Streams live calls) (hl : ¬ live tid) :
    Streams (after live (.created tid)) (calls ++ [.created tid]) := by
  intro x
  obtain ⟨n, hn, hx⟩ := h x
  by_cases hxt : x = tid
  · subst hxt
    have hn0 : n % 2 = 0 := by
      rw [hx] at hl
      omega
    refine ⟨n + 1, ?_, ?_⟩
    · simp [callsFor, alternating_succ, hn0, ← hn]
    · simp only [after, or_true, true_iff]
      omega
  · refine ⟨n, ?_, ?_⟩
    · simpa [callsFor, Ne.symm hxt] using hn
    · simpa [after, hxt] using hx

theorem Streams.terminated {live : Int → Prop} {calls : List SlotCall} {tid : Int}
    (h : Streams live calls) (hl : live tid) :
    Streams (after live (.terminated tid)) (calls ++ [.terminated tid]) := by
  intro x
  obtain ⟨n, hn, hx⟩ := h x
  by_cases hxt : x = tid
  · subst hxt
    have hn1 : n % 2 = 1 := hx.mp hl
    refine ⟨n + 1, ?_, ?_⟩
    · simp [callsFor, alternating_succ, hn1, ← hn]
    · simp only [after, ne_eq, not_true_eq_false, and_false, false_iff]
      omega
  · refine ⟨n, ?_, ?_⟩
    · simpa [callsFor, Ne.symm hxt] using hn
    · simpa [after, hxt] using hx

theorem Streams.append {live : Int → Prop} {calls more : List SlotCall} (h : Streams live calls)
    (hl : Legal live more) : Streams (more.foldl after live) (calls ++ more) := by
  induction more generalizing live calls with
  | nil => simpa using h
  | cons call more ih =>
    rw [List.append_cons, List.foldl_cons]
    cases call with
    | created tid => exact ih (h.created hl.1) hl.2
    | terminated tid => exact ih (h.terminated hl.1) hl.2

/-! ## The calls of one tick -/

theorem foldl_after_terminated (live : Int → Prop) (tids : List Int) (x : Int) :
    (tids.map SlotCall.terminated).foldl after live x ↔ live x ∧ x ∉ tids := by
  induction tids generalizing live with
  | nil => simp
  | cons tid tids ih =>
    rw [List.map_cons, List.foldl_cons, ih]
    simp only [after, List.mem_cons]
    tauto

theorem foldl_after_created (live : Int → Prop) (tids : List Int) (x : Int) :
    (tids.map SlotCall.created).foldl after live x ↔ live x ∨ x ∈ tids := by
  induction tids generalizing live with
  | nil => simp
  | cons tid tids ih =>
    rw [List.map_cons, List.foldl_cons, ih]
    simp only [after, List.mem_cons]
    tauto

theorem legal_append {live : Int → Prop} {calls more : List SlotCall} (h : Legal live calls)
    (hm : Legal (calls.foldl after live) more) : Legal live (calls ++ more) := by
  induction calls generalizing live with
  | nil => exact hm
  | cons call calls ih =>
    cases call with
    | created tid => exact ⟨h.1, ih h.2 hm⟩
    | terminated tid => exact ⟨h.1, ih h.2 hm⟩

theorem legal_terminated {live : Int → Prop} {tids : List Int} (hnodup : tids.Nodup)
    (h : ∀ tid ∈ tids, live tid) : Legal live (tids.map SlotCall.terminated) := by
  induction tids generalizing live with
  | nil => trivial
  | cons tid tids ih =>
    obtain ⟨htid, htids⟩ := List.nodup_cons.mp hnodup
    refine ⟨h tid (by simp), ih htids ?_⟩
    intro x hx
    exact ⟨h x (List.mem_cons_of_mem tid hx), fun he => htid (he ▸ hx)⟩

theorem legal_created {live : Int → Prop} {tids : List Int} (hnodup : tids.Nodup)
    (h : ∀ tid ∈ tids, ¬ live tid) : Legal live (tids.map SlotCall.created) := by
  induction tids generalizing live with
  | nil => trivial
  | cons tid tids ih =>
    obtain ⟨htid, htids⟩ := List.nodup_cons.mp hnodup
    refine ⟨h tid (by simp), ih htids ?_⟩
    rintro x hx (hl | he)
    · exact h x (List.mem_cons_of_mem tid hx) hl
    · exact htid (he ▸ hx)

namespace ControlStrategy

theorem foldl_after_timerCalls (ord : SetOrder) (old new : TidSet) (x : Int) :
    (timerCalls ord old new).foldl after (· ∈ old) x ↔ x ∈ new := by
  rw [timerCalls, List.foldl_append, foldl_after_created, foldl_after_terminated,
    (ord.perm _).mem_iff, (ord.perm _).mem_iff]
  simp only [SortedSet.mem_elems, SortedSet.mem_diff]
  tauto

theorem legal_timerCalls (ord : SetOrder) (old new : TidSet) :
    Legal (· ∈ old) (timerCalls ord old new) := by
  have hnodup : ∀ s : TidSet, (ord.order s).Nodup :=
    fun s => (ord.perm s).nodup_iff.mpr s.elems_nodup
  have hmem : ∀ (s : TidSet) (x : Int), x ∈ ord.order s ↔ x ∈ s := fun s _ => (ord.perm s).mem_iff
  apply legal_append
  · apply legal_terminated (hnodup _)
    intro x hx
    rw [hmem, SortedSet.mem_diff] at hx
    exact hx.1
  · apply legal_created (hnodup _)
    intro x hx
    rw [hmem, SortedSet.mem_diff] at hx
    rw [foldl_after_terminated]
    exact fun hl => hx.2 hl.1

/-- The tasks of a list are among those it started with and those created since. -/
theorem mem_of_mem_foldl_track {calls : List SlotCall} {tasks : List Int} {x : Int}
    (h : x ∈ calls.foldl track tasks) : x ∈ tasks ∨ .created x ∈ calls := by
  induction calls generalizing tasks with
  | nil => exact .inl h
  | cons call calls ih =>
    rcases ih h with h | h
    · cases call with
      | created tid =>
        rcases List.mem_append.mp h with h | h
        · exact .inl h
        · rw [List.mem_singleton] at h
          exact .inr (by simp [h])
      | terminated tid => exact .inl (List.mem_of_mem_erase h)
    · exact .inr (List.mem_cons_of_mem call h)

/-- A tick leaves `tasks` with the tids of the tree, some of them twice. -/
theorem slotTimer_history {env : Env D} {scan : Scan} {ord : SetOrder} {f g : Frame D}
    (h0 : f.self.newTaskTid = 0) (h : slotTimer env scan ord f = some g) :
    Kept f.self g.self ∧ (∀ x, x ∈ g.self.tasks ↔ x ∈ scan.tree.getAllTasks) ∧
      g.self.calls = f.self.calls ++
        timerCalls ord (.ofList f.self.tasks) (.ofList scan.tree.getAllTasks.elems) := by
  obtain ⟨hk, ht, hc⟩ := slotCalls_history (f := refreshTasks scan f) h0 h
  refine ⟨(refreshTasks_confined scan f).kept.trans hk, ?_, hc⟩
  intro x
  rw [ht]
  constructor
  · intro hx
    rcases mem_of_mem_foldl_track hx with hx | hx
    · exact hx
    · simpa [refreshTasks] using ((created_mem_timerCalls ..).mp hx).1
  · intro hx
    refine mem_foldl_track hx ?_
    simp [refreshTasks, hx]

end ControlStrategy

/-! ## Definedness and monitored tasks -/

/-- The machine suits the strategy: dense nodes for Compact, and for Noop a kernel and a
device that do what they are asked. -/
structure Able (env : Env D) (kind : Kind) (pinning : Pinning) (host : Host) : Prop where
  notScatter : kind ≠ .scatter
  dense : kind = .compact → env.cpu.Dense pinning.length
  answers : kind = .noop → env.kernel.Succeeds ∧ host.Answers env.kernel

/-- Every monitor watches exactly the live tasks. -/
def Watched (live : Int → Prop) (f : Frame D) : Prop :=
  ∀ m ∈ f.self.monitors, ∀ x, x ∈ m.getMonitoredTasks ↔ live x

namespace ControlStrategy

theorem onMonitors_spec {call : Session (Monitor D) → Option (Session (Monitor D))} {P : Host → Prop}
    {Q : Monitor D → Monitor D → Prop}
    (hcall : ∀ s, P s.host → ∃ s', call s = some s' ∧ P s'.host ∧ Q s.self s'.self)
    (ms : List (Monitor D)) (context : AutopinContext) {host : Host} (hP : P host) :
    ∃ r, onMonitors call ms context host = some r ∧ P r.2.2 ∧ ∀ m' ∈ r.1, ∃ m ∈ ms, Q m m' := by
  induction ms generalizing context host with
  | nil => exact ⟨_, rfl, hP, by simp⟩
  | cons m ms ih =>
    obtain ⟨s', hs', hP', hQ⟩ := hcall ⟨m, context, host⟩ hP
    obtain ⟨r, hr, hPr, hQr⟩ := ih s'.context hP'
    refine ⟨(s'.self :: r.1, r.2.1, r.2.2), by simp [onMonitors, hs', hr], hPr, ?_⟩
    intro m' hm'
    rcases List.mem_cons.mp hm' with rfl | hm'
    · exact ⟨m, by simp, hQ⟩
    · obtain ⟨n, hn, hQn⟩ := hQr m' hm'
      exact ⟨n, List.mem_cons_of_mem m hn, hQn⟩

/-- A monitor call that changes the monitored tasks in one way changes them so in all. -/
theorem withMonitors_watched {k : Kernel D}
    {call : Session (Monitor D) → Option (Session (Monitor D))} (live : Int → Prop) {live' : Int → Prop}
    (hcall : ∀ s, s.host.Answers k → ∃ s', call s = some s' ∧ s'.host.Answers k ∧
      ((∀ x, x ∈ s.self.getMonitoredTasks ↔ live x) → ∀ x, x ∈ s'.self.getMonitoredTasks ↔ live' x))
    {f : Frame D} (ha : f.host.Answers k) :
    ∃ g, withMonitors call f = some g ∧ g.host.Answers k ∧ (Watched live f → Watched live' g) := by
  obtain ⟨r, hr, hP, hQ⟩ := onMonitors_spec (Q := fun m m' => (∀ x, x ∈ m.getMonitoredTasks ↔ live x) →
    ∀ x, x ∈ m'.getMonitoredTasks ↔ live' x) hcall f.self.monitors f.self.context ha
  refine ⟨_, by rw [withMonitors, hr]; rfl, hP, ?_⟩
  intro hw m' hm'
  obtain ⟨m, hm, hmm'⟩ := hQ m' hm'
  exact hmm' (hw m hm)

/-- A strategy that does not override `getPinning` pins nothing. -/
theorem changePinning_base {env : Env D} {f : Frame D} (hk : f.self.kind = .base ∨ f.self.kind = .noop) :
    changePinning env f = some f := by
  have hget : getPinning env f.pinning f.self = some (f.pinning, f.self) := by
    rcases hk with hk | hk <;> simp [getPinning, hk]
  rw [changePinning, hget, Option.bind_eq_bind, Option.bind_some]
  exact applySlots_same env.kernel f

/-- Noop hands both calls on to its monitors. -/
theorem noop_watched {env : Env D} {f : Frame D} (hk : f.self.kind = .noop)
    (hs : env.kernel.Succeeds) (ha : f.host.Answers env.kernel) (live : Int → Prop) (call : SlotCall) :
    ∃ g, slotCall env f call = some g ∧ g.host.Answers env.kernel ∧
      (Watched live f → Watched (after live call) g) := by
  cases call with
  | created tid =>
    have hbase : baseTaskCreated env tid (f.record (.created tid)) =
        some { f.record (.created tid) with self.tasks := f.self.tasks ++ [tid] } :=
      changePinning_base (.inr hk)
    simp only [slotCall, slotTaskCreated, hk, hbase, Option.bind_eq_bind, Option.bind_some]
    refine withMonitors_watched live ?_ ha
    intro s hans
    obtain ⟨s', hs', ha', hx⟩ := Monitor.start_monitored hs tid s hans
    refine ⟨s', hs', ha', ?_⟩
    intro hl x
    rw [hx, hl, after, or_comm]
  | terminated tid =>
    have hbase : baseTaskTerminated env tid (f.record (.terminated tid)) =
        some { f.record (.terminated tid) with
          pinning := f.pinning.replace ⟨f.self.pid, tid⟩ emptyTask
          self.tasks := f.self.tasks.erase tid } :=
      changePinning_base (.inr hk)
    simp only [slotCall, slotTaskTerminated, hk, hbase, Option.bind_eq_bind, Option.bind_some]
    refine withMonitors_watched live ?_ ha
    intro s hans
    obtain ⟨ha', hx⟩ := Monitor.clear_monitored hs tid s hans
    refine ⟨_, rfl, ha', ?_⟩
    intro hl x
    rw [hx, hl, after]

theorem slotCall_able {env : Env D} {f : Frame D} (h0 : f.self.newTaskTid = 0)
    (hf : Able env f.self.kind f.pinning f.host) (live : Int → Prop) (call : SlotCall) :
    ∃ g, slotCall env f call = some g ∧ g.self.newTaskTid = 0 ∧ g.self.kind = f.self.kind ∧
      Able env g.self.kind g.pinning g.host ∧
      (f.self.kind = .noop → Watched live f → Watched (after live call) g) := by
  by_cases hk : f.self.kind = .noop
  · obtain ⟨hs, ha⟩ := hf.answers hk
    obtain ⟨g, hg, ha', hw⟩ := noop_watched hk hs ha live call
    have hkept := (slotCall_confined h0 hg).kept
    refine ⟨g, hg, hkept.newTaskTid.trans h0, hkept.kind, ⟨?_, ?_, fun _ => ⟨hs, ha'⟩⟩, fun _ => hw⟩
    · rw [hkept.kind]
      exact hf.notScatter
    · rw [hkept.kind, hk]
      exact fun h => nomatch h
  · have hdef : ∃ g, slotCall env f call = some g := by
      by_cases hb : f.self.kind = .base
      · cases call with
        | created tid =>
          simp only [slotCall, slotTaskCreated, hb]
          exact ⟨_, changePinning_base (.inl hb)⟩
        | terminated tid =>
          simp only [slotCall, slotTaskTerminated, hb]
          exact ⟨_, changePinning_base (.inl hb)⟩
      · have hc : f.self.kind = .compact := by
          have := hf.notScatter
          cases h : f.self.kind <;> simp_all
        have hfits : Fits env.cpu f := ⟨hf.dense hc, fun h => absurd h hf.notScatter, hk⟩
        cases call with
        | created tid => exact slotTaskCreated_defined hfits tid
        | terminated tid =>
          exact Option.isSome_iff_exists.mp
            ((slotTaskTerminated_isSome_iff hfits tid).mpr (fun h => absurd h hf.notScatter))
    obtain ⟨g, hg⟩ := hdef
    have hc := slotCall_confined h0 hg
    refine ⟨g, hg, hc.kept.newTaskTid.trans h0, hc.kept.kind, ⟨?_, ?_, ?_⟩, fun h => absurd h hk⟩
    · rw [hc.kept.kind]
      exact hf.notScatter
    · rw [hc.kept.kind, hc.onlyOwn.length]
      exact hf.dense
    · rw [hc.kept.kind]
      exact fun h => absurd h hk

theorem slotCalls_able {env : Env D} {f : Frame D} (h0 : f.self.newTaskTid = 0)
    (hf : Able env f.self.kind f.pinning f.host) (live : Int → Prop) (calls : List SlotCall) :
    ∃ g, calls.foldlM (slotCall env) f = some g ∧ g.self.newTaskTid = 0 ∧ g.self.kind = f.self.kind ∧
      (f.self.kind = .noop → Watched live f → Watched (calls.foldl after live) g) := by
  induction calls generalizing f live with
  | nil => exact ⟨f, rfl, h0, rfl, fun _ => id⟩
  | cons call calls ih =>
    obtain ⟨f', hf', h0', hk', hable, hw⟩ := slotCall_able h0 hf live call
    obtain ⟨g, hg, hg0, hgk, hgw⟩ := ih h0' hable (after live call)
    refine ⟨g, by simp [hf', hg], hg0, hgk.trans hk', ?_⟩
    intro hn hl
    exact hgw (hk'.trans hn) (hw hn hl)

end ControlStrategy

/-! ## Any number of ticks -/

/-- A strategy no slot of which has run. -/
structure Unused (f : Frame D) : Prop where
  tasks : f.self.tasks = []
  calls : f.self.calls = []
  newTaskTid : f.self.newTaskTid = 0
  monitors : ∀ m ∈ f.self.monitors, m.getMonitoredTasks = .empty

/-- Between two ticks, `tasks` and the calls so far agree on what is live. -/
structure Polled (live : TidSet) (f : Frame D) : Prop where
  newTaskTid : f.self.newTaskTid = 0
  tasks : ∀ x, x ∈ f.self.tasks ↔ x ∈ live
  calls : Streams (· ∈ live) f.self.calls

theorem Unused.announce {env : Env D} {f g : Frame D} (hf : Unused f)
    (h : slotTaskCreated env f.self.pid f = some g) : Polled (.singleton f.self.pid) g := by
  have hc := slotTaskCreated_created hf.newTaskTid h
  have hempty : Streams (fun _ => False) f.self.calls :=
    fun tid => ⟨0, by simp [hf.calls, callsFor, alternating], by simp⟩
  refine ⟨hc.kept.newTaskTid.trans hf.newTaskTid, ?_, ?_⟩
  · intro x
    simp [hc.tasks, hf.tasks]
  · rw [hc.calls]
    exact (hempty.created id).congr (fun x => by simp [after])

theorem Polled.tick {env : Env D} {live : TidSet} {f g : Frame D} {t : Tick} (hf : Polled live f)
    (h : tick env f t = some g) : Polled t.tasks g := by
  obtain ⟨hk, ht, hc⟩ := slotTimer_history
    (f := { f with pinning := t.pinning, host := t.host }) hf.newTaskTid h
  have hold : SortedSet.ofList f.self.tasks = live :=
    SortedSet.ext_mem (fun x => by rw [SortedSet.mem_ofList, hf.tasks])
  rw [SortedSet.ofList_elems, hold] at hc
  refine ⟨hk.newTaskTid.trans hf.newTaskTid, ht, ?_⟩
  rw [hc]
  exact (hf.calls.append (legal_timerCalls t.ord live _)).congr
    (fun x => (foldl_after_timerCalls t.ord live _ x).symm)

theorem polled_ticks {env : Env D} {live : TidSet} {f g : Frame D} {ticks : List Tick}
    (hf : Polled live f) (h : ticks.foldlM (tick env) f = some g) :
    Polled (lastTasks live ticks) g := by
  induction ticks generalizing live f with
  | nil =>
    cases h
    exact hf
  | cons t ticks ih =>
    rw [List.foldlM_cons, Option.bind_eq_bind] at h
    obtain ⟨f', hf', h⟩ := Option.bind_eq_some_iff.mp h
    exact ih (hf.tick hf') h

/-- On a machine that suits the strategy no tick gets stuck, and Noop's monitors follow. -/
theorem able_ticks {env : Env D} {live : TidSet} {f : Frame D} {ticks : List Tick}
    (hf : Polled live f) (hticks : ∀ t ∈ ticks, Able env f.self.kind t.pinning t.host) :
    ∃ g, ticks.foldlM (tick env) f = some g ∧
      (f.self.kind = .noop → Watched (· ∈ live) f → Watched (· ∈ lastTasks live ticks) g) := by
  induction ticks generalizing live f with
  | nil => exact ⟨f, rfl, fun _ => id⟩
  | cons t ticks ih =>
    have hold : SortedSet.ofList f.self.tasks = live :=
      SortedSet.ext_mem (fun x => by rw [SortedSet.mem_ofList, hf.tasks])
    obtain ⟨f', hf', -, hk, hw⟩ := slotCalls_able
      (f := refreshTasks t.scan { f with pinning := t.pinning, host := t.host }) hf.newTaskTid
      (hticks t (by simp)) (· ∈ live) (timerCalls t.ord live t.tasks)
    have hstep : tick env f t = some f' := by
      rw [tick, slotTimer]
      simp only [refreshTasks, hold, SortedSet.ofList_elems]
      exact hf'
    obtain ⟨g, hg, hgw⟩ := ih (hf.tick hstep)
      (fun u hu => hk ▸ hticks u (List.mem_cons_of_mem t hu))
    refine ⟨g, by simp [hstep, hg], ?_⟩
    intro hn hl
    refine hgw (hk.trans hn) ?_
    intro m hm x
    rw [hw hn hl m hm x, foldl_after_timerCalls]

/-- The calls for each tid alternate and start with a creation, and after the last tick
the tids created and not yet terminated are those of its tree. If the machine suits the
strategy, every tick returns, and Noop's monitors watch exactly these tids. -/
theorem poll_stream (env : Env D) (f : Frame D) (ticks : List Tick) (hf : Unused f) :
    (∀ g, poll env f ticks = some g →
      (∀ tid, callsFor tid g.self.calls = alternating (callsFor tid g.self.calls).length) ∧
      ∀ tid, (callsFor tid g.self.calls).getLast? = some true ↔
        tid ∈ lastTasks (.singleton f.self.pid) ticks) ∧
    (Able env f.self.kind f.pinning f.host →
      (∀ t ∈ ticks, Able env f.self.kind t.pinning t.host) →
      ∃ g, poll env f ticks = some g ∧ (f.self.kind = .noop →
        ∀ m ∈ g.self.monitors, m.getMonitoredTasks = lastTasks (.singleton f.self.pid) ticks)) := by
  constructor
  · intro g h
    obtain ⟨f', hf', h⟩ := Option.bind_eq_some_iff.mp h
    have hp := polled_ticks (hf.announce hf') h
    constructor
    · intro tid
      obtain ⟨n, hn, -⟩ := hp.calls tid
      rw [hn, alternating_length]
    · intro tid
      obtain ⟨n, hn, hl⟩ := hp.calls tid
      rw [hn, alternating_getLast?]
      exact hl.symm
  · intro hable hticks
    obtain ⟨f', hf', -, hk, -, hw⟩ :=
      slotCall_able hf.newTaskTid hable (fun _ => False) (.created f.self.pid)
    have hw0 : Watched (fun _ => False) f := by
      intro m hm x
      rw [hf.monitors m hm]
      simp
    have hp := hf.announce hf'
    obtain ⟨g, hg, hgw⟩ := able_ticks hp (fun t ht => hk ▸ hticks t ht)
    refine ⟨g, Option.bind_eq_some_iff.mpr ⟨f', hf', hg⟩, ?_⟩
    intro hn m hm
    have hw1 : Watched (· ∈ SortedSet.singleton f.self.pid) f' := by
      intro m hm x
      rw [hw hn hw0 m hm x]
      simp [after]
    exact SortedSet.ext_mem (hgw (hk.trans hn) hw1 m hm)

/-- A Noop strategy with one monitor of each kind. -/
def noopFrame : Frame Int where
  pinning := [emptyTask]
  host := {}
  self :=
    { kind := .noop
      pid := 10
      monitors := [.random {}, .gperf { sensorScale := 1 }, .clustSafe { address := 0 }] }

/-- A thread appears in the first tick, and only it is left in the second. -/
def noopTicks : List Tick :=
  [⟨⟨.node 10 (.ofList [10, 11]) [], []⟩, .ascending, [emptyTask], {}⟩,
    ⟨⟨.node 10 (.ofList [11]) [], []⟩, .ascending, [emptyTask], {}⟩]

theorem noopFrame_stream :
    ∃ g, poll .oneCpu noopFrame noopTicks = some g ∧
      callsFor 10 g.self.calls = alternating (callsFor 10 g.self.calls).length ∧
      ∀ m ∈ g.self.monitors, m.getMonitoredTasks = .ofList [11] := by
  have hunused : Unused noopFrame := by
    refine ⟨rfl, rfl, rfl, ?_⟩
    simp only [noopFrame, List.forall_mem_cons, List.not_mem_nil, false_implies, implies_true, and_true]
    exact ⟨rfl, rfl, rfl⟩
  have hanswers : ({} : Host).Answers Kernel.succeeding := by
    intro n
    exact ⟨[0, 0, 0, 0, 0, 0, 0, 0], rfl, by decide, by decide⟩
  have hable : ∀ pinning, Able .oneCpu .noop pinning {} :=
    fun _ => ⟨by decide, fun h => absurd h (by decide), fun _ => ⟨Kernel.succeeding_succeeds, hanswers⟩⟩
  obtain ⟨hstream, hdef⟩ := poll_stream .oneCpu noopFrame noopTicks hunused
  obtain ⟨g, hg, hm⟩ := hdef (hable _) (by simp [noopTicks, noopFrame, hable])
  exact ⟨g, hg, (hstream g hg).1 10, hm rfl⟩

end AutopinPlus
