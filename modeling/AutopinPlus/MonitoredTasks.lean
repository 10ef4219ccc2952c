import AutopinPlus.PerformanceMonitor

/-!
# Which tasks a monitor watches

If every call to the kernel and to the device succeeds, `start` adds exactly its
task to `getMonitoredTasks` and `clear` removes exactly its task, for each of the
three monitors. A ClustSafe response has to cover the configured outlets.
-/
namespace AutopinPlus

variable {D : Type}

/-- Every call the monitors make of the kernel succeeds. -/
structure Kernel.Succeeds (k : Kernel D) : Prop where
  perfEventOpen : ∀ n pid cpu, 0 ≤ k.perfEventOpen n pid cpu
  ioctl : ∀ n fd request, k.ioctl n fd request ≠ -1
  close : ∀ n fd, k.close n fd ≠ -1

/-- The payload has a word for each configured outlet; its size is an `int`. -/
def Covers (outlets : List Int) (payload : List UInt8) : Prop :=
  payload.length < 2 ^ 31 ∧ ∀ outlet ∈ outlets, 0 ≤ outlet ∧ 4 * outlet + 4 ≤ payload.length

/-- The ClustSafe device answers every command, for every configured outlet. -/
def Host.Answers (k : Kernel D) (h : Host) : Prop :=
  ∀ n, ∃ payload, k.sendCommand n = .ok payload ∧ Covers h.clustSafe.outlets payload

theorem Host.Answers.congr {k : Kernel D} {h h' : Host} (ha : h.Answers k)
    (ho : h'.clustSafe.outlets = h.clustSafe.outlets) : h'.Answers k := by
  unfold Host.Answers
  rw [ho]
  exact ha

theorem Kernel.succeeding_succeeds : Kernel.succeeding.Succeeds := by
  refine ⟨?_, fun _ _ _ => by simp [Kernel.succeeding], fun _ _ => by simp [Kernel.succeeding]⟩
  intro n _ _
  simp only [Kernel.succeeding]
  omega

namespace Random

theorem mem_getMonitoredTasks (m : Random D) (x : Int) : x ∈ m.getMonitoredTasks ↔ x ∈ m.rands := by
  rw [getMonitoredTasks, SortedSet.mem_ofList, AList.mem_keys]

theorem start_monitored (k : Kernel D) (tid : Int) (s : Session (Random D)) (x : Int) :
    x ∈ (start k tid s).self.getMonitoredTasks ↔ x = tid ∨ x ∈ s.self.getMonitoredTasks := by
  simp [mem_getMonitoredTasks, start]

theorem clear_monitored (tid : Int) (s : Session (Random D)) (x : Int) :
    x ∈ (clear tid s).self.getMonitoredTasks ↔ x ∈ s.self.getMonitoredTasks ∧ x ≠ tid := by
  unfold clear
  split
  · simp [mem_getMonitoredTasks, and_comm]
  · rename_i hn
    rw [mem_getMonitoredTasks]
    exact ⟨fun hx => ⟨hx, fun he => hn (he ▸ hx)⟩, fun hx => hx.1⟩

end Random

namespace GPerf

theorem mem_getMonitoredTasks (m : GPerf D) (x : Int) : x ∈ m.getMonitoredTasks ↔ x ∈ m.threads := by
  rw [getMonitoredTasks, SortedSet.mem_ofList, AList.mem_keys]

theorem ioctlAll_succeeds {k : Kernel D} (hk : k.Succeeds) (request : PerfRequest) (fds : List Int)
    (h : Host) : (ioctlAll k request fds h).1 = true := by
  induction fds generalizing h with
  | nil => rfl
  | cons fd rest ih => simp [ioctlAll, Host.ioctl, hk.ioctl, ih]

theorem ioctlAll_clustSafe (k : Kernel D) (request : PerfRequest) (fds : List Int) (h : Host) :
    (ioctlAll k request fds h).2.clustSafe = h.clustSafe := by
  induction fds generalizing h with
  | nil => rfl
  | cons fd rest ih =>
    simp only [ioctlAll]
    split
    · rfl
    · rw [ih]; rfl

theorem closeAll_clustSafe (k : Kernel D) (fds : List Int) (h : Host) :
    (closeAll k fds h).2.clustSafe = h.clustSafe := by
  induction fds generalizing h with
  | nil => rfl
  | cons fd rest ih =>
    simp only [closeAll]
    split
    · rfl
    · rw [ih]; rfl

/-- The creation loop opens a counter on every processor, the first of which makes the
entry of the thread. -/
theorem openAll_succeeds {k : Kernel D} (hk : k.Succeeds) (thread : Int) (processors : List Int)
    (s : Session (GPerf D)) :
    (openAll k thread processors s).1 = true ∧
      (openAll k thread processors s).2.host.clustSafe = s.host.clustSafe ∧
      ∀ x, x ∈ (openAll k thread processors s).2.self.threads ↔
        (x = thread ∧ processors ≠ []) ∨ x ∈ s.self.threads := by
  induction processors generalizing s with
  | nil => simp [openAll]
  | cons processor rest ih =>
    simp only [openAll, Host.perfEventOpen, hk.perfEventOpen, if_true]
    refine ⟨(ih _).1, (ih _).2.1, ?_⟩
    intro x
    rw [(ih _).2.2]
    simp only [append, AList.mem_insert]
    tauto

theorem restart_self (k : Kernel D) (thread : Int) (s : Session (GPerf D)) :
    (restart k thread s).self = s.self := by
  simp only [restart, failedStart]
  split
  · rfl
  · split
    · rfl
    · split <;> rfl

theorem restart_clustSafe (k : Kernel D) (thread : Int) (s : Session (GPerf D)) :
    (restart k thread s).host.clustSafe = s.host.clustSafe := by
  simp only [restart, failedStart]
  split
  · exact ioctlAll_clustSafe ..
  · split
    · exact (ioctlAll_clustSafe ..).trans (ioctlAll_clustSafe ..)
    · split <;>
        exact (ioctlAll_clustSafe ..).trans ((ioctlAll_clustSafe ..).trans (ioctlAll_clustSafe ..))

theorem start_monitored {k : Kernel D} (hk : k.Succeeds) (tid : Int) (s : Session (GPerf D)) :
    (start k tid s).host.clustSafe = s.host.clustSafe ∧
      ∀ x, x ∈ (start k tid s).self.getMonitoredTasks ↔ x = tid ∨ x ∈ s.self.getMonitoredTasks := by
  simp only [mem_getMonitoredTasks]
  unfold start
  split
  · rename_i hmem
    refine ⟨restart_clustSafe k tid s, ?_⟩
    intro x
    rw [restart_self]
    exact ⟨.inr, fun hx => hx.elim (fun he => he ▸ hmem) id⟩
  · obtain ⟨hok, hhost, hthreads⟩ := openAll_succeeds hk tid s.self.targets s
    simp only [hok, Bool.not_true, Bool.false_eq_true, if_false, ioctlAll_succeeds hk]
    refine ⟨(ioctlAll_clustSafe ..).trans hhost, ?_⟩
    intro x
    simp [hthreads, targets_ne_nil]

theorem clear_monitored {k : Kernel D} (hk : k.Succeeds) (tid : Int) (s : Session (GPerf D)) :
    (clear k tid s).host.clustSafe = s.host.clustSafe ∧
      ∀ x, x ∈ (clear k tid s).self.getMonitoredTasks ↔ x ∈ s.self.getMonitoredTasks ∧ x ≠ tid := by
  simp only [mem_getMonitoredTasks]
  unfold clear
  split
  · simp only [closeAll_ok hk.close, Bool.not_true, Bool.false_eq_true, if_false]
    exact ⟨closeAll_clustSafe .., fun x => by rw [AList.mem_erase, and_comm]⟩
  · rename_i hn
    exact ⟨rfl, fun x => ⟨fun hx => ⟨hx, fun he => hn (he ▸ hx)⟩, fun hx => hx.1⟩⟩

end GPerf

namespace ClustSafe

theorem sumOutlets_ok {payload : List UInt8} {outlets : List Int} (h : Covers outlets payload)
    (value : Nat) : ∃ sum, sumOutlets payload outlets value = some (.ok sum) := by
  induction outlets generalizing value with
  | nil => exact ⟨value, rfl⟩
  | cons outlet rest ih =>
    obtain ⟨hsize, hout⟩ := h
    obtain ⟨h0, hlen⟩ := hout outlet (by simp)
    have hbound : (outlet * 4 + 4) % 2 ^ 64 ≤ ((payload.length % 2 ^ 32 : Nat) : Int) := by omega
    obtain ⟨w, hw⟩ : ∃ w, word payload outlet = some w := by
      rw [word, if_pos ⟨h0, hlen⟩]
      exact ⟨_, rfl⟩
    obtain ⟨sum, hsum⟩ := ih ⟨hsize, fun o ho => hout o (List.mem_cons_of_mem outlet ho)⟩
      ((value + w) % 2 ^ 64).toNat
    exact ⟨sum, by rw [sumOutlets, if_pos (by exact_mod_cast hbound), hw, Option.bind_some, hsum]⟩

theorem readValueFromDevice_ok {k : Kernel D} {h : Host} (ha : h.Answers k) :
    ∃ h', readValueFromDevice k true h = some (.ok (), h') ∧
      h'.clustSafe.outlets = h.clustSafe.outlets := by
  obtain ⟨payload, hp, hcov⟩ := ha (h.clock + 1)
  obtain ⟨sum, hsum⟩ := sumOutlets_ok hcov 0
  simp only [readValueFromDevice, Host.elapsed, Host.sendCommand, Bool.true_or, if_true, hp, hsum,
    Option.map_some]
  exact ⟨_, rfl, rfl⟩

theorem start_monitored {k : Kernel D} (tid : Int) {s : Session ClustSafe} (ha : s.host.Answers k) :
    ∃ s', start k tid s = some s' ∧ s'.host.clustSafe.outlets = s.host.clustSafe.outlets ∧
      ∀ x, x ∈ s'.self.getMonitoredTasks ↔ x = tid ∨ x ∈ s.self.getMonitoredTasks := by
  obtain ⟨h', hr, ho⟩ := readValueFromDevice_ok ha
  refine ⟨_, by rw [start, hr]; rfl, ho, ?_⟩
  intro x
  exact SortedSet.mem_insert x tid s.self.threads

end ClustSafe

namespace Monitor

/-- `start` adds its task to the monitored ones. -/
theorem start_monitored {k : Kernel D} (hk : k.Succeeds) (tid : Int) (s : Session (Monitor D))
    (ha : s.host.Answers k) :
    ∃ s', start k tid s = some s' ∧ s'.host.Answers k ∧
      ∀ x, x ∈ s'.self.getMonitoredTasks ↔ x = tid ∨ x ∈ s.self.getMonitoredTasks := by
  obtain ⟨self, context, host⟩ := s
  cases self with
  | random m => exact ⟨_, rfl, ha, Random.start_monitored k tid ⟨m, context, host⟩⟩
  | gperf m =>
    obtain ⟨hh, hx⟩ := GPerf.start_monitored hk tid ⟨m, context, host⟩
    exact ⟨_, rfl, ha.congr (congrArg ClustSafeStatic.outlets hh), hx⟩
  | clustSafe m =>
    obtain ⟨s', hs', ho, hx⟩ := ClustSafe.start_monitored tid (s := ⟨m, context, host⟩) ha
    exact ⟨s'.map .clustSafe, by simp [start, hs'], ha.congr ho, hx⟩

/-- `clear` removes its task from the monitored ones. -/
theorem clear_monitored {k : Kernel D} (hk : k.Succeeds) (tid : Int) (s : Session (Monitor D))
    (ha : s.host.Answers k) :
    (clear k tid s).host.Answers k ∧ ∀ x, x ∈ (clear k tid s).self.getMonitoredTasks ↔
      x ∈ s.self.getMonitoredTasks ∧ x ≠ tid := by
  obtain ⟨self, context, host⟩ := s
  cases self with
  | random m =>
    refine ⟨?_, Random.clear_monitored tid ⟨m, context, host⟩⟩
    simp only [clear, Random.clear]
    split <;> exact ha
  | gperf m =>
    obtain ⟨hh, hx⟩ := GPerf.clear_monitored hk tid ⟨m, context, host⟩
    exact ⟨ha.congr (congrArg ClustSafeStatic.outlets hh), hx⟩
  | clustSafe m => exact ⟨ha, fun x => SortedSet.mem_erase x tid m.threads⟩

end Monitor

/-! ## Monitors that keep an entry for each task -/

/-- A monitor that, outside the error state, can stop every task it watches. -/
structure PerformanceMonitor.PerTask {M : Type} (monitor : PerformanceMonitor M D) : Prop where
  start : ∀ tid s, s.context.Spared → (monitor.start tid s).context.Spared ∧
    ((monitor.start tid s).context.isError = false → s.context.isError = false ∧
      ∀ x, x = tid ∨ x ∈ monitor.getMonitoredTasks s.self →
        x ∈ monitor.getMonitoredTasks (monitor.start tid s).self)
  stop : ∀ tid s, s.context.Spared →
    (s.context.isError = false → tid ∈ monitor.getMonitoredTasks s.self) →
    (monitor.stop tid s).2.context.Spared ∧
      ((monitor.stop tid s).2.context.isError = false → s.context.isError = false ∧
        ∀ x ∈ monitor.getMonitoredTasks s.self, x ≠ tid →
          x ∈ monitor.getMonitoredTasks (monitor.stop tid s).2.self)

namespace Random

variable [Zero D]

/-- `value` fails only for a task without an entry. -/
theorem value_spared {tid : Int} {s : Session (Random D)} (hs : s.context.Spared)
    (hmem : s.context.isError = false → tid ∈ s.self.rands) :
    (value tid s).2.context.Spared ∧ (value tid s).2.self = s.self ∧
      (value tid s).2.context.isError = s.context.isError := by
  unfold value
  split
  · exact ⟨hs, rfl, rfl⟩
  · rename_i hnone
    have he : s.context.isError = true := by
      by_contra hno
      exact AList.lookup_eq_none.mp hnone (hmem (by simpa using hno))
    exact ⟨hs.report _ (fun _ => he), rfl, by simp [Session.report, he]⟩

theorem monitor_perTask (k : Kernel D) : (monitor k).PerTask := by
  constructor
  · intro tid s hs
    exact ⟨hs, fun he => ⟨he, fun x hx => (start_monitored k tid s x).mpr hx⟩⟩
  · intro tid s hs hmem
    simp only [monitor, mem_getMonitoredTasks] at hmem ⊢
    obtain ⟨hspared, hself, herr⟩ := value_spared hs hmem
    simp only [stop]
    split
    · rename_i he
      exact ⟨hspared, fun hno => by simp [he] at hno⟩
    · refine ⟨hspared, fun he => ⟨herr ▸ he, ?_⟩⟩
      intro x hx hne
      rw [hself]
      exact AList.mem_erase.mpr ⟨hne, hx⟩

end Random

namespace GPerf

theorem openAll_spared (k : Kernel D) (thread : Int) (processors : List Int) (s : Session (GPerf D))
    (hs : s.context.Spared) :
    (openAll k thread processors s).2.context.Spared ∧
      ((openAll k thread processors s).2.context.isError = false →
        (openAll k thread processors s).1 = true ∧ s.context.isError = false ∧
          ∀ x, (x = thread ∧ processors ≠ []) ∨ x ∈ s.self.threads →
            x ∈ (openAll k thread processors s).2.self.threads) := by
  induction processors generalizing s with
  | nil => simp [openAll, hs]
  | cons processor rest ih =>
    have hgrow : ∀ fd h, ∀ x, (x = thread ∧ processor :: rest ≠ []) ∨ x ∈ s.self.threads →
        (x = thread ∧ rest ≠ []) ∨ x ∈ (append thread fd { s with host := h }).self.threads := by
      intro fd h x hx
      simp only [append, AList.mem_insert]
      tauto
    simp only [openAll]
    split
    · refine (ih (append thread _ { s with host := _ }) hs).imp id (fun h he => ?_)
      obtain ⟨hok, herr, hx⟩ := h he
      exact ⟨hok, herr, fun x h => hx x (hgrow _ _ x h)⟩
    · split
      · refine (ih (append thread _ { s with host := _ }) hs).imp id (fun h he => ?_)
        obtain ⟨hok, herr, hx⟩ := h he
        exact ⟨hok, herr, fun x h => hx x (hgrow _ _ x h)⟩
      · refine ⟨hs.report _ (fun h => by simp at h), ?_⟩
        simp [Session.report, setsError]

theorem restart_spared (k : Kernel D) (thread : Int) (s : Session (GPerf D)) (hs : s.context.Spared) :
    (restart k thread s).context.Spared ∧
      (restart k thread s).context.isError = s.context.isError := by
  have hreport : ∀ msg, (s.context.report .monitor "reset" msg).Spared ∧
      (s.context.report .monitor "reset" msg).isError = s.context.isError :=
    fun msg => ⟨hs.report msg (fun h => by simp at h), by simp [setsError]⟩
  simp only [restart, failedStart]
  split
  · exact hreport _
  · split
    · exact hreport _
    · split
      · exact hreport _
      · exact ⟨hs, rfl⟩

theorem start_spared (k : Kernel D) (tid : Int) (s : Session (GPerf D)) (hs : s.context.Spared) :
    (start k tid s).context.Spared ∧ ((start k tid s).context.isError = false →
      s.context.isError = false ∧ ∀ x, x = tid ∨ x ∈ s.self.threads → x ∈ (start k tid s).self.threads) := by
  simp only [start]
  split
  · rename_i hmem
    obtain ⟨hspared, herr⟩ := restart_spared k tid s hs
    refine ⟨hspared, fun he => ⟨herr ▸ he, ?_⟩⟩
    intro x hx
    rw [restart_self]
    exact hx.elim (fun he => he ▸ hmem) id
  · obtain ⟨hspared, hopen⟩ := openAll_spared k tid s.self.targets s hs
    have hnil := targets_ne_nil s.self
    split
    · refine ⟨hspared, fun he => ?_⟩
      obtain ⟨-, herr, hx⟩ := hopen he
      exact ⟨herr, fun x h => hx x (h.imp_left (fun h => ⟨h, hnil⟩))⟩
    · split
      · refine ⟨hspared.report _ (fun h => by simp at h), ?_⟩
        simp [failedStart, Session.report, setsError]
      · refine ⟨hspared, fun he => ?_⟩
        obtain ⟨-, herr, hx⟩ := hopen he
        exact ⟨herr, fun x h => hx x (h.imp_left (fun h => ⟨h, hnil⟩))⟩

theorem clear_spared (k : Kernel D) (tid : Int) (s : Session (GPerf D)) (hs : s.context.Spared) :
    (clear k tid s).context.Spared ∧ ((clear k tid s).context.isError = false →
      ∀ x ∈ s.self.threads, x ≠ tid → x ∈ (clear k tid s).self.threads) := by
  simp only [clear]
  split
  · split
    · refine ⟨hs.report _ (fun h => by simp at h), ?_⟩
      simp [Session.report, setsError]
    · exact ⟨hs, fun _ x hx hne => AList.mem_erase.mpr ⟨hne, hx⟩⟩
  · exact ⟨hs, fun _ x hx _ => hx⟩

variable [Add D] [Mul D] [NatCast D]

theorem readAll_isSome {k : Kernel D} (hread : ∀ n fd, (k.read n fd).isSome) (scale : D) (fds : List Int)
    (sum : D) (h : Host) : ∃ result h', readAll k scale fds sum h = (some result, h') := by
  induction fds generalizing sum h with
  | nil => exact ⟨sum, h, rfl⟩
  | cons fd rest ih =>
    obtain ⟨raw, hraw⟩ := Option.isSome_iff_exists.mp (hread h.clock fd)
    simp only [readAll, Host.read, hraw]
    exact ih _ _

variable [Zero D]

/-- `value` fails only for a task without an entry, if counters can be read. -/
theorem value_spared {k : Kernel D} (hread : ∀ n fd, (k.read n fd).isSome) {tid : Int}
    {s : Session (GPerf D)} (hs : s.context.Spared)
    (hmem : s.context.isError = false → tid ∈ s.self.threads) :
    (value k tid s).2.context.Spared ∧ (value k tid s).2.self = s.self ∧
      (value k tid s).2.context.isError = s.context.isError := by
  unfold value
  split
  · obtain ⟨result, h, hr⟩ := readAll_isSome hread s.self.sensorScale (s.self.fds tid) 0 s.host
    simp [hr, hs]
  · rename_i hn
    have he : s.context.isError = true := by
      by_contra hno
      exact hn (hmem (by simpa using hno))
    exact ⟨hs.report _ (fun _ => he), rfl, by simp [Session.report, he]⟩

theorem monitor_perTask {k : Kernel D} (hread : ∀ n fd, (k.read n fd).isSome) : (monitor k).PerTask := by
  constructor
  · intro tid s hs
    simpa only [monitor, mem_getMonitoredTasks] using start_spared k tid s hs
  · intro tid s hs hmem
    simp only [monitor, mem_getMonitoredTasks] at hmem ⊢
    obtain ⟨hspared, hself, herr⟩ := value_spared hread hs hmem
    obtain ⟨hspared', hclear⟩ := clear_spared k tid (value k tid s).2 hspared
    simp only [stop]
    split
    · refine ⟨hspared.report _ (fun h => by simp at h), ?_⟩
      simp [Session.report, setsError]
    · rename_i hno
      split
      · refine ⟨hspared'.report _ (fun h => by simp at h), ?_⟩
        simp [Session.report, setsError]
      · refine ⟨hspared', fun he => ⟨herr ▸ Bool.eq_false_iff.mpr hno, ?_⟩⟩
        rw [hself] at hclear
        exact hclear he

end GPerf

/-- The random monitor, or GPerf if its counters can be read. -/
inductive GPerfOrRandom [Zero D] [Add D] [Mul D] [NatCast D] (k : Kernel D) :
    {M : Type} → PerformanceMonitor M D → Prop
  | random : GPerfOrRandom k (Random.monitor k)
  | gperf (hread : ∀ n fd, (k.read n fd).isSome) : GPerfOrRandom k (GPerf.monitor k)

theorem GPerfOrRandom.perTask [Zero D] [Add D] [Mul D] [NatCast D] {k : Kernel D} {M : Type}
    {monitor : PerformanceMonitor M D} (h : GPerfOrRandom k monitor) : monitor.PerTask := by
  cases h with
  | random => exact Random.monitor_perTask k
  | gperf hread => exact GPerf.monitor_perTask hread

end AutopinPlus
