import AutopinPlus.Error
import AutopinPlus.OSServices

/-!
# Performance monitors

The virtual interface of `PerformanceMonitor` and its four implementations.
A monitor call changes the monitor, the context it reports to and the host. Values
are of an arbitrary type with the arithmetic of the source, never a concrete one.
-/
namespace AutopinPlus

variable {M N D : Type}

inductive Montype where
  | max | min | unknown
  deriving DecidableEq, Repr

/-- What a call of a monitor acts on. -/
structure Session (M : Type) where
  self : M
  context : AutopinContext
  host : Host

namespace Session

def map (f : M → N) (s : Session M) : Session N := ⟨f s.self, s.context, s.host⟩

def report (s : Session M) (opt msg : String) : Session M :=
  { s with context := s.context.report .monitor opt msg }

@[simp] theorem report_self (s : Session M) (opt msg : String) : (s.report opt msg).self = s.self := rfl
@[simp] theorem report_host (s : Session M) (opt msg : String) : (s.report opt msg).host = s.host := rfl
@[simp] theorem map_self (f : M → N) (s : Session M) : (s.map f).self = f s.self := rfl
@[simp] theorem map_host (f : M → N) (s : Session M) : (s.map f).host = s.host := rfl
@[simp] theorem map_context (f : M → N) (s : Session M) : (s.map f).context = s.context := rfl

/-- A call that pins no task and reports only as a monitor. -/
structure Quiet (s : Session M) (s' : Session N) : Prop where
  affinity : s'.host.affinity = s.host.affinity
  errors : ∀ e ∈ s'.context.errors, e ∈ s.context.errors ∨ e.1 = .monitor

theorem Quiet.of_host {s : Session M} {s' : Session N} (hh : s'.host.affinity = s.host.affinity)
    (hc : s'.context = s.context) : s.Quiet s' :=
  ⟨hh, fun _ he => .inl (hc ▸ he)⟩

theorem Quiet.trans {s : Session M} {s' : Session N} {s'' : Session M} (h : s.Quiet s')
    (h' : s'.Quiet s'') : s.Quiet s'' := by
  refine ⟨h'.affinity.trans h.affinity, ?_⟩
  intro e he
  rcases h'.errors e he with he | he
  · exact h.errors e he
  · exact .inr he

theorem Quiet.report {s : Session M} {s' : Session N} (h : s.Quiet s') (opt msg : String) :
    s.Quiet (s'.report opt msg) := by
  refine ⟨h.affinity, ?_⟩
  intro e he
  simp only [Session.report, AutopinContext.report_errors, List.mem_append, List.mem_singleton] at he
  rcases he with he | rfl
  · exact h.errors e he
  · exact .inr rfl

end Session

/-- The virtual functions a control strategy calls. -/
structure PerformanceMonitor (M D : Type) where
  getValType : M → Montype
  start : Int → Session M → Session M
  value : Int → Session M → D × Session M
  stop : Int → Session M → D × Session M
  clear : Int → Session M → Session M
  getMonitoredTasks : M → TidSet

/-! ## `Monitor::Random` -/

structure Random (D : Type) where
  valtype : Montype := .max
  rands : AList (fun _ : Int => D) := ∅

namespace Random

def start (k : Kernel D) (tid : Int) (s : Session (Random D)) : Session (Random D) :=
  { s with
    self := { s.self with rands := s.self.rands.insert tid (k.getRandomValue s.host.clock) },
    host := { s.host with clock := s.host.clock + 1 } }

def value [Zero D] (tid : Int) (s : Session (Random D)) : D × Session (Random D) :=
  match s.self.rands.lookup tid with
  | some v => (v, s)
  | none => (0, s.report "value" ("Could not random result for " ++ toString tid))

def stop [Zero D] (tid : Int) (s : Session (Random D)) : D × Session (Random D) :=
  let (result, s) := value tid s
  if s.context.isError then (0, s)
  else (result, { s with self := { s.self with rands := s.self.rands.erase tid } })

def clear (tid : Int) (s : Session (Random D)) : Session (Random D) :=
  if tid ∈ s.self.rands then { s with self := { s.self with rands := s.self.rands.erase tid } } else s

def getMonitoredTasks (m : Random D) : TidSet := .ofList m.rands.keys

def monitor [Zero D] (k : Kernel D) : PerformanceMonitor (Random D) D :=
  ⟨valtype, start k, value, stop, clear, getMonitoredTasks⟩

theorem start_quiet (k : Kernel D) (tid : Int) (s : Session (Random D)) : s.Quiet (start k tid s) :=
  .of_host rfl rfl

theorem clear_quiet (tid : Int) (s : Session (Random D)) : s.Quiet (clear tid s) := by
  unfold clear
  split <;> exact .of_host rfl rfl

end Random

/-! ## `Monitor::GPerf` -/

/-- `sensor` is reduced to the two fields the counters use. -/
structure GPerf (D : Type) where
  name : String := "gperf"
  valtype : Montype := .min
  processors : List Int := []
  sensorProcessors : List Int := []
  sensorScale : D
  threads : AList (fun _ : Int => List Int) := ∅

namespace GPerf

/-- `threads[thread]`, empty for a thread without an entry. -/
def fds (m : GPerf D) (thread : Int) : List Int := (m.threads.lookup thread).getD []

/-- One request on each descriptor, up to the first that fails. -/
def ioctlAll (k : Kernel D) (request : PerfRequest) : List Int → Host → Bool × Host
  | [], h => (true, h)
  | fd :: rest, h =>
    let (ret, h) := h.ioctl k fd request
    if ret = -1 then (false, h) else ioctlAll k request rest h

def append (thread fd : Int) (s : Session (GPerf D)) : Session (GPerf D) :=
  { s with self := { s.self with threads := s.self.threads.insert thread (s.self.fds thread ++ [fd]) } }

/-- The creation loop: thread-specific first, then system-wide, then give up. -/
def openAll (k : Kernel D) (thread : Int) : List Int → Session (GPerf D) → Bool × Session (GPerf D)
  | [], s => (true, s)
  | processor :: rest, s =>
    let (fd, h) := s.host.perfEventOpen k thread processor
    if 0 ≤ fd then openAll k thread rest (append thread fd { s with host := h })
    else
      let (fd, h) := h.perfEventOpen k (-1) processor
      if 0 ≤ fd then openAll k thread rest (append thread fd { s with host := h })
      else
        (false, { s with host := h }.report "create"
          (s.self.name ++ ".start(" ++ toString thread ++ ") failed: Could not create monitor (" ++
            k.strerror h.clock ++ ")."))

def failedStart (s : Session (GPerf D)) (thread : Int) (opt what : String) : Session (GPerf D) :=
  s.report opt (s.self.name ++ ".start(" ++ toString thread ++ ") failed: " ++ what)

def restart (k : Kernel D) (thread : Int) (s : Session (GPerf D)) : Session (GPerf D) :=
  let fds := s.self.fds thread
  let (ok, h) := ioctlAll k .disable fds s.host
  if !ok then failedStart { s with host := h } thread "reset" "Could not disable monitor."
  else
    let (ok, h) := ioctlAll k .reset fds h
    if !ok then failedStart { s with host := h } thread "reset" "Could not reset monitor."
    else
      let (ok, h) := ioctlAll k .enable fds h
      if !ok then failedStart { s with host := h } thread "reset" "Could not re-enable monitor."
      else { s with host := h }

/-- The processors to open counters on; never empty. -/
def targets (m : GPerf D) : List Int :=
  if m.processors ≠ [] then m.processors
  else if m.sensorProcessors ≠ [] then m.sensorProcessors
  else [-1]

def start (k : Kernel D) (thread : Int) (s : Session (GPerf D)) : Session (GPerf D) :=
  if thread ∈ s.self.threads then restart k thread s
  else
    let (ok, s) := openAll k thread s.self.targets s
    if !ok then s
    else
      let (ok, h) := ioctlAll k .enable (s.self.fds thread) s.host
      if !ok then failedStart { s with host := h } thread "start" "Could not enable monitor."
      else { s with host := h }

/-- The sum of the scaled counters, up to the first that cannot be read. -/
def readAll [Add D] [Mul D] [NatCast D] (k : Kernel D) (scale : D) : List Int → D → Host → Option D × Host
  | [], result, h => (some result, h)
  | fd :: rest, result, h =>
    match h.read k fd with
    | (none, h) => (none, h)
    | (some raw, h) => readAll k scale rest (result + (raw : D) * scale) h

def value [Zero D] [Add D] [Mul D] [NatCast D] (k : Kernel D) (thread : Int)
    (s : Session (GPerf D)) : D × Session (GPerf D) :=
  if thread ∈ s.self.threads then
    match readAll k s.self.sensorScale (s.self.fds thread) 0 s.host with
    | (some result, h) => (result, { s with host := h })
    | (none, h) => (0, { s with host := h }.report "value"
        (s.self.name ++ ".value(" ++ toString thread ++ ") failed: Could not read from monitor."))
  else
    (0, s.report "value"
      (s.self.name ++ ".value(" ++ toString thread ++ ") failed: Thread is not being monitored."))

def closeAll (k : Kernel D) : List Int → Host → Bool × Host
  | [], h => (true, h)
  | fd :: rest, h =>
    let (ret, h) := h.close k fd
    if ret = -1 then (false, h) else closeAll k rest h

def clear (k : Kernel D) (thread : Int) (s : Session (GPerf D)) : Session (GPerf D) :=
  if thread ∈ s.self.threads then
    let (ok, h) := closeAll k (s.self.fds thread) s.host
    if !ok then
      { s with host := h }.report "stop"
        (s.self.name ++ ".clear(" ++ toString thread ++ ") failed: Could not close a file descriptor (" ++
          k.strerror h.clock ++ ").")
    else { s with self := { s.self with threads := s.self.threads.erase thread }, host := h }
  else s

def stop [Zero D] [Add D] [Mul D] [NatCast D] (k : Kernel D) (thread : Int)
    (s : Session (GPerf D)) : D × Session (GPerf D) :=
  let (result, s) := value k thread s
  if s.context.isError then
    (0, s.report "stop" (s.self.name ++ ".stop(" ++ toString thread ++ ") failed: value() failed."))
  else
    let s := clear k thread s
    if s.context.isError then
      (0, s.report "stop" (s.self.name ++ ".stop(" ++ toString thread ++ ") failed: clear() failed."))
    else (result, s)

def getMonitoredTasks (m : GPerf D) : TidSet := .ofList m.threads.keys

def monitor [Zero D] [Add D] [Mul D] [NatCast D] (k : Kernel D) : PerformanceMonitor (GPerf D) D :=
  ⟨valtype, start k, value k, stop k, clear k, getMonitoredTasks⟩

theorem targets_ne_nil (m : GPerf D) : m.targets ≠ [] := by
  unfold targets
  split
  · assumption
  · split
    · assumption
    · simp

theorem ioctlAll_affinity (k : Kernel D) (request : PerfRequest) (fds : List Int) (h : Host) :
    (ioctlAll k request fds h).2.affinity = h.affinity := by
  induction fds generalizing h with
  | nil => rfl
  | cons fd rest ih =>
    simp only [ioctlAll]
    split
    · rfl
    · rw [ih, Host.ioctl_affinity]

theorem closeAll_affinity (k : Kernel D) (fds : List Int) (h : Host) :
    (closeAll k fds h).2.affinity = h.affinity := by
  induction fds generalizing h with
  | nil => rfl
  | cons fd rest ih =>
    simp only [closeAll]
    split
    · rfl
    · rw [ih, Host.close_affinity]

theorem closeAll_ok {k : Kernel D} (hclose : ∀ n fd, k.close n fd ≠ -1) (fds : List Int) (h : Host) :
    (closeAll k fds h).1 = true := by
  induction fds generalizing h with
  | nil => rfl
  | cons fd rest ih =>
    simp only [closeAll, Host.close, if_neg (hclose h.clock fd)]
    exact ih _

theorem openAll_quiet (k : Kernel D) (thread : Int) (processors : List Int) (s : Session (GPerf D)) :
    s.Quiet (openAll k thread processors s).2 := by
  induction processors generalizing s with
  | nil => exact .of_host rfl rfl
  | cons processor rest ih =>
    simp only [openAll]
    split
    · refine Session.Quiet.trans ?_ (ih _)
      exact .of_host rfl rfl
    · split
      · refine Session.Quiet.trans ?_ (ih _)
        exact .of_host rfl rfl
      · apply Session.Quiet.report
        exact .of_host rfl rfl

theorem restart_quiet (k : Kernel D) (thread : Int) (s : Session (GPerf D)) :
    s.Quiet (restart k thread s) := by
  have hd := ioctlAll_affinity k .disable (s.self.fds thread) s.host
  have hr := (ioctlAll_affinity k .reset (s.self.fds thread) _).trans hd
  have he := (ioctlAll_affinity k .enable (s.self.fds thread) _).trans hr
  simp only [restart, failedStart]
  split
  · apply Session.Quiet.report; exact .of_host hd rfl
  · split
    · apply Session.Quiet.report; exact .of_host hr rfl
    · split
      · apply Session.Quiet.report; exact .of_host he rfl
      · exact .of_host he rfl

theorem start_quiet (k : Kernel D) (thread : Int) (s : Session (GPerf D)) :
    s.Quiet (start k thread s) := by
  have ho := openAll_quiet k thread s.self.targets s
  simp only [start, failedStart]
  split
  · exact restart_quiet k thread s
  · split
    · exact ho
    · have he := ioctlAll_affinity k .enable
        ((openAll k thread s.self.targets s).2.self.fds thread) (openAll k thread s.self.targets s).2.host
      split
      · apply Session.Quiet.report
        exact ho.trans (.of_host he rfl)
      · exact ho.trans (.of_host he rfl)

theorem clear_quiet (k : Kernel D) (thread : Int) (s : Session (GPerf D)) :
    s.Quiet (clear k thread s) := by
  simp only [clear]
  split
  · have hc := closeAll_affinity k (s.self.fds thread) s.host
    split
    · apply Session.Quiet.report; exact .of_host hc rfl
    · exact .of_host hc rfl
  · exact .of_host rfl rfl

end GPerf

/-! ## `Monitor::ClustSafe` -/

/-- One instance; `address` is its key in `instanceValueMap`. -/
structure ClustSafe where
  name : String := "clustsafe"
  valtype : Montype := .min
  address : Nat
  threads : TidSet := .empty

namespace ClustSafe

def ttl : Int := 10

/-- The signed big-endian word number `outlet`; undefined outside the payload. -/
def word (payload : List UInt8) (outlet : Int) : Option Int :=
  if 0 ≤ outlet ∧ 4 * outlet + 4 ≤ payload.length then
    let bytes := (payload.drop (4 * outlet).toNat).take 4
    some (Int.bmod (bytes.foldl (fun w b => 256 * w + b.toNat) 0) (2 ^ 32))
  else none

/-- The outlet loop of `readValueFromDevice`, with the bounds check in `size_t`
and the sum in `uint64_t`. -/
def sumOutlets (payload : List UInt8) : List Int → Nat → Option (Except String Nat)
  | [], value => some (.ok value)
  | outlet :: rest, value =>
    if (outlet * 4 + 4) % 2 ^ 64 ≤ payload.length % 2 ^ 32 then
      (word payload outlet).bind fun w => sumOutlets payload rest ((value + w) % 2 ^ 64).toNat
    else some (.error ("No data received for outlet #" ++ toString outlet ++ "."))

def credit (value : Nat) (m : AList (fun _ : Nat => Nat)) : AList (fun _ : Nat => Nat) :=
  m.keys.foldl (fun acc i => acc.insert i (((m.lookup i).getD 0 + value) % 2 ^ 64)) m

/-- `none` is an access outside the payload; an exception leaves the map alone. -/
def readValueFromDevice (k : Kernel D) (reset : Bool) (h : Host) : Option (Except String Unit × Host) :=
  let (ms, h) := h.elapsed k
  let timeElapsed := Int.bmod ms (2 ^ 32)
  if reset || (0 < timeElapsed && ttl < timeElapsed) then
    match h.sendCommand k with
    | (.error what, h) => some (.error ("Could not read from the ClustSafe device (" ++ what ++ ")"), h)
    | (.ok payload, h) =>
      (sumOutlets payload h.clustSafe.outlets 0).map fun
        | .error what => (.error what, h)
        | .ok value => (.ok (), { h with clustSafe := { h.clustSafe with
            instanceValueMap := credit value h.clustSafe.instanceValueMap } })
  else some (.ok (), h)

def start (k : Kernel D) (thread : Int) (s : Session ClustSafe) : Option (Session ClustSafe) :=
  (readValueFromDevice k true s.host).map fun
    | (.error what, h) => { s with host := h }.report "start"
        (s.self.name ++ ".start(" ++ toString thread ++ ") failed: Could not reset the ClustSafe device (" ++
          what ++ ")")
    | (.ok _, h) =>
      { s with
        self := { s.self with threads := s.self.threads.insert thread },
        host := { h with clustSafe := { h.clustSafe with
          instanceValueMap := h.clustSafe.instanceValueMap.insert s.self.address 0, timerStarted := true } } }

/-- `instanceValueMap[instance]`: reading an absent entry creates it. -/
def touch (address : Nat) (h : Host) : Nat × Host :=
  match h.clustSafe.instanceValueMap.lookup address with
  | some v => (v, h)
  | none => (0, { h with clustSafe := { h.clustSafe with
      instanceValueMap := h.clustSafe.instanceValueMap.insert address 0 } })

def value [Zero D] [NatCast D] (k : Kernel D) (thread : Int) (s : Session ClustSafe) :
    Option (D × Session ClustSafe) :=
  if thread ∈ s.self.threads then
    (readValueFromDevice k false s.host).map fun
      | (.error what, h) => (0, { s with host := h }.report "value" (s.self.name ++ what))
      | (.ok _, h) => (((touch s.self.address h).1 : D), { s with host := (touch s.self.address h).2 })
  else
    some (0, s.report "value"
      (s.self.name ++ ".value(" ++ toString thread ++ ") failed: Thread is not being monitored."))

def clear (thread : Int) (s : Session ClustSafe) : Session ClustSafe :=
  { s with self := { s.self with threads := s.self.threads.erase thread } }

def stop [Zero D] [NatCast D] (k : Kernel D) (thread : Int) (s : Session ClustSafe) :
    Option (D × Session ClustSafe) :=
  (readValueFromDevice k false s.host).map fun
    | (.error what, h) => (0, { s with host := h }.report "stop"
        (s.self.name ++ ".stop(" ++ toString thread ++ ") failed: value() failed: " ++ what))
    | (.ok _, h) =>
      let (result, h) := touch s.self.address h
      let s := clear thread { s with host := { h with clustSafe := { h.clustSafe with
        instanceValueMap := h.clustSafe.instanceValueMap.erase s.self.address } } }
      if s.context.isError then
        (0, s.report "stop" (s.self.name ++ ".stop(" ++ toString thread ++ ") failed: clear() failed."))
      else ((result : D), s)

def getMonitoredTasks (m : ClustSafe) : TidSet := m.threads

theorem readValueFromDevice_affinity {k : Kernel D} {reset : Bool} {h : Host}
    {r : Except String Unit × Host} (hr : readValueFromDevice k reset h = some r) :
    r.2.affinity = h.affinity := by
  simp only [readValueFromDevice] at hr
  split at hr
  · cases hc : (h.elapsed k).2.sendCommand k with
    | mk result h' =>
      have ha : h'.affinity = h.affinity := by
        have := congrArg (fun p => p.2.affinity) hc
        simpa using this.symm
      rw [hc] at hr
      cases result with
      | error what =>
        simp only [Option.some.injEq] at hr
        exact hr ▸ ha
      | ok payload =>
        obtain ⟨sum, _, rfl⟩ := Option.map_eq_some_iff.mp hr
        cases sum with
        | error what => exact ha
        | ok value => exact ha
  · simp only [Option.some.injEq] at hr
    rw [← hr]
    rfl

theorem start_quiet {k : Kernel D} {thread : Int} {s s' : Session ClustSafe}
    (h : start k thread s = some s') : s.Quiet s' := by
  obtain ⟨⟨result, host⟩, hr, rfl⟩ := Option.map_eq_some_iff.mp h
  have ha := readValueFromDevice_affinity hr
  cases result with
  | error what => apply Session.Quiet.report; exact .of_host ha rfl
  | ok _ => exact .of_host ha rfl

theorem clear_quiet (thread : Int) (s : Session ClustSafe) : s.Quiet (clear thread s) :=
  .of_host rfl rfl

/-- A call that reads outside the payload has no meaning; it stands here for no call. -/
def monitor [Zero D] [NatCast D] (k : Kernel D) : PerformanceMonitor ClustSafe D where
  getValType := valtype
  start thread s := (start k thread s).getD s
  value thread s := (value k thread s).getD (0, s)
  stop thread s := (stop k thread s).getD (0, s)
  clear := clear
  getMonitoredTasks := getMonitoredTasks

end ClustSafe

/-! ## `Monitor::PageMigrate` -/

/-- The members of `sampling_settings` that the monitor writes or reads. `runningAccum` is entry 2
of the array, if there is one. -/
structure SamplingSettings where
  pidUo : Int := 0
  llSamplingPeriod : Int := 0
  llWeightThreshold : Int := 0
  measureTime : Int := 0
  endRecording : Bool := false
  nCores : Int := 0
  numberPfSamples : Int := 0
  runningAccum : Option Int := none

/-- After `init`, which sets `st.pid_uo` to -1. -/
structure PageMigrate (D : Type) where
  valtype : Montype := .max
  period : Int := 100
  minWeight : Int := 50
  sensingTime : Int := 30
  monitoredPid : Int := 0
  st : SamplingSettings := { pidUo := -1 }
  rands : AList (fun _ : Int => D) := ∅

namespace PageMigrate

/-- `init_spm` starts the sampling, once for all tasks. -/
def start (initSpm : SamplingSettings → SamplingSettings) (_tid : Int) (s : Session (PageMigrate D)) :
    Session (PageMigrate D) :=
  if s.self.st.pidUo ≠ -1 then s
  else
    { s with
      self := { s.self with
        st := initSpm {
          llSamplingPeriod := s.self.period
          llWeightThreshold := s.self.minWeight
          measureTime := s.self.sensingTime
          pidUo := s.self.monitoredPid } } }

def value [Zero D] [Div D] [IntCast D] (_tid : Int) (s : Session (PageMigrate D)) :
    D × Session (PageMigrate D) :=
  let st := s.self.st
  match st.runningAccum with
  | none => (0, s)
  | some accum =>
    if st.numberPfSamples = 0 ∨ accum = 0 then (0, s)
    -- the source multiplies with the negated number of samples
    else ((accum : D) / ((st.nCores * (if st.numberPfSamples = 0 then 1 else 0) : Int) : D), s)

def stop [Zero D] (_tid : Int) (s : Session (PageMigrate D)) : D × Session (PageMigrate D) :=
  (0, { s with self := { s.self with st := { s.self.st with endRecording := true } } })

def clear (tid : Int) (s : Session (PageMigrate D)) : Session (PageMigrate D) :=
  if tid ∈ s.self.rands then { s with self := { s.self with rands := s.self.rands.erase tid } } else s

def getMonitoredTasks (_ : PageMigrate D) : TidSet := .empty

def monitor [Zero D] [Div D] [IntCast D] (initSpm : SamplingSettings → SamplingSettings) :
    PerformanceMonitor (PageMigrate D) D :=
  ⟨valtype, start initSpm, value, stop, clear, getMonitoredTasks⟩

end PageMigrate

/-! ## Any of them -/

inductive Monitor (D : Type) where
  | random (m : Random D)
  | gperf (m : GPerf D)
  | clustSafe (m : ClustSafe)

namespace Monitor

def start (k : Kernel D) (tid : Int) (s : Session (Monitor D)) : Option (Session (Monitor D)) :=
  match s.self with
  | .random m => some ((Random.start k tid { s with self := m }).map .random)
  | .gperf m => some ((GPerf.start k tid { s with self := m }).map .gperf)
  | .clustSafe m => (ClustSafe.start k tid { s with self := m }).map (·.map .clustSafe)

def clear (k : Kernel D) (tid : Int) (s : Session (Monitor D)) : Session (Monitor D) :=
  match s.self with
  | .random m => (Random.clear tid { s with self := m }).map .random
  | .gperf m => (GPerf.clear k tid { s with self := m }).map .gperf
  | .clustSafe m => (ClustSafe.clear tid { s with self := m }).map .clustSafe

def getMonitoredTasks : Monitor D → TidSet
  | .random m => m.getMonitoredTasks
  | .gperf m => m.getMonitoredTasks
  | .clustSafe m => m.getMonitoredTasks

theorem start_quiet {k : Kernel D} {tid : Int} {s s' : Session (Monitor D)}
    (h : start k tid s = some s') : s.Quiet s' := by
  obtain ⟨self, context, host⟩ := s
  cases self with
  | random m =>
    cases h
    have := Random.start_quiet k tid ⟨m, context, host⟩
    exact ⟨this.affinity, this.errors⟩
  | gperf m =>
    cases h
    have := GPerf.start_quiet k tid ⟨m, context, host⟩
    exact ⟨this.affinity, this.errors⟩
  | clustSafe m =>
    obtain ⟨t, ht, rfl⟩ := Option.map_eq_some_iff.mp h
    have := ClustSafe.start_quiet ht
    exact ⟨this.affinity, this.errors⟩

theorem clear_quiet (k : Kernel D) (tid : Int) (s : Session (Monitor D)) :
    s.Quiet (clear k tid s) := by
  obtain ⟨self, context, host⟩ := s
  cases self with
  | random m =>
    have := Random.clear_quiet tid (⟨m, context, host⟩ : Session (Random D))
    exact ⟨this.affinity, this.errors⟩
  | gperf m =>
    have := GPerf.clear_quiet k tid ⟨m, context, host⟩
    exact ⟨this.affinity, this.errors⟩
  | clustSafe m =>
    have := ClustSafe.clear_quiet tid ⟨m, context, host⟩
    exact ⟨this.affinity, this.errors⟩

end Monitor

end AutopinPlus
