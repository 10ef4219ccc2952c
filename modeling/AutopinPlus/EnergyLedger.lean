import Mathlib.Algebra.GroupWithZero.Nat
import AutopinPlus.PartialStep
import AutopinPlus.PerformanceMonitor

/-!
# Energy accounting of the ClustSafe monitors

The device resets its counter with every read, so a read is credited to all running
instances, whichever of them made it. The log beside the state keeps the reads, and
the starts and stops that succeeded.
-/
namespace AutopinPlus

open PartialStep

variable {D ι : Type}

inductive LedgerEntry (ι : Type) where
  | read (value : Nat)
  | started (i : ι)
  | stopped (i : ι)
  deriving DecidableEq, Repr

section

variable [DecidableEq ι]

/-- The reads since the last start of `i`, if it has not been stopped since. -/
def readings (i : ι) (log : List (LedgerEntry ι)) : Option (List Nat) :=
  log.foldl (fun vs e =>
    match e with
    | .read v => vs.map (· ++ [v])
    | .started j => if j = i then some [] else vs
    | .stopped j => if j = i then none else vs) none

variable (i j : ι) (log : List (LedgerEntry ι))

@[simp] theorem readings_nil : readings i ([] : List (LedgerEntry ι)) = none := rfl

@[simp] theorem readings_read (v : Nat) :
    readings i (log ++ [.read v]) = (readings i log).map (· ++ [v]) := by
  simp [readings]

@[simp] theorem readings_started :
    readings i (log ++ [.started j]) = if j = i then some [] else readings i log := by
  simp [readings]

@[simp] theorem readings_stopped :
    readings i (log ++ [.stopped j]) = if j = i then none else readings i log := by
  simp [readings]

end

namespace ClustSafe

/-! ## One read of the device -/

/-- The device is asked: a reset, or the cached value is too old. -/
def asks (k : Kernel D) (reset : Bool) (h : Host) : Bool :=
  let timeElapsed := Int.bmod (k.elapsed h.clock) (2 ^ 32)
  reset || (0 < timeElapsed && ttl < timeElapsed)

/-- What `readValueFromDevice` gets from the device: nothing while the cached value is young
enough, otherwise the sum over the outlets or an exception. `none` is an access outside the
payload. -/
def deviceRead (k : Kernel D) (reset : Bool) (h : Host) : Option (Option (Except String Nat)) :=
  if asks k reset h then
    match k.sendCommand (h.clock + 1) with
    | .error what => some (some (.error ("Could not read from the ClustSafe device (" ++ what ++ ")")))
    | .ok payload => (sumOutlets payload h.clustSafe.outlets 0).map some
  else some none

/-- The value that was read, if the device was asked and has answered. -/
def fresh (k : Kernel D) (reset : Bool) (h : Host) : List Nat :=
  match deviceRead k reset h with
  | some (some (.ok v)) => [v]
  | _ => []

/-- A lookup sees the credit exactly where there is an entry. -/
theorem lookup_credit (v : Nat) (m : AList (fun _ : Nat => Nat)) (i : Nat) :
    (credit v m).lookup i = (m.lookup i).map (fun x => (x + v) % 2 ^ 64) := by
  have hfold : ∀ (keys : List Nat) (acc : AList (fun _ : Nat => Nat)),
      (keys.foldl (fun acc i => acc.insert i (((m.lookup i).getD 0 + v) % 2 ^ 64)) acc).lookup i =
        if i ∈ keys then some (((m.lookup i).getD 0 + v) % 2 ^ 64) else acc.lookup i := by
    intro keys
    induction keys with
    | nil => simp
    | cons key keys ih =>
      intro acc
      rw [List.foldl_cons, ih]
      by_cases hkey : i = key
      · subst hkey
        simp
      · simp [hkey, AList.lookup_insert_ne hkey]
  rw [credit, hfold]
  cases hm : m.lookup i with
  | none =>
    have hnot : i ∉ m.keys := by
      rw [← AList.mem_keys, ← AList.lookup_isSome, hm]
      simp
    simp [hnot]
  | some x =>
    have hmem : i ∈ m.keys := by
      rw [← AList.mem_keys, ← AList.lookup_isSome, hm]
      rfl
    simp [hmem]

/-- The three ways a read can go. -/
inductive ReadCase (k : Kernel D) (reset : Bool) (h : Host) (r : Except String Unit) (h' : Host) : Prop where
  | cached (device : deviceRead k reset h = some none) (result : r = .ok ())
      (map : h'.clustSafe.instanceValueMap = h.clustSafe.instanceValueMap)
  | failed (what : String) (device : deviceRead k reset h = some (some (.error what)))
      (result : r = .error what) (map : h'.clustSafe.instanceValueMap = h.clustSafe.instanceValueMap)
  | credited (v : Nat) (device : deviceRead k reset h = some (some (.ok v))) (result : r = .ok ())
      (map : h'.clustSafe.instanceValueMap = credit v h.clustSafe.instanceValueMap)

/-- A read does with the answer of the device what its kind asks for. -/
theorem readValueFromDevice_eq (k : Kernel D) (reset : Bool) (h : Host) :
    readValueFromDevice k reset h = (deviceRead k reset h).map fun
      | none => (.ok (), (h.elapsed k).2)
      | some (.error what) => (.error what, ((h.elapsed k).2.sendCommand k).2)
      | some (.ok v) =>
        let h' := ((h.elapsed k).2.sendCommand k).2
        (.ok (), { h' with clustSafe := { h'.clustSafe with
          instanceValueMap := credit v h'.clustSafe.instanceValueMap } }) := by
  unfold readValueFromDevice deviceRead
  change (if asks k reset h then _ else _) = _
  split
  · dsimp only [Host.elapsed, Host.sendCommand]
    cases k.sendCommand (h.clock + 1) with
    | error what => rfl
    | ok payload =>
      dsimp only
      rw [Option.map_map]
      congr 1
      funext sum
      cases sum with
      | error what => rfl
      | ok v => rfl
  · rfl

theorem readValueFromDevice_cases {k : Kernel D} {reset : Bool} {h h' : Host} {r : Except String Unit}
    (hr : readValueFromDevice k reset h = some (r, h')) : ReadCase k reset h r h' := by
  rw [readValueFromDevice_eq] at hr
  obtain ⟨answer, hd, hr⟩ := Option.map_eq_some_iff.mp hr
  match answer with
  | none =>
    cases hr
    exact .cached hd rfl rfl
  | some (.error what) =>
    cases hr
    exact .failed what hd rfl rfl
  | some (.ok v) =>
    cases hr
    exact .credited v hd rfl rfl

/-! ## The static functions -/

def startStatic (k : Kernel D) (instance_ : Nat) (h : Host) : Option (Except String Unit × Host) :=
  (readValueFromDevice k true h).map fun
    | (.error what, h) => (.error what, h)
    | (.ok _, h) => (.ok (), { h with clustSafe := { h.clustSafe with
        instanceValueMap := h.clustSafe.instanceValueMap.insert instance_ 0, timerStarted := true } })

def valueStatic (k : Kernel D) (instance_ : Nat) (h : Host) : Option (Except String Nat × Host) :=
  (readValueFromDevice k false h).map fun
    | (.error what, h) => (.error what, h)
    | (.ok _, h) => (.ok (touch instance_ h).1, (touch instance_ h).2)

def stopStatic (k : Kernel D) (instance_ : Nat) (h : Host) : Option (Except String Nat × Host) :=
  (readValueFromDevice k false h).map fun
    | (.error what, h) => (.error what, h)
    | (.ok _, h) =>
      let (result, h) := touch instance_ h
      (.ok result, { h with clustSafe := { h.clustSafe with
        instanceValueMap := h.clustSafe.instanceValueMap.erase instance_ } })

/-- `start` is `startStatic` for its instance, then the thread is entered. -/
theorem start_eq_startStatic (k : Kernel D) (thread : Int) (s : Session ClustSafe) :
    start k thread s = (startStatic k s.self.address s.host).map fun
      | (.error what, h) => { s with host := h }.report "start"
          (s.self.name ++ ".start(" ++ toString thread ++
            ") failed: Could not reset the ClustSafe device (" ++ what ++ ")")
      | (.ok _, h) =>
        { s with self := { s.self with threads := s.self.threads.insert thread }, host := h } := by
  rw [start, startStatic, Option.map_map]
  congr 1
  funext r
  rcases r with ⟨_ | _, _⟩ <;> rfl

theorem value_eq_valueStatic [Zero D] [NatCast D] (k : Kernel D) (thread : Int) (s : Session ClustSafe)
    (hthread : thread ∈ s.self.threads) :
    value k thread s = (valueStatic k s.self.address s.host).map fun
      | (.error what, h) => ((0 : D), { s with host := h }.report "value" (s.self.name ++ what))
      | (.ok v, h) => ((v : D), { s with host := h }) := by
  rw [value, if_pos hthread, valueStatic, Option.map_map]
  congr 1
  funext r
  rcases r with ⟨_ | _, _⟩ <;> rfl

theorem stop_eq_stopStatic [Zero D] [NatCast D] (k : Kernel D) (thread : Int) (s : Session ClustSafe) :
    stop k thread s = (stopStatic k s.self.address s.host).map fun
      | (.error what, h) => ((0 : D), { s with host := h }.report "stop"
          (s.self.name ++ ".stop(" ++ toString thread ++ ") failed: value() failed: " ++ what))
      | (.ok v, h) =>
        let s := clear thread { s with host := h }
        if s.context.isError then
          (0, s.report "stop" (s.self.name ++ ".stop(" ++ toString thread ++ ") failed: clear() failed."))
        else ((v : D), s) := by
  rw [stop, stopStatic, Option.map_map]
  congr 1
  funext r
  rcases r with ⟨_ | _, _⟩ <;> rfl

/-! ## The ledger of all instances -/

/-- Every running instance has the energy read since its start. -/
def Balanced (m : AList (fun _ : Nat => Nat)) (log : List (LedgerEntry Nat)) : Prop :=
  ∀ i vs, readings i log = some vs → m.lookup i = some (vs.sum % 2 ^ 64)

/-- The log entries of a read. -/
def entries (k : Kernel D) (reset : Bool) (h : Host) : List (LedgerEntry ι) :=
  (fresh k reset h).map .read

theorem readings_entries [DecidableEq ι] (k : Kernel D) (reset : Bool) (h : Host) (i : ι)
    (log : List (LedgerEntry ι)) :
    readings i (log ++ entries k reset h) = (readings i log).map (· ++ fresh k reset h) := by
  unfold entries fresh
  split <;> simp

/-- A read adds what it got to an entry that is there. -/
theorem ReadCase.lookup {k : Kernel D} {reset : Bool} {h h' : Host} {r : Except String Unit} {i : Nat}
    {vs : List Nat} (hc : ReadCase k reset h r h')
    (hl : h.clustSafe.instanceValueMap.lookup i = some (vs.sum % 2 ^ 64)) :
    h'.clustSafe.instanceValueMap.lookup i = some ((vs ++ fresh k reset h).sum % 2 ^ 64) := by
  cases hc with
  | cached hd _ hmap => simp [fresh, hd, hmap, hl]
  | failed what hd _ hmap => simp [fresh, hd, hmap, hl]
  | credited v hd _ hmap => simp [fresh, hd, hmap, lookup_credit, hl]

section

variable {m : AList (fun _ : Nat => Nat)} {log : List (LedgerEntry Nat)}

theorem Balanced.read {k : Kernel D} {reset : Bool} {h h' : Host} {r : Except String Unit}
    (hb : Balanced h.clustSafe.instanceValueMap log) (hc : ReadCase k reset h r h') :
    Balanced h'.clustSafe.instanceValueMap (log ++ entries k reset h) := by
  intro i vs hvs
  rw [readings_entries] at hvs
  obtain ⟨us, hus, rfl⟩ := Option.map_eq_some_iff.mp hvs
  exact hc.lookup (hb i us hus)

theorem Balanced.started (hb : Balanced m log) (i : Nat) :
    Balanced (m.insert i 0) (log ++ [.started i]) := by
  intro j vs hvs
  rw [readings_started] at hvs
  split at hvs
  · rename_i hij
    subst hij
    cases hvs
    simp
  · rename_i hij
    rw [AList.lookup_insert_ne (Ne.symm hij)]
    exact hb j vs hvs

theorem Balanced.stopped (hb : Balanced m log) (i : Nat) :
    Balanced (m.erase i) (log ++ [.stopped i]) := by
  intro j vs hvs
  rw [readings_stopped] at hvs
  split at hvs
  · cases hvs
  · rename_i hij
    rw [AList.lookup_erase_ne (Ne.symm hij)]
    exact hb j vs hvs

/-- Reading an absent entry creates one for an instance that is not running. -/
theorem Balanced.touched {h : Host} (hb : Balanced h.clustSafe.instanceValueMap log) (i : Nat) :
    Balanced (touch i h).2.clustSafe.instanceValueMap log := by
  unfold touch
  split
  · exact hb
  · rename_i hnone
    intro j vs hvs
    have hij : j ≠ i := by
      rintro rfl
      simp [hb j vs hvs] at hnone
    rw [AList.lookup_insert_ne hij]
    exact hb j vs hvs

end

inductive StaticCall where
  | start (i : Nat)
  | value (i : Nat)
  | stop (i : Nat)
  deriving DecidableEq, Repr

/-- Only `start_static` insists on a new value. -/
def StaticCall.reset : StaticCall → Bool
  | .start _ => true
  | .value _ => false
  | .stop _ => false

structure Ledger where
  host : Host
  log : List (LedgerEntry Nat) := []

/-- A call of a static function, by any instance. -/
def Ledger.step (k : Kernel D) (s : Ledger) : StaticCall → Option Ledger
  | .start i => (startStatic k i s.host).map fun
      | (.error _, h) => { host := h, log := s.log ++ entries k true s.host }
      | (.ok _, h) => { host := h, log := s.log ++ entries k true s.host ++ [.started i] }
  | .value i => (valueStatic k i s.host).map fun
      | (_, h) => { host := h, log := s.log ++ entries k false s.host }
  | .stop i => (stopStatic k i s.host).map fun
      | (.error _, h) => { host := h, log := s.log ++ entries k false s.host }
      | (.ok _, h) => { host := h, log := s.log ++ entries k false s.host ++ [.stopped i] }

/-- What a call does once its read has succeeded. -/
def StaticCall.finish (h : Host) (log : List (LedgerEntry Nat)) : StaticCall → Ledger
  | .start i =>
    { host := { h with clustSafe := { h.clustSafe with
        instanceValueMap := h.clustSafe.instanceValueMap.insert i 0, timerStarted := true } },
      log := log ++ [.started i] }
  | .value i => { host := (touch i h).2, log := log }
  | .stop i =>
    let h := (touch i h).2
    { host := { h with clustSafe := { h.clustSafe with
        instanceValueMap := h.clustSafe.instanceValueMap.erase i } },
      log := log ++ [.stopped i] }

variable {k : Kernel D} {s t : Ledger} {call : StaticCall}

theorem step_eq (k : Kernel D) (s : Ledger) (call : StaticCall) :
    s.step k call = (readValueFromDevice k call.reset s.host).map fun
      | (.error _, h) => { host := h, log := s.log ++ entries k call.reset s.host }
      | (.ok _, h) => call.finish h (s.log ++ entries k call.reset s.host) := by
  cases call with
  | start i | value i | stop i =>
    simp only [Ledger.step, startStatic, valueStatic, stopStatic, Option.map_map]
    congr 1
    funext r
    rcases r with ⟨_ | _, _⟩ <;> rfl

/-- A call reads first, and an exception from the read ends it. -/
theorem step_read (h : s.step k call = some t) :
    ∃ r h', readValueFromDevice k call.reset s.host = some (r, h') ∧
      (∀ what, r = .error what → t = ⟨h', s.log ++ entries k call.reset s.host⟩) ∧
      (r = .ok () → t = call.finish h' (s.log ++ entries k call.reset s.host)) := by
  rw [step_eq] at h
  obtain ⟨⟨r, h'⟩, hread, rfl⟩ := Option.map_eq_some_iff.mp h
  refine ⟨r, h', hread, ?_, ?_⟩
  · rintro what rfl
    rfl
  · rintro rfl
    rfl

theorem finish_balanced {h : Host} {log : List (LedgerEntry Nat)} (hb : Balanced h.clustSafe.instanceValueMap log)
    (call : StaticCall) :
    Balanced (call.finish h log).host.clustSafe.instanceValueMap (call.finish h log).log := by
  cases call with
  | start i => exact hb.started i
  | value i => exact hb.touched i
  | stop i => exact (hb.touched i).stopped i

theorem step_balanced (hs : Balanced s.host.clustSafe.instanceValueMap s.log) (h : s.step k call = some t) :
    Balanced t.host.clustSafe.instanceValueMap t.log := by
  obtain ⟨r, h', hread, hfail, hdone⟩ := step_read h
  have hb := hs.read (readValueFromDevice_cases hread)
  cases r with
  | error what =>
    rw [hfail what rfl]
    exact hb
  | ok _ =>
    rw [hdone rfl]
    exact finish_balanced hb call

/-- A read that fails leaves every entry alone. -/
theorem step_failed {what : String} (hd : deviceRead k call.reset s.host = some (some (.error what)))
    (h : s.step k call = some t) :
    t.host.clustSafe.instanceValueMap = s.host.clustSafe.instanceValueMap := by
  obtain ⟨r, h', hread, hfail, -⟩ := step_read h
  cases readValueFromDevice_cases hread with
  | cached hd' => simp [hd] at hd'
  | failed what' _ hr hmap =>
    rw [hfail what' hr]
    exact hmap
  | credited v hd' => simp [hd] at hd'

/-- In every run of the static functions, over any instances and whatever the device does, an
instance that was started and not stopped since has an entry, and it is the sum of all values
read since its start, by whichever instance, modulo `2 ^ 64`. A read that fails changes no
entry. -/
theorem energy_accounted (k : Kernel D) (h : Host) (calls : List StaticCall) (s : Ledger)
    (hrun : run (Ledger.step k) ⟨h, []⟩ calls = some s) :
    (∀ i vs, readings i s.log = some vs →
      s.host.clustSafe.instanceValueMap.lookup i = some (vs.sum % 2 ^ 64)) ∧
    ∀ call t what, s.step k call = some t → deviceRead k call.reset s.host = some (some (.error what)) →
      t.host.clustSafe.instanceValueMap = s.host.clustSafe.instanceValueMap := by
  refine ⟨?_, fun call t what hstep hd => step_failed hd hstep⟩
  exact run_invariant (fun s => Balanced s.host.clustSafe.instanceValueMap s.log)
    (fun s e t hs _ hstep => step_balanced hs hstep) (fun i vs hvs => by cases hvs)
    (admitted_true ..) hrun

/-- The device answers every command with outlet 1 at seven. -/
def sevens : Kernel Int :=
  { Kernel.succeeding with elapsed := fun _ => 20, sendCommand := fun _ => .ok [0, 0, 0, 0, 0, 0, 0, 7] }

/-- What the second instance reads is also credited to the first. -/
theorem sevens_accounted :
    ∃ s, run (Ledger.step sevens) ⟨{}, []⟩ [.start 0, .start 1, .value 1] = some s ∧
      s.host.clustSafe.instanceValueMap.lookup 0 = some 14 := by
  obtain ⟨s, hs⟩ : ∃ s, run (Ledger.step sevens) ⟨{}, []⟩ [.start 0, .start 1, .value 1] = some s := ⟨_, rfl⟩
  have hlog : (run (Ledger.step sevens) ⟨{}, []⟩ [.start 0, .start 1, .value 1]).map
      (fun s => readings 0 s.log) = some (some [7, 7]) := by decide +kernel
  rw [hs] at hlog
  exact ⟨s, hs, (energy_accounted sevens {} [.start 0, .start 1, .value 1] s hs).1 0 [7, 7]
    (Option.some.inj hlog)⟩

/-! ## The threads of one instance -/

inductive ThreadCall where
  | start (tid : Int)
  | value (tid : Int)
  | stop (tid : Int)
  | clear (tid : Int)
  deriving DecidableEq, Repr

/-- One monitor, with the log of a run in which no read fails. -/
structure Meter where
  session : Session ClustSafe
  log : List (LedgerEntry Int) := []

/-- `value` does not get to the device for a thread that is not monitored. -/
def Meter.step [Zero D] [NatCast D] (k : Kernel D) (s : Meter) : ThreadCall → Option Meter
  | .start tid => (start k tid s.session).map fun t =>
      ⟨t, s.log ++ entries k true s.session.host ++ [.started tid]⟩
  | .value tid => (value k tid s.session).map fun r =>
      ⟨r.2, s.log ++ if tid ∈ s.session.self.threads then entries k false s.session.host else []⟩
  | .stop tid => (stop k tid s.session).map fun r =>
      ⟨r.2, s.log ++ entries k false s.session.host ++ [.stopped tid]⟩
  | .clear tid => some ⟨clear tid s.session, s.log ++ [.stopped tid]⟩

/-- The read succeeds, from the cache or from the device. -/
def Answers (k : Kernel D) (reset : Bool) (h : Host) : Prop :=
  deviceRead k reset h = some none ∨ ∃ v, deviceRead k reset h = some (some (.ok v))

def ThreadCall.Answered (k : Kernel D) (s : Meter) : ThreadCall → Prop
  | .start _ => Answers k true s.session.host
  | .value _ => Answers k false s.session.host
  | .stop _ => Answers k false s.session.host
  | .clear _ => True

/-- A thread is started or stopped while no other one is monitored, and only the value of a
monitored thread is asked for. -/
def ThreadCall.Alone (s : Meter) : ThreadCall → Prop
  | .start tid => ∀ y ∈ s.session.self.threads, y = tid
  | .value tid => tid ∈ s.session.self.threads
  | .stop tid => ∀ y ∈ s.session.self.threads, y = tid
  | .clear _ => True

/-- What holds between the calls: the monitored threads are those with readings, there is at
most one, and the entry of the instance is its sum. -/
structure Metered (s : Meter) : Prop where
  noError : s.session.context.isError = false
  threads : ∀ tid, tid ∈ s.session.self.threads ↔ (readings tid s.log).isSome
  single : ∀ x ∈ s.session.self.threads, ∀ y ∈ s.session.self.threads, x = y
  entry : ∀ tid vs, readings tid s.log = some vs →
    s.session.host.clustSafe.instanceValueMap.lookup s.session.self.address = some (vs.sum % 2 ^ 64)

theorem touch_eq {i v : Nat} {h : Host} (hl : h.clustSafe.instanceValueMap.lookup i = some v) :
    touch i h = (v, h) := by
  rw [touch, hl]

theorem Answers.reads {k : Kernel D} {reset : Bool} {h : Host} (ha : Answers k reset h) :
    ∃ h', readValueFromDevice k reset h = some (.ok (), h') := by
  rw [readValueFromDevice_eq]
  rcases ha with hd | ⟨v, hd⟩
  · rw [hd]
    exact ⟨_, rfl⟩
  · rw [hd]
    exact ⟨_, rfl⟩

section

variable {k : Kernel D} {m : Session ClustSafe} {tid : Int} {vs : List Nat}

theorem start_spec (tid : Int) (ha : Answers k true m.host) :
    ∃ m', start k tid m = some m' ∧ m'.context = m.context ∧
      m'.self.threads = m.self.threads.insert tid ∧
      m'.host.clustSafe.instanceValueMap.lookup m'.self.address = some 0 := by
  obtain ⟨h', hread⟩ := ha.reads
  rw [start, hread]
  exact ⟨_, rfl, rfl, rfl, AList.lookup_insert _⟩

variable [Zero D] [NatCast D]

theorem value_spec (ha : Answers k false m.host) (hthread : tid ∈ m.self.threads)
    (hl : m.host.clustSafe.instanceValueMap.lookup m.self.address = some (vs.sum % 2 ^ 64)) :
    ∃ m', value k tid m = some ((((vs ++ fresh k false m.host).sum % 2 ^ 64 : Nat) : D), m') ∧
      m'.context = m.context ∧ m'.self = m.self ∧
      m'.host.clustSafe.instanceValueMap.lookup m.self.address =
        some ((vs ++ fresh k false m.host).sum % 2 ^ 64) := by
  obtain ⟨h', hread⟩ := ha.reads
  have hl' := (readValueFromDevice_cases hread).lookup hl
  refine ⟨{ m with host := h' }, ?_, rfl, rfl, hl'⟩
  simp only [value, if_pos hthread, hread, Option.map_some, touch_eq hl']

/-- Whatever `stop` returns, it leaves the context alone where that is not in error. -/
theorem stop_frame (tid : Int) (ha : Answers k false m.host) (hc : m.context.isError = false) :
    ∃ (r : D) (m' : Session ClustSafe), stop k tid m = some (r, m') ∧ m'.context = m.context ∧
      m'.self.threads = m.self.threads.erase tid := by
  obtain ⟨h', hread⟩ := ha.reads
  simp only [stop, hread, Option.map_some, clear, hc, Bool.false_eq_true, if_false]
  exact ⟨_, _, rfl, rfl, rfl⟩

theorem stop_value (ha : Answers k false m.host) (hc : m.context.isError = false)
    (hl : m.host.clustSafe.instanceValueMap.lookup m.self.address = some (vs.sum % 2 ^ 64)) :
    ∃ m', stop k tid m = some ((((vs ++ fresh k false m.host).sum % 2 ^ 64 : Nat) : D), m') := by
  obtain ⟨h', hread⟩ := ha.reads
  have hl' := (readValueFromDevice_cases hread).lookup hl
  simp only [stop, hread, Option.map_some, touch_eq hl', clear, hc, Bool.false_eq_true, if_false]
  exact ⟨_, rfl⟩

theorem Metered.started {s : Meter} (hs : Metered s) (ha : Answers k true s.session.host)
    (halone : ∀ y ∈ s.session.self.threads, y = tid) {t : Meter} (h : s.step k (.start tid) = some t) :
    Metered t := by
  obtain ⟨m', hm, hcontext, hself, hlookup⟩ := start_spec tid ha
  rw [Meter.step, hm] at h
  cases h
  have hothers : ∀ y, y ≠ tid → readings y s.log = none := by
    intro y hy
    by_contra hne
    exact hy (halone y ((hs.threads y).mpr (Option.isSome_iff_ne_none.mpr hne)))
  refine ⟨by rw [hcontext]; exact hs.noError, ?_, ?_, ?_⟩
  · intro y
    rw [hself, readings_started, SortedSet.mem_insert]
    by_cases hy : y = tid
    · simp [hy]
    · simp [hy, Ne.symm hy, readings_entries, hothers y hy, hs.threads y]
  · intro x hx y hy
    rw [hself, SortedSet.mem_insert] at hx hy
    have hx' : x = tid := hx.elim id (halone x)
    have hy' : y = tid := hy.elim id (halone y)
    exact hx'.trans hy'.symm
  · intro y vs hvs
    rw [readings_started] at hvs
    by_cases hy : y = tid
    · rw [if_pos hy.symm] at hvs
      cases hvs
      exact hlookup
    · simp [Ne.symm hy, readings_entries, hothers y hy] at hvs

theorem Metered.valued {s : Meter} (hs : Metered s) (ha : Answers k false s.session.host)
    (hmem : tid ∈ s.session.self.threads) {t : Meter} (h : s.step k (.value tid) = some t) : Metered t := by
  obtain ⟨vs, hvs⟩ := Option.isSome_iff_exists.mp ((hs.threads tid).mp hmem)
  obtain ⟨m', hm, hcontext, hself, hlookup⟩ := value_spec ha hmem (hs.entry tid vs hvs)
  rw [Meter.step, hm] at h
  cases h
  refine ⟨by rw [hcontext]; exact hs.noError, ?_, by rw [hself]; exact hs.single, ?_⟩
  · intro y
    rw [hself, if_pos hmem, readings_entries, Option.isSome_map]
    exact hs.threads y
  · intro y us hus
    rw [if_pos hmem, readings_entries] at hus
    obtain ⟨ws, hws, rfl⟩ := Option.map_eq_some_iff.mp hus
    -- the thread that was asked about is the only one
    obtain rfl : tid = y := hs.single tid hmem y ((hs.threads y).mpr (by rw [hws]; rfl))
    rw [hvs] at hws
    cases hws
    rw [hself]
    exact hlookup

theorem Metered.stopped {s : Meter} (hs : Metered s) (ha : Answers k false s.session.host)
    (halone : ∀ y ∈ s.session.self.threads, y = tid) {t : Meter} (h : s.step k (.stop tid) = some t) :
    Metered t := by
  obtain ⟨r, m', hm, hcontext, hself⟩ := stop_frame tid ha hs.noError
  rw [Meter.step, hm] at h
  cases h
  have hempty : ∀ y, y ∉ m'.self.threads := by
    intro y hy
    rw [hself, SortedSet.mem_erase] at hy
    exact hy.2 (halone y hy.1)
  have hnone : ∀ y, readings y (s.log ++ entries k false s.session.host ++ [.stopped tid]) = none := by
    intro y
    rw [readings_stopped]
    split
    · rfl
    · rename_i hy
      have hout : y ∉ s.session.self.threads := fun hmem => hy (halone y hmem).symm
      rw [readings_entries]
      simpa [hs.threads y] using hout
  refine ⟨by rw [hcontext]; exact hs.noError, ?_, ?_, ?_⟩
  · intro y
    rw [hnone y]
    simp [hempty y]
  · exact fun x hx => absurd hx (hempty x)
  · intro y vs hvs
    rw [hnone y] at hvs
    cases hvs

theorem Metered.cleared {s : Meter} (hs : Metered s) (tid : Int) :
    Metered ⟨clear tid s.session, s.log ++ [.stopped tid]⟩ := by
  refine ⟨hs.noError, ?_, ?_, ?_⟩
  · intro y
    rw [readings_stopped]
    by_cases hy : y = tid
    · subst hy
      simp [clear]
    · simp [clear, hy, Ne.symm hy, hs.threads y]
  · intro x hx y hy
    rw [clear, SortedSet.mem_erase] at hx hy
    exact hs.single x hx.1 y hy.1
  · intro y vs hvs
    rw [readings_stopped] at hvs
    split at hvs
    · cases hvs
    · exact hs.entry y vs hvs

/-- Each call that meets the condition keeps the invariant. -/
theorem step_metered {s t : Meter} {call : ThreadCall} (hs : Metered s) (ha : call.Answered k s)
    (hok : call.Alone s) (h : s.step k call = some t) : Metered t := by
  cases call with
  | start tid => exact hs.started ha hok h
  | value tid => exact hs.valued ha hok h
  | stop tid => exact hs.stopped ha hok h
  | clear tid =>
    cases h
    exact hs.cleared tid

/-- As long as threads are measured one at a time, each call gives the sum of the device
readings since the start of its thread, its own reading included: in every run in which every
read succeeds, a thread is started or stopped only while no other one is monitored, and `value`
is called only for a monitored thread. -/
theorem thread_sum (k : Kernel D) (m : Session ClustSafe) (calls : List ThreadCall) (s : Meter)
    (hm : m.self.threads = .empty) (hc : m.context.isError = false)
    (hok : Admitted (Meter.step k) (fun s call => call.Answered k s ∧ call.Alone s) ⟨m, []⟩ calls)
    (hrun : run (Meter.step k) ⟨m, []⟩ calls = some s) :
    ∀ tid vs, readings tid s.log = some vs → Answers k false s.session.host →
      (∃ m', value k tid s.session =
        some ((((vs ++ fresh k false s.session.host).sum % 2 ^ 64 : Nat) : D), m')) ∧
      ∃ m', stop k tid s.session =
        some ((((vs ++ fresh k false s.session.host).sum % 2 ^ 64 : Nat) : D), m') := by
  have hinit : Metered ⟨m, []⟩ := by
    refine ⟨hc, fun tid => by simp [hm], fun x hx => ?_, fun tid vs hvs => by cases hvs⟩
    rw [hm] at hx
    exact absurd hx (SortedSet.not_mem_empty x)
  have hs : Metered s := run_invariant Metered
    (fun s call t hs hok h => step_metered hs hok.1 hok.2 h) hinit hok hrun
  intro tid vs hvs ha
  have hl := hs.entry tid vs hvs
  have hmem : tid ∈ s.session.self.threads := (hs.threads tid).mpr (by rw [hvs]; rfl)
  obtain ⟨m', hvalue, -⟩ := value_spec ha hmem hl
  exact ⟨⟨m', hvalue⟩, stop_value ha hs.noError hl⟩

end

/-- A monitor that has not measured anything. -/
def idleMeter : Session ClustSafe := ⟨{ address := 0 }, {}, {}⟩

theorem sevens_answers (reset : Bool) {h : Host} (hout : h.clustSafe.outlets = [1]) :
    Answers sevens reset h := by
  have hsum : sumOutlets [0, 0, 0, 0, 0, 0, 0, 7] [1] 0 = some (.ok 7) := by decide +kernel
  unfold Answers deviceRead
  split
  · exact .inr ⟨7, by simp [hout, sevens, hsum]⟩
  · exact .inl rfl

/-- One thread alone gets its two readings. -/
theorem sevens_alone :
    ∃ s, run (Meter.step sevens) ⟨idleMeter, []⟩ [.start 1, .value 1] = some s ∧
      ∃ m', stop sevens 1 s.session = some (14, m') := by
  obtain ⟨s, hs⟩ : ∃ s, run (Meter.step sevens) ⟨idleMeter, []⟩ [.start 1, .value 1] = some s := ⟨_, rfl⟩
  have hstate : (run (Meter.step sevens) ⟨idleMeter, []⟩ [.start 1, .value 1]).map
      (fun s => (readings 1 s.log, fresh sevens false s.session.host, s.session.host.clustSafe.outlets)) =
        some (some [7], [7], [1]) := by decide +kernel
  rw [hs] at hstate
  obtain ⟨hlog, hfresh, hout⟩ : readings 1 s.log = some [7] ∧ fresh sevens false s.session.host = [7] ∧
      s.session.host.clustSafe.outlets = [1] := by simpa using hstate
  have hok : Admitted (Meter.step sevens) (fun s call => call.Answered sevens s ∧ call.Alone s)
      ⟨idleMeter, []⟩ [.start 1, .value 1] := by
    refine ⟨⟨sevens_answers _ rfl, by intro y hy; cases hy⟩, ?_⟩
    rintro _ ⟨⟩
    exact ⟨⟨sevens_answers _ rfl, (SortedSet.mem_insert 1 1 .empty).mpr (.inl rfl)⟩, fun _ _ => trivial⟩
  have h := (thread_sum sevens idleMeter [.start 1, .value 1] s rfl rfl hok hs 1 [7] hlog
    (sevens_answers _ hout)).2
  rw [hfresh] at h
  exact ⟨s, hs, h⟩

/-- Starting a second thread takes away what the first one had. -/
theorem sevens_shared :
    ∃ s, run (Meter.step sevens) ⟨idleMeter, []⟩ [.start 1, .start 2] = some s ∧
      Admitted (Meter.step sevens) (fun s call => call.Answered sevens s) ⟨idleMeter, []⟩ [.start 1, .start 2] ∧
      readings 1 s.log = some [7] ∧ fresh sevens false s.session.host = [7] ∧
      (value sevens 1 s.session).map Prod.fst = some 7 ∧ ([7] ++ [7] : List Nat).sum = 14 := by
  refine ⟨_, rfl, ?_, ?_, ?_, ?_, rfl⟩
  · refine ⟨sevens_answers _ rfl, ?_⟩
    rintro _ ⟨⟩
    exact ⟨sevens_answers _ rfl, fun _ _ => trivial⟩
  · decide +kernel
  · decide +kernel
  · decide +kernel

end ClustSafe

end AutopinPlus
