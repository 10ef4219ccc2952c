import AutopinPlus.Histogram
import AutopinPlus.PartialStep
import AutopinPlus.PerformanceMonitor

/-!
# The threads of the page migration

`start` of the monitor creates a thread that samples, and this one a thread that controls it. All of them and the
monitor share one `sampling_settings`: `end_recording` asks the threads to end, and `pid_uo` is -1 again once the
control thread is about to. A session is one such pair of threads; the latest session is listed first. The control
thread can always be created; only the start of the sampling may fail.
-/
namespace AutopinPlus

namespace Spm

/-- `DEFAULT_MEASURE_TIME` -/
def defaultMeasureTime : Int := 45

/-- What `init_spm` does to the settings that are modelled. -/
def initSpm (nCores : Nat) (st : SamplingSettings) : SamplingSettings :=
  { st with
    nCores := nCores
    llSamplingPeriod := if st.llSamplingPeriod < 3 then 500 else st.llSamplingPeriod
    llWeightThreshold := if st.llWeightThreshold < 3 then 3 else st.llWeightThreshold
    numberPfSamples := 0
    runningAccum := some 0 }

/-- How one second of `wait_watch_process` ends. -/
inductive Watch where
  | again (i : Int)
  | result (r : Int)
  deriving DecidableEq, Repr

/-- One round of the loop of `wait_watch_process`; `gone` tells that `kill` finds no process. -/
def waitWatchProcess (seconds i : Int) (gone endRecording : Bool) : Watch :=
  if gone then .result (-1)
  else if endRecording then .result (-1)
  else if seconds > 1 then if i + 1 < seconds then .again (i + 1) else .result 0
  else if seconds < 1 then .again i
  else .result 0

/-- Where `run_numa_sampling` stands. -/
inductive SamplingAt where
  | entered
  | starting
  | reading
  | joining
  | failed
  | returned
  deriving DecidableEq, Repr

/-- Where `control_spm` stands. `returned` begins with the statement that resets `pid_uo`: what is left is the flush of
the output, while which a new session can already be started. -/
inductive ControlAt where
  | absent
  | watching (i : Int)
  | migrating
  | waiting (i : Int)
  | ending
  | leaving
  | returned
  deriving DecidableEq, Repr

/-- The two threads of a start. -/
structure Threads where
  sampling : SamplingAt
  control : ControlAt
  deriving DecidableEq, Repr

end Spm

/-- The monitor, the threads, and the processes that are gone. -/
structure Spm (D : Type) where
  monitor : Session (PageMigrate D)
  sessions : List Spm.Threads := []
  gone : List Int := []

inductive SpmEvent where
  | start (tid : Int)
  | stop (tid : Int)
  | processEnds (pid : Int)
  | sampling (session : Nat) (started : Bool)
  | control (session : Nat)
  deriving DecidableEq, Repr

/-- The turns of the threads, as opposed to what the monitor and the process do. -/
def SpmEvent.own : SpmEvent → Bool
  | .sampling _ _ => true
  | .control _ => true
  | _ => false

namespace Spm

variable {D : Type}

/-- The settings that all threads share. -/
def st (s : Spm D) : SamplingSettings := s.monitor.self.st

def withSt (s : Spm D) (f : SamplingSettings → SamplingSettings) : Spm D :=
  { s with monitor := { s.monitor with self := { s.monitor.self with st := f s.monitor.self.st } } }

/-- One statement of `run_numa_sampling`, or one pass over the ring of a core. With `started` the sampling could be
started and `pthread_create` succeeds: the source would go on without a control thread, and join one that never was. -/
def runNumaSampling (s : Spm D) (session : Nat) (started : Bool) : Option (Spm D) :=
  s.sessions[session]?.bind fun threads =>
    let goto (next : SamplingAt) (s : Spm D) : Spm D :=
      { s with sessions := s.sessions.set session { threads with sampling := next } }
    match threads.sampling with
    | .entered => some (goto .starting (s.withSt fun st => { st with endRecording := false }))
    | .starting =>
      if started then some { s with sessions := s.sessions.set session ⟨.reading, .watching 0⟩ }
      else some (goto .failed s)
    | .reading => some (goto (if s.st.endRecording then .joining else .reading) s)
    | .joining => if threads.control = .returned then some (goto .returned s) else none
    | .failed => none
    | .returned => none

/-- One statement of `control_spm`, or one second of waiting; the migration is one step. -/
def controlSpm (s : Spm D) (session : Nat) : Option (Spm D) :=
  s.sessions[session]?.bind fun threads =>
    let goto (next : ControlAt) (s : Spm D) : Spm D :=
      { s with sessions := s.sessions.set session { threads with control := next } }
    let gone := decide (s.st.pidUo ∈ s.gone)
    match threads.control with
    | .absent => none
    | .watching i =>
      let seconds := if s.st.measureTime > 0 then s.st.measureTime else defaultMeasureTime
      match waitWatchProcess seconds i gone s.st.endRecording with
      | .again i => some (goto (.watching i) s)
      | .result r => some (goto (if r = 0 then .migrating else .ending) s)
    | .migrating => some (goto (.waiting 0) s)
    | .waiting i =>
      match waitWatchProcess (-1) i gone s.st.endRecording with
      | .again i => some (goto (.waiting i) s)
      | .result _ => some (goto .ending s)
    | .ending => some (goto .leaving (s.withSt fun st => { st with endRecording := true }))
    | .leaving => some (goto .returned (s.withSt fun st => { st with pidUo := -1 }))
    | .returned => none

/-- Without a process the start would read the command of a null pointer. -/
def step [Zero D] (nCores : Nat) (s : Spm D) : SpmEvent → Option (Spm D)
  | .start tid =>
    if s.st.pidUo ≠ -1 then some { s with monitor := PageMigrate.start (initSpm nCores) tid s.monitor }
    else if s.monitor.self.monitoredPid = -1 then none
    else some { s with
      monitor := PageMigrate.start (initSpm nCores) tid s.monitor
      sessions := ⟨.entered, .absent⟩ :: s.sessions }
  | .stop tid => some { s with monitor := (PageMigrate.stop tid s.monitor).2 }
  | .processEnds pid => some { s with gone := pid :: s.gone }
  | .sampling session started => runNumaSampling s session started
  | .control session => controlSpm s session

/-! ## What a thread can do -/

/-- What a statement of the two threads of a session does to where they stand and to the settings. -/
inductive Turn (gone : Bool) (st : SamplingSettings) : Threads → Threads → SamplingSettings → Prop
  | enters (c : ControlAt) : Turn gone st ⟨.entered, c⟩ ⟨.starting, c⟩ { st with endRecording := false }
  | starts (c : ControlAt) : Turn gone st ⟨.starting, c⟩ ⟨.reading, .watching 0⟩ st
  | fails (c : ControlAt) : Turn gone st ⟨.starting, c⟩ ⟨.failed, c⟩ st
  | reads (c : ControlAt) (hrecord : st.endRecording = false) : Turn gone st ⟨.reading, c⟩ ⟨.reading, c⟩ st
  | endsReading (c : ControlAt) (hend : st.endRecording = true) : Turn gone st ⟨.reading, c⟩ ⟨.joining, c⟩ st
  | joins : Turn gone st ⟨.joining, .returned⟩ ⟨.returned, .returned⟩ st
  | watches (a : SamplingAt) (i j : Int) (hgone : gone = false) (hrecord : st.endRecording = false) :
    Turn gone st ⟨a, .watching i⟩ ⟨a, .watching j⟩ st
  | watched (a : SamplingAt) (i : Int) (hgone : gone = false) (hrecord : st.endRecording = false) :
    Turn gone st ⟨a, .watching i⟩ ⟨a, .migrating⟩ st
  | endsWatching (a : SamplingAt) (i : Int) (hend : gone = true ∨ st.endRecording = true) :
    Turn gone st ⟨a, .watching i⟩ ⟨a, .ending⟩ st
  | migrates (a : SamplingAt) : Turn gone st ⟨a, .migrating⟩ ⟨a, .waiting 0⟩ st
  | waits (a : SamplingAt) (i j : Int) (hgone : gone = false) (hrecord : st.endRecording = false) :
    Turn gone st ⟨a, .waiting i⟩ ⟨a, .waiting j⟩ st
  | endsWaiting (a : SamplingAt) (i : Int) (hend : gone = true ∨ st.endRecording = true) :
    Turn gone st ⟨a, .waiting i⟩ ⟨a, .ending⟩ st
  | ends (a : SamplingAt) : Turn gone st ⟨a, .ending⟩ ⟨a, .leaving⟩ { st with endRecording := true }
  | leaves (a : SamplingAt) : Turn gone st ⟨a, .leaving⟩ ⟨a, .returned⟩ { st with pidUo := -1 }

/-- A second of waiting for a process that is there, while nobody asks to end, is not the last but by the clock. -/
theorem waitWatchProcess_cases (seconds i : Int) (gone endRecording : Bool) :
    ((gone = true ∨ endRecording = true) ∧ waitWatchProcess seconds i gone endRecording = .result (-1)) ∨
      (gone = false ∧ endRecording = false ∧
        ((∃ j, waitWatchProcess seconds i gone endRecording = .again j) ∨
          1 ≤ seconds ∧ waitWatchProcess seconds i gone endRecording = .result 0)) := by
  unfold waitWatchProcess
  cases gone <;> cases endRecording <;> simp only [Bool.false_eq_true, if_false, if_true, or_true, true_and, or_false,
    false_or, false_and, and_self, reduceCtorEq]
  split_ifs <;> first | exact .inl ⟨_, rfl⟩ | exact .inr ⟨by omega, rfl⟩

/-- One session takes a turn. -/
def Turned (s t : Spm D) : Prop :=
  ∃ session threads threads' st', s.sessions[session]? = some threads ∧
    Turn (decide (s.st.pidUo ∈ s.gone)) s.st threads threads' st' ∧
    t = { s.withSt fun _ => st' with sessions := s.sessions.set session threads' }

theorem turned_runNumaSampling {s t : Spm D} {session : Nat} {started : Bool}
    (h : runNumaSampling s session started = some t) : s.Turned t := by
  obtain ⟨⟨a, c⟩, hget, h⟩ := Option.bind_eq_some_iff.mp h
  refine ⟨session, ⟨a, c⟩, ?_⟩
  cases a with
  | entered => exact ⟨_, _, hget, .enters c, (Option.some.inj h).symm⟩
  | starting =>
    cases started with
    | true => exact ⟨_, _, hget, .starts c, (Option.some.inj h).symm⟩
    | false => exact ⟨_, _, hget, .fails c, (Option.some.inj h).symm⟩
  | reading =>
    cases hend : s.st.endRecording with
    | true =>
      simp only [hend, if_true] at h
      exact ⟨_, _, hget, .endsReading c hend, (Option.some.inj h).symm⟩
    | false =>
      simp only [hend, Bool.false_eq_true, if_false] at h
      exact ⟨_, _, hget, .reads c hend, (Option.some.inj h).symm⟩
  | joining =>
    obtain ⟨hreturned, h⟩ := Option.ite_none_right_eq_some.mp h
    obtain rfl : c = .returned := hreturned
    exact ⟨_, _, hget, .joins, (Option.some.inj h).symm⟩
  | failed => cases h
  | returned => cases h

theorem turned_controlSpm {s t : Spm D} {session : Nat} (h : controlSpm s session = some t) : s.Turned t := by
  obtain ⟨⟨a, c⟩, hget, h⟩ := Option.bind_eq_some_iff.mp h
  refine ⟨session, ⟨a, c⟩, ?_⟩
  cases c with
  | absent => cases h
  | watching i =>
    rcases waitWatchProcess_cases (if s.st.measureTime > 0 then s.st.measureTime else defaultMeasureTime) i
        (decide (s.st.pidUo ∈ s.gone)) s.st.endRecording with
      ⟨hend, hwatch⟩ | ⟨hgone, hrecord, ⟨j, hwatch⟩ | ⟨-, hwatch⟩⟩
    · simp only [hwatch] at h
      exact ⟨_, _, hget, .endsWatching a i hend, (Option.some.inj h).symm⟩
    · simp only [hwatch] at h
      exact ⟨_, _, hget, .watches a i j hgone hrecord, (Option.some.inj h).symm⟩
    · simp only [hwatch] at h
      exact ⟨_, _, hget, .watched a i hgone hrecord, (Option.some.inj h).symm⟩
  | migrating => exact ⟨_, _, hget, .migrates a, (Option.some.inj h).symm⟩
  | waiting i =>
    rcases waitWatchProcess_cases (-1) i (decide (s.st.pidUo ∈ s.gone)) s.st.endRecording with
      ⟨hend, hwatch⟩ | ⟨hgone, hrecord, ⟨j, hwatch⟩ | ⟨hlast, -⟩⟩
    · simp only [hwatch] at h
      exact ⟨_, _, hget, .endsWaiting a i hend, (Option.some.inj h).symm⟩
    · simp only [hwatch] at h
      exact ⟨_, _, hget, .waits a i j hgone hrecord, (Option.some.inj h).symm⟩
    · omega
  | ending => exact ⟨_, _, hget, .ends a, (Option.some.inj h).symm⟩
  | leaving => exact ⟨_, _, hget, .leaves a, (Option.some.inj h).symm⟩
  | returned => cases h

/-! ## Sessions follow each other -/

/-- The sampling thread has not yet created the control thread. -/
def SamplingAt.early : SamplingAt → Bool
  | .entered => true
  | .starting => true
  | .failed => true
  | _ => false

/-- Only the latest session may have a control thread, and `pid_uo` tells whether it has returned. -/
structure Orderly (s : Spm D) : Prop where
  none : s.sessions = [] → s.st.pidUo = -1
  latest : ∀ c ∈ s.sessions.head?, c.control = .returned ↔ s.st.pidUo = -1
  former : ∀ c ∈ s.sessions.tail, c.control = .returned
  created : ∀ c ∈ s.sessions, c.control = .absent ↔ c.sampling.early = true

theorem Turn.created {gone : Bool} {st st' : SamplingSettings} {c c' : Threads} (h : Turn gone st c c' st')
    (hc : c.control = .absent ↔ c.sampling.early = true) : c'.control = .absent ↔ c'.sampling.early = true := by
  cases h with
  | enters c => exact hc
  | starts c => exact iff_of_false nofun nofun
  | fails c => exact hc
  | reads c _ => exact hc
  | endsReading c _ => exact hc
  | joins => exact hc
  -- A control thread that takes a turn was created, so the sampling thread is past its start.
  | watches | watched | endsWatching | migrates | waits | endsWaiting | ends | leaves =>
    exact iff_of_false nofun (fun hearly => nomatch hc.mpr hearly)

theorem Turn.latest {gone : Bool} {st st' : SamplingSettings} {c c' : Threads} (h : Turn gone st c c' st')
    (hc : c.control = .absent ↔ c.sampling.early = true) (hpid : c.control = .returned ↔ st.pidUo = -1) :
    c'.control = .returned ↔ st'.pidUo = -1 := by
  cases h with
  | enters c => exact hpid
  | starts c =>
    obtain rfl : c = .absent := hc.mpr rfl
    exact iff_of_false nofun (fun h => nomatch hpid.mpr h)
  | fails c => exact hpid
  | reads c _ => exact hpid
  | endsReading c _ => exact hpid
  | joins => exact hpid
  | watches | watched | endsWatching | migrates | waits | endsWaiting | ends =>
    exact iff_of_false nofun (fun h => nomatch hpid.mpr h)
  | leaves => exact iff_of_true rfl rfl

/-- What is left of a session without its control thread changes nothing. -/
theorem Turn.former {gone : Bool} {st st' : SamplingSettings} {c c' : Threads} (h : Turn gone st c c' st')
    (hc : c.control = .absent ↔ c.sampling.early = true) (hreturned : c.control = .returned) :
    c'.control = .returned ∧ st' = st := by
  cases h with
  | enters c => exact nomatch (hc.mpr rfl).symm.trans hreturned
  | starts c => exact nomatch (hc.mpr rfl).symm.trans hreturned
  | fails c => exact ⟨hreturned, rfl⟩
  | reads c _ => exact ⟨hreturned, rfl⟩
  | endsReading c _ => exact ⟨hreturned, rfl⟩
  | joins => exact ⟨rfl, rfl⟩
  | watches | watched | endsWatching | migrates | waits | endsWaiting | ends | leaves => cases hreturned

/-- A turn of the latest session, or one of a former session, which is only that of its sampling thread. -/
theorem Orderly.turn_cases {s t : Spm D} (hs : s.Orderly) (h : s.Turned t) :
    ∃ c former, s.sessions = c :: former ∧ t.gone = s.gone ∧
      ((∃ c', Turn (decide (s.st.pidUo ∈ s.gone)) s.st c c' t.st ∧ t.sessions = c' :: former) ∨
        ∃ session f f', former[session]? = some f ∧ Turn (decide (s.st.pidUo ∈ s.gone)) s.st f f' s.st ∧
          f'.control = .returned ∧ t.st = s.st ∧ t.sessions = c :: former.set session f') := by
  obtain ⟨session, f, f', st', hget, hturn, rfl⟩ := h
  cases hsessions : s.sessions with
  | nil => simp [hsessions] at hget
  | cons c former =>
    refine ⟨c, former, rfl, rfl, ?_⟩
    rw [hsessions] at hget
    cases session with
    | zero =>
      obtain rfl : c = f := Option.some.inj hget
      exact .inl ⟨f', hturn, by simp⟩
    | succ session =>
      have hmem : f ∈ former := List.mem_of_getElem? hget
      have hreturned := hs.former f (by rw [hsessions]; exact hmem)
      obtain ⟨hreturned', rfl⟩ := hturn.former (hs.created f (by rw [hsessions]; exact .tail c hmem)) hreturned
      exact .inr ⟨session, f, f', hget, hturn, hreturned', rfl, by simp⟩

theorem Orderly.turned {s t : Spm D} (hs : s.Orderly) (h : s.Turned t) : t.Orderly := by
  obtain ⟨c, former, hsessions, -, ⟨c', hturn, ht⟩ | ⟨session, f, f', hget, hturn, hreturned, hst, ht⟩⟩ :=
    hs.turn_cases h
  · have hcreated := List.forall_mem_cons.mp (hsessions ▸ hs.created)
    refine ⟨by simp [ht], ?_, ?_, ?_⟩
    · rw [ht]
      rintro d ⟨⟩
      exact hturn.latest hcreated.1 (hs.latest c (by rw [hsessions]; rfl))
    · have hformer := hs.former
      rw [hsessions] at hformer
      rw [ht]
      exact hformer
    · rw [ht, List.forall_mem_cons]
      exact ⟨hturn.created hcreated.1, hcreated.2⟩
  · have hmem : f ∈ s.sessions := hsessions ▸ List.mem_cons_of_mem c (List.mem_of_getElem? hget)
    have hcreated := List.forall_mem_cons.mp (hsessions ▸ hs.created)
    have hlatest := hs.latest
    have hformer := hs.former
    rw [hsessions] at hlatest hformer
    refine ⟨by simp [ht], ?_, ?_, ?_⟩
    · rw [ht, hst]
      exact hlatest
    · rw [ht]
      intro d hd
      rcases List.mem_or_eq_of_mem_set hd with hd | rfl
      · exact hformer d hd
      · exact hreturned
    · rw [ht, List.forall_mem_cons]
      refine ⟨hcreated.1, fun d hd => ?_⟩
      rcases List.mem_or_eq_of_mem_set hd with hd | rfl
      · exact hcreated.2 d hd
      · exact hturn.created (hs.created f hmem)

theorem Orderly.congr {s t : Spm D} (hs : s.Orderly) (hpid : t.st.pidUo = s.st.pidUo)
    (hsessions : t.sessions = s.sessions) : t.Orderly :=
  ⟨by rw [hsessions, hpid]; exact hs.none, by rw [hsessions, hpid]; exact hs.latest,
    by rw [hsessions]; exact hs.former, by rw [hsessions]; exact hs.created⟩

/-- After `init` of the monitor. -/
def initial (m : Session (PageMigrate D)) : Spm D where
  monitor := m

theorem orderly_initial {m : Session (PageMigrate D)} (hm : m.self.st.pidUo = -1) : (initial m).Orderly where
  none _ := hm
  latest := by simp [initial]
  former := by simp [initial]
  created := by simp [initial]

/-! ## The end of a session -/

/-- The threads are asked to end, and none is about to take that back. -/
def Quitting (s : Spm D) : Prop := s.st.endRecording = true ∧ ∀ c ∈ s.sessions, c.sampling ≠ .entered

/-- The turns a session takes at most, once it is asked to end. -/
def Threads.weight (c : Threads) : Nat :=
  (match c.sampling with
    | .starting => 6
    | .reading => 2
    | .joining => 1
    | _ => 0) +
  match c.control with
    | .watching _ => 3
    | .migrating => 4
    | .waiting _ => 3
    | .ending => 2
    | .leaving => 1
    | _ => 0

def weight (s : Spm D) : Nat := (s.sessions.map Threads.weight).sum

theorem Turn.quitting {gone : Bool} {st st' : SamplingSettings} {c c' : Threads} (h : Turn gone st c c' st')
    (hcreated : c.control = .absent ↔ c.sampling.early = true) (hend : st.endRecording = true)
    (hentered : c.sampling ≠ .entered) :
    st'.endRecording = true ∧ c'.sampling ≠ .entered ∧ c'.weight < c.weight := by
  cases h with
  | starts c =>
    obtain rfl : c = .absent := hcreated.mpr rfl
    exact ⟨hend, nofun, by simp [Threads.weight]⟩
  | enters c => exact absurd rfl hentered
  | reads c hrecord => exact absurd (hend.symm.trans hrecord) nofun
  | watches _ _ _ _ hrecord | watched _ _ _ hrecord | waits _ _ _ _ hrecord =>
    exact absurd (hend.symm.trans hrecord) nofun
  | fails c | endsReading c _ => exact ⟨hend, nofun, by simp [Threads.weight]⟩
  | joins => exact ⟨hend, nofun, by simp [Threads.weight]⟩
  | ends a => exact ⟨rfl, hentered, by simp [Threads.weight]⟩
  | endsWatching a _ _ | migrates a | endsWaiting a _ _ | leaves a =>
    exact ⟨hend, hentered, by simp [Threads.weight]⟩

theorem controlSpm_isSome {s : Spm D} {session : Nat} {c : Threads} (hget : s.sessions[session]? = some c)
    (habsent : c.control ≠ .absent) (hreturned : c.control ≠ .returned) : (controlSpm s session).isSome := by
  obtain ⟨a, control⟩ := c
  rw [controlSpm, hget, Option.bind_some]
  cases control with
  | absent => exact absurd rfl habsent
  | watching i => simp only; split <;> rfl
  | migrating => rfl
  | waiting i => simp only; split <;> rfl
  | ending => rfl
  | leaving => rfl
  | returned => exact absurd rfl hreturned

/-- No thread can take a turn. -/
def AtRest (s : Spm D) : Prop :=
  ∀ session, (∀ started, runNumaSampling s session started = none) ∧ controlSpm s session = none

/-- A session at rest has returned, or its sampling could not be started. -/
theorem AtRest.returned {s : Spm D} (h : s.AtRest) (hs : s.Orderly) {session : Nat} {c : Threads}
    (hget : s.sessions[session]? = some c) :
    (c.sampling = .returned ∧ c.control = .returned) ∨ (c.sampling = .failed ∧ c.control = .absent) := by
  obtain ⟨hsampling, hcontrol⟩ := h session
  have hcreated := hs.created c (List.mem_of_getElem? hget)
  have hidle : c.control = .absent ∨ c.control = .returned := by
    by_contra hbusy
    rw [not_or] at hbusy
    have hstep := controlSpm_isSome hget hbusy.1 hbusy.2
    simp [hcontrol] at hstep
  have hstep := hsampling true
  obtain ⟨a, control⟩ := c
  rw [runNumaSampling, hget, Option.bind_some] at hstep
  cases a with
  | entered => cases hstep
  | starting => cases hstep
  | reading => cases hstep
  | joining =>
    rcases hidle with hidle | hidle
    · exact absurd (hcreated.mp hidle) (by simp [SamplingAt.early])
    · obtain rfl : control = .returned := hidle
      cases hstep
  | failed => exact .inr ⟨rfl, hcreated.mpr rfl⟩
  | returned =>
    rcases hidle with hidle | hidle
    · exact absurd (hcreated.mp hidle) (by simp [SamplingAt.early])
    · exact .inl ⟨rfl, hidle⟩

theorem Quitting.turned {s t : Spm D} (hs : s.Orderly) (hquit : s.Quitting) (h : s.Turned t) :
    t.Quitting ∧ t.weight < s.weight := by
  obtain ⟨c, former, hsessions, -, ⟨c', hturn, ht⟩ | ⟨session, f, f', hget, hturn, -, hst, ht⟩⟩ := hs.turn_cases h
  · have hcreated := hs.created c (by rw [hsessions]; exact .head former)
    obtain ⟨hc, hformer⟩ := List.forall_mem_cons.mp (hsessions ▸ hquit.2)
    obtain ⟨hend, hentered, hlt⟩ := hturn.quitting hcreated hquit.1 hc
    refine ⟨⟨hend, ?_⟩, ?_⟩
    · rw [ht, List.forall_mem_cons]
      exact ⟨hentered, hformer⟩
    · rw [weight, weight, ht, hsessions, List.map_cons, List.map_cons, List.sum_cons, List.sum_cons]
      omega
  · have hmem : f ∈ former := List.mem_of_getElem? hget
    have hcreated := hs.created f (by rw [hsessions]; exact .tail c hmem)
    obtain ⟨hc, hformer⟩ := List.forall_mem_cons.mp (hsessions ▸ hquit.2)
    obtain ⟨-, hentered, hlt⟩ := hturn.quitting hcreated hquit.1 (hformer f hmem)
    refine ⟨⟨hst ▸ hquit.1, ?_⟩, ?_⟩
    · rw [ht, List.forall_mem_cons]
      refine ⟨hc, fun d hd => ?_⟩
      rcases List.mem_or_eq_of_mem_set hd with hd | rfl
      · exact hformer d hd
      · exact hentered
    · have hset := Histogram.sum_map_set Threads.weight hget f'
      rw [weight, weight, ht, hsessions, List.map_cons, List.map_cons, List.sum_cons, List.sum_cons]
      omega

/-! ## A stop that comes too early -/

/-- A session that is still before its first statement, which takes back that it is asked to end, or that nobody has
asked to end. -/
structure Threads.GoesOn (c : Threads) (endRecording : Bool) : Prop where
  asked : c.sampling = .entered ∨ endRecording = false
  reads : c.sampling ≠ .joining ∧ c.sampling ≠ .returned
  controls : c.control ≠ .ending ∧ c.control ≠ .leaving ∧ c.control ≠ .returned

/-- The latest session goes on. -/
structure GoesOn (s : Spm D) : Prop where
  there : s.st.pidUo ∉ s.gone
  latest : ∃ c ∈ s.sessions.head?, c.GoesOn s.st.endRecording

theorem Turn.goesOn {st st' : SamplingSettings} {c c' : Threads} (h : Turn false st c c' st')
    (hcreated : c.control = .absent ↔ c.sampling.early = true) (hgoes : c.GoesOn st.endRecording) :
    st'.pidUo = st.pidUo ∧ c'.GoesOn st'.endRecording := by
  obtain ⟨hasked, ⟨hjoining, hreturned⟩, hending, hleaving, hcontrol⟩ := hgoes
  cases h with
  | enters c => exact ⟨rfl, .inr rfl, ⟨nofun, nofun⟩, hending, hleaving, hcontrol⟩
  | starts c =>
    have hrecord : st.endRecording = false := hasked.resolve_left nofun
    exact ⟨rfl, .inr hrecord, ⟨nofun, nofun⟩, nofun, nofun, nofun⟩
  | fails c =>
    have hrecord : st.endRecording = false := hasked.resolve_left nofun
    exact ⟨rfl, .inr hrecord, ⟨nofun, nofun⟩, hending, hleaving, hcontrol⟩
  | reads c hrecord => exact ⟨rfl, .inr hrecord, ⟨nofun, nofun⟩, hending, hleaving, hcontrol⟩
  | endsReading c hend => exact absurd (hend.symm.trans (hasked.resolve_left nofun)) nofun
  | joins => exact absurd rfl hjoining
  | watches a i j _ hrecord | waits a i j _ hrecord =>
    exact ⟨rfl, .inr hrecord, ⟨hjoining, hreturned⟩, nofun, nofun, nofun⟩
  | watched a i _ hrecord => exact ⟨rfl, .inr hrecord, ⟨hjoining, hreturned⟩, nofun, nofun, nofun⟩
  | endsWatching a i hend | endsWaiting a i hend =>
    -- The sampling thread that created this one is past its first statement.
    have hentered : a ≠ .entered := by
      rintro rfl
      exact nomatch hcreated.mpr rfl
    rcases hend with hgone | hend
    · exact nomatch hgone
    · exact absurd (hend.symm.trans (hasked.resolve_left hentered)) nofun
  | migrates a => exact ⟨rfl, hasked, ⟨hjoining, hreturned⟩, nofun, nofun, nofun⟩
  | ends a => exact absurd rfl hending
  | leaves a => exact absurd rfl hleaving

theorem GoesOn.turned {s t : Spm D} (hs : s.Orderly) (hgoes : s.GoesOn) (h : s.Turned t) :
    t.GoesOn ∧ t.st.pidUo = s.st.pidUo := by
  obtain ⟨c, former, hsessions, hgone, ⟨c', hturn, ht⟩ | ⟨session, f, f', hget, hturn, -, hst, ht⟩⟩ :=
    hs.turn_cases h
  · obtain ⟨d, hd, hlatest⟩ := hgoes.latest
    rw [hsessions] at hd
    obtain rfl : c = d := Option.some.inj hd
    have hthere : decide (s.st.pidUo ∈ s.gone) = false := by simpa using hgoes.there
    rw [hthere] at hturn
    obtain ⟨hpid, hlatest'⟩ := hturn.goesOn (hs.created c (by rw [hsessions]; exact .head former)) hlatest
    exact ⟨⟨by rw [hpid, hgone]; exact hgoes.there, c', by rw [ht]; rfl, hlatest'⟩, hpid⟩
  · obtain ⟨d, hd, hlatest⟩ := hgoes.latest
    rw [hsessions] at hd
    exact ⟨⟨by rw [hst, hgone]; exact hgoes.there, d, by rw [ht]; exact hd, by rw [hst]; exact hlatest⟩, by rw [hst]⟩

/-! ## Runs -/

section Runs

variable [Zero D] {nCores : Nat}

theorem step_cases {s t : Spm D} {e : SpmEvent} (h : step nCores s e = some t) :
    (∃ tid, e = .start tid ∧ s.st.pidUo ≠ -1 ∧ t = s) ∨
    (∃ tid, e = .start tid ∧ s.st.pidUo = -1 ∧ t.st.pidUo ≠ -1 ∧ t.sessions = ⟨.entered, .absent⟩ :: s.sessions) ∨
    (∃ tid, e = .stop tid ∧ t.st = { s.st with endRecording := true } ∧ t.sessions = s.sessions ∧ t.gone = s.gone) ∨
    (∃ pid, e = .processEnds pid ∧ t.st = s.st ∧ t.sessions = s.sessions ∧ t.gone = pid :: s.gone) ∨
    (e.own = true ∧ s.Turned t) := by
  cases e with
  | start tid =>
    by_cases hpid : s.st.pidUo = -1
    · simp only [step, hpid, ne_eq, not_true_eq_false, if_false] at h
      obtain ⟨hmonitored, h⟩ := Option.ite_none_left_eq_some.mp h
      obtain rfl := Option.some.inj h
      have hst : s.monitor.self.st.pidUo = -1 := hpid
      refine .inr (.inl ⟨tid, rfl, hpid, ?_, rfl⟩)
      simp only [st, PageMigrate.start, hst, ne_eq, not_true_eq_false, if_false, initSpm]
      exact hmonitored
    · simp only [step, hpid, ne_eq, not_false_eq_true, if_true] at h
      obtain rfl := Option.some.inj h
      have hst : s.monitor.self.st.pidUo ≠ -1 := hpid
      exact .inl ⟨tid, rfl, hpid, by rw [PageMigrate.start, if_pos hst]⟩
  | stop tid =>
    obtain rfl := Option.some.inj h
    exact .inr (.inr (.inl ⟨tid, rfl, rfl, rfl, rfl⟩))
  | processEnds pid =>
    obtain rfl := Option.some.inj h
    exact .inr (.inr (.inr (.inl ⟨pid, rfl, rfl, rfl, rfl⟩)))
  | sampling session started => exact .inr (.inr (.inr (.inr ⟨rfl, turned_runNumaSampling h⟩)))
  | control session => exact .inr (.inr (.inr (.inr ⟨rfl, turned_controlSpm h⟩)))

theorem Orderly.step {s t : Spm D} {e : SpmEvent} (hs : s.Orderly) (h : Spm.step nCores s e = some t) :
    t.Orderly := by
  obtain ⟨_, -, -, rfl⟩ | ⟨_, -, hended, hpid, ht⟩ | ⟨_, -, hst, ht, -⟩ | ⟨_, -, hst, ht, -⟩ | ⟨-, hturned⟩ :=
    step_cases h
  · exact hs
  · refine ⟨by simp [ht], ?_, ?_, ?_⟩
    · rw [ht]
      rintro c ⟨⟩
      simp [hpid]
    · rw [ht, List.tail_cons]
      intro c hc
      cases hsessions : s.sessions with
      | nil => simp [hsessions] at hc
      | cons d former =>
        rcases List.mem_cons.mp (hsessions ▸ hc) with rfl | hc
        · exact (hs.latest c (by rw [hsessions]; rfl)).mpr hended
        · exact hs.former c (by rw [hsessions]; exact hc)
    · rw [ht, List.forall_mem_cons]
      exact ⟨by simp [SamplingAt.early], hs.created⟩
  · exact hs.congr (by rw [hst]) ht
  · exact hs.congr (by rw [hst]) ht
  · exact hs.turned hturned

theorem Orderly.run {s t : Spm D} {events : List SpmEvent} (hs : s.Orderly)
    (hrun : PartialStep.run (Spm.step nCores) s events = some t) : t.Orderly :=
  PartialStep.run_invariant Orderly (fun _ _ _ hs _ h => hs.step h) hs (PartialStep.admitted_true _ _ _) hrun

theorem Quitting.run {s t : Spm D} {own : List SpmEvent} (hquit : s.Quitting) (hs : s.Orderly)
    (hown : ∀ e ∈ own, e.own = true) (hturns : PartialStep.run (Spm.step nCores) s own = some t) :
    own.length + t.weight ≤ s.weight := by
  induction own generalizing s with
  | nil =>
    cases hturns
    exact Nat.le_of_eq (Nat.zero_add _)
  | cons e own ih =>
    obtain ⟨he, hown⟩ := List.forall_mem_cons.mp hown
    rw [PartialStep.run_cons] at hturns
    obtain ⟨u, hu, hturns⟩ := Option.bind_eq_some_iff.mp hturns
    have hturned : s.Turned u := by
      obtain ⟨_, rfl, -⟩ | ⟨_, rfl, -⟩ | ⟨_, rfl, -⟩ | ⟨_, rfl, -⟩ | ⟨-, hturned⟩ := step_cases hu
      · cases he
      · cases he
      · cases he
      · cases he
      · exact hturned
    obtain ⟨hquit', hlt⟩ := hquit.turned hs hturned
    have hrest := ih hquit' (hs.turned hturned) hown hturns
    rw [List.length_cons]
    omega

/-- A monitor of process 7. -/
def idle : Session (PageMigrate Int) := ⟨{ monitoredPid := 7 }, {}, {}⟩

/-- Its settings while it samples on two cores. -/
def sampled (endRecording : Bool) : Session (PageMigrate Int) :=
  ⟨{ monitoredPid := 7, st := ⟨7, 100, 50, 30, endRecording, 2, 0, some 0⟩ }, {}, {}⟩

/-- The sampling has begun when the monitor is stopped. -/
def stopped : Spm Int := { monitor := sampled true, sessions := [⟨.reading, .watching 0⟩] }

theorem run_stopped :
    PartialStep.run (Spm.step 2) (initial idle) [.start 7, .sampling 0 true, .sampling 0 true, .stop 7] =
      some stopped := rfl

/-- Once the threads are asked to end and none is about to take that back, they take a bounded number of turns. At
rest all of them have returned and the monitor can be started again, unless the sampling could not be started. -/
theorem stop_ends_sessions {m : Session (PageMigrate D)} (hm : m.self.st.pidUo = -1) {before own : List SpmEvent}
    {s t : Spm D} (hrun : PartialStep.run (Spm.step nCores) (initial m) before = some s) (hquit : s.Quitting)
    (hown : ∀ e ∈ own, e.own = true) (hturns : PartialStep.run (Spm.step nCores) s own = some t) :
    own.length + t.weight ≤ s.weight ∧
      (t.AtRest → (∀ c ∈ t.sessions, c.sampling = .returned ∨ c.sampling = .failed) ∧
        (t.st.pidUo = -1 ∨ ∃ c ∈ t.sessions.head?, c.sampling = .failed)) := by
  have hs := (orderly_initial hm).run hrun
  refine ⟨(hquit.run hs hown hturns), ?_⟩
  intro hrest
  have ht := hs.run hturns
  have hreturned : ∀ c ∈ t.sessions,
      (c.sampling = .returned ∧ c.control = .returned) ∨ (c.sampling = .failed ∧ c.control = .absent) := by
    intro c hc
    obtain ⟨session, hget⟩ := List.mem_iff_getElem?.mp hc
    exact hrest.returned ht hget
  refine ⟨fun c hc => (hreturned c hc).imp And.left And.left, ?_⟩
  cases hsessions : t.sessions with
  | nil => exact .inl (ht.none hsessions)
  | cons c former =>
    rcases hreturned c (by rw [hsessions]; exact .head former) with ⟨-, hcontrol⟩ | ⟨hfailed, -⟩
    · exact .inl ((ht.latest c (by rw [hsessions]; rfl)).mp hcontrol)
    · exact .inr ⟨c, rfl, hfailed⟩

theorem quitting_stopped : stopped.Quitting := ⟨rfl, by decide⟩

def bothReturn : List SpmEvent :=
  [.control 0, .control 0, .sampling 0 true, .control 0, .sampling 0 true]

theorem own_bothReturn : ∀ e ∈ bothReturn, e.own = true := by decide

/-- Both threads have returned. -/
def returned : Spm Int :=
  { monitor := ⟨{ monitoredPid := 7, st := ⟨-1, 100, 50, 30, true, 2, 0, some 0⟩ }, {}, {}⟩
    sessions := [⟨.returned, .returned⟩] }

theorem run_bothReturn : PartialStep.run (Spm.step 2) stopped bothReturn = some returned := rfl

theorem atRest_returned : returned.AtRest := by
  intro session
  cases session with
  | zero => exact ⟨fun _ => rfl, rfl⟩
  | succ session => exact ⟨fun _ => rfl, rfl⟩

theorem stop_ends_sessions_one :
    bothReturn.length + returned.weight ≤ stopped.weight ∧
      (∀ c ∈ returned.sessions, c.sampling = .returned ∨ c.sampling = .failed) ∧
      (returned.st.pidUo = -1 ∨ ∃ c ∈ returned.sessions.head?, c.sampling = .failed) :=
  have hends := stop_ends_sessions rfl run_stopped quitting_stopped own_bothReturn run_bothReturn
  ⟨hends.1, hends.2 atRest_returned⟩

theorem GoesOn.run {s t : Spm D} {after : List SpmEvent} (hs : s.Orderly) (hgoes : s.GoesOn)
    (hquiet : ∀ e ∈ after, (∀ tid, e ≠ .stop tid) ∧ e ≠ .processEnds s.st.pidUo)
    (hafter : PartialStep.run (Spm.step nCores) s after = some t) : t.GoesOn ∧ t.st.pidUo = s.st.pidUo := by
  induction after generalizing s with
  | nil =>
    cases hafter
    exact ⟨hgoes, rfl⟩
  | cons e after ih =>
    obtain ⟨⟨hstop, hend⟩, hquiet⟩ := List.forall_mem_cons.mp hquiet
    rw [PartialStep.run_cons] at hafter
    obtain ⟨u, hu, hafter⟩ := Option.bind_eq_some_iff.mp hafter
    have hstep : u.GoesOn ∧ u.st.pidUo = s.st.pidUo := by
      obtain ⟨_, -, -, rfl⟩ | ⟨_, -, hpid, -⟩ | ⟨tid, he, -⟩ | ⟨pid, rfl, hst, hsessions, hgone⟩ | ⟨-, hturned⟩ :=
        step_cases hu
      · exact ⟨hgoes, rfl⟩
      · obtain ⟨c, hc, hlatest⟩ := hgoes.latest
        exact absurd ((hs.latest c hc).mpr hpid) hlatest.controls.2.2
      · exact absurd he (hstop tid)
      · have hother : s.st.pidUo ≠ pid := fun h => hend (by rw [h])
        refine ⟨⟨?_, ?_⟩, by rw [hst]⟩
        · rw [hst, hgone, List.mem_cons, not_or]
          exact ⟨hother, hgoes.there⟩
        · rw [hsessions, hst]
          exact hgoes.latest
      · exact hgoes.turned hs hturned
    rw [← hstep.2] at hquiet
    obtain ⟨hgoes', hpid⟩ := ih (hs.step hu) hstep.1 hquiet hafter
    exact ⟨hgoes', hpid.trans hstep.2⟩

/-- A stop before the first statement of the sampling thread is lost: as long as the process is there and nobody asks
again neither thread of the latest session ends, but for a sampling that could not be started, and the monitor cannot
be started again. -/
theorem early_stop_lost {m : Session (PageMigrate D)} (hm : m.self.st.pidUo = -1) {before after : List SpmEvent}
    {s t : Spm D} (hrun : PartialStep.run (Spm.step nCores) (initial m) before = some s)
    (hentered : ∃ c ∈ s.sessions.head?, c.sampling = .entered) (hthere : s.st.pidUo ∉ s.gone)
    (hquiet : ∀ e ∈ after, (∀ tid, e ≠ .stop tid) ∧ e ≠ .processEnds s.st.pidUo)
    (hafter : PartialStep.run (Spm.step nCores) s after = some t) :
    t.st.pidUo = s.st.pidUo ∧ t.st.pidUo ≠ -1 ∧
      ∃ c ∈ t.sessions.head?, c.control ≠ .returned ∧ c.sampling ≠ .joining ∧ c.sampling ≠ .returned := by
  have hs := (orderly_initial hm).run hrun
  obtain ⟨c, hc, hsampling⟩ := hentered
  have habsent : c.control = .absent := by
    rw [hs.created c (List.mem_of_mem_head? hc), hsampling]
    rfl
  have hgoes : s.GoesOn :=
    ⟨hthere, c, hc, .inl hsampling, by simp [hsampling], by simp [habsent]⟩
  obtain ⟨⟨-, d, hd, hlatest⟩, hpid⟩ := hgoes.run hs hquiet hafter
  have hreturned := hlatest.controls.2.2
  exact ⟨hpid, fun h => hreturned (((hs.run hafter).latest d hd).mpr h), d, hd, hreturned, hlatest.reads⟩

/-- The monitor is stopped before its thread has run. -/
def early : Spm Int := { monitor := sampled true, sessions := [⟨.entered, .absent⟩] }

theorem run_early : PartialStep.run (Spm.step 2) (initial idle) [.start 7, .stop 7] = some early := rfl

theorem entered_early : ∃ c ∈ early.sessions.head?, c.sampling = .entered := ⟨_, rfl, rfl⟩

def goingOn : List SpmEvent := [.sampling 0 true, .sampling 0 true, .control 0, .sampling 0 true]

theorem quiet_goingOn : ∀ e ∈ goingOn, (∀ tid, e ≠ .stop tid) ∧ e ≠ .processEnds early.st.pidUo := by
  simp [goingOn]

def going : Spm Int := { monitor := sampled false, sessions := [⟨.reading, .watching 1⟩] }

theorem run_goingOn : PartialStep.run (Spm.step 2) early goingOn = some going := rfl

theorem early_stop_lost_one :
    going.st.pidUo = early.st.pidUo ∧ going.st.pidUo ≠ -1 ∧
      ∃ c ∈ going.sessions.head?, c.control ≠ .returned ∧ c.sampling ≠ .joining ∧ c.sampling ≠ .returned :=
  early_stop_lost rfl run_early entered_early List.not_mem_nil quiet_goingOn run_goingOn

end Runs

end Spm

end AutopinPlus
