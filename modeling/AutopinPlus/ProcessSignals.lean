import AutopinPlus.ObservedProcess

/-!
# The slots of the observed process

`ObservedProcess` stands between the operating system and the rest of a watchdog: the signal
dispatcher and the OS services call its slots, and it emits signals of its own. The dispatcher
tells every observed process of the end of every child; a process knows its own end by its pid.
-/
namespace AutopinPlus

/-- `struct autopin_msg`; `val` is kept as the bits of the `double`. -/
structure AutopinMsg where
  eventId : UInt64
  arg : UInt64
  val : UInt64
  deriving DecidableEq, Repr

namespace AutopinMsg

def appNewPhase : UInt64 := 0x0100

def appUser : UInt64 := 0x1000

end AutopinMsg

/-- The signals of `ObservedProcess`. -/
inductive ProcessSignal where
  | taskTerminated (tid : Int)
  | taskCreated (tid : Int)
  | phaseChanged (newphase : UInt64)
  | userMessage (arg : Int) (val : UInt64)
  | procTerminated
  deriving DecidableEq, Repr

/-- The conversion of an `unsigned long` to an `int`. -/
def narrow (x : UInt64) : Int := (x.toNat : Int).bmod (2 ^ 32)

theorem narrow_eq_iff (x : UInt64) : narrow x = x.toNat ↔ x.toNat < 2 ^ 31 := by
  unfold narrow
  constructor
  · intro h
    have hlt : (x.toNat : Int).bmod (2 ^ 32) < ((2 ^ 32 : Nat) + 1) / 2 := Int.bmod_lt (by decide)
    rw [h] at hlt
    omega
  · intro h
    exact Int.bmod_eq_of_le (by omega) (by omega)

/-- An observed process with its execution phase and the signals it has emitted so far. -/
structure SignallingProcess extends ObservedProcess where
  phase : Int := 0
  signals : List ProcessSignal := []

namespace SignallingProcess

def getPid (o : SignallingProcess) : Int := o.pid

def signal (o : SignallingProcess) (sig : ProcessSignal) : SignallingProcess :=
  { o with signals := o.signals ++ [sig] }

def slotProcTerminated (pid _exitCode : Int) (o : SignallingProcess) : SignallingProcess :=
  if pid = o.pid then
    -- `pid = -1` in the source assigns to the parameter of the slot, the member keeps its value
    let _pid : Int := -1
    o.signal .procTerminated
  else o

def slotCommChannel (msg : AutopinMsg) (o : SignallingProcess) : SignallingProcess :=
  if msg.eventId = AutopinMsg.appNewPhase then
    { o with phase := narrow msg.arg }.signal (.phaseChanged msg.arg)
  else if msg.eventId = AutopinMsg.appUser then o.signal (.userMessage (narrow msg.arg) msg.val)
  else o

/-! ## The end of the process -/

/-- What the signal dispatcher tells of a child: its pid and its status. -/
abbrev ChildExit := Int × Int

def notify (o : SignallingProcess) (note : ChildExit) : SignallingProcess :=
  o.slotProcTerminated note.1 note.2

/-- The end of the process is told once, and from then on the process has no pid. -/
def ReportsOnce (o : SignallingProcess) (notes : List ChildExit) : Prop :=
  (notes.foldl notify o).signals.count .procTerminated ≤ 1 ∧
  ∀ before, before <+: notes → (∃ note ∈ before, note.1 = o.getPid) → (before.foldl notify o).getPid = -1

theorem notify_getPid (o : SignallingProcess) (note : ChildExit) : (o.notify note).getPid = o.getPid := by
  unfold notify slotProcTerminated
  split <;> rfl

theorem notify_other {o : SignallingProcess} {note : ChildExit} (h : note.1 ≠ o.getPid) : o.notify note = o :=
  if_neg h

/-- No notification changes the pid. -/
theorem notify_all_getPid (o : SignallingProcess) (notes : List ChildExit) :
    (notes.foldl notify o).getPid = o.getPid := by
  induction notes generalizing o with
  | nil => rfl
  | cons note notes ih => rw [List.foldl_cons, ih, notify_getPid]

theorem notify_all_others {o : SignallingProcess} {notes : List ChildExit}
    (h : ∀ note ∈ notes, note.1 ≠ o.getPid) : notes.foldl notify o = o := by
  induction notes with
  | nil => rfl
  | cons note notes ih =>
    rw [List.foldl_cons, notify_other (h note List.mem_cons_self)]
    exact ih (fun note hmem => h note (List.mem_cons_of_mem _ hmem))

/-- A running process reports its end as it should exactly as long as no child with its pid ends. -/
theorem reportsOnce_iff (o : SignallingProcess) (notes : List ChildExit)
    (hstarted : o.getPid ≠ -1) (hrunning : .procTerminated ∉ o.signals) :
    o.ReportsOnce notes ↔ ∀ note ∈ notes, note.1 ≠ o.getPid := by
  constructor
  · rintro ⟨-, hpid⟩ note hmem hown
    have hreset := hpid notes (List.prefix_refl notes) ⟨note, hmem, hown⟩
    rw [notify_all_getPid] at hreset
    exact hstarted hreset
  · intro hothers
    refine ⟨?_, ?_⟩
    · rw [notify_all_others hothers, List.count_eq_zero_of_not_mem hrunning]
      exact Nat.zero_le 1
    · rintro before hbefore ⟨note, hmem, hown⟩
      exact absurd hown (hothers note (hbefore.subset hmem))

/-- Process 7 has just been started. -/
def started : SignallingProcess := { pid := 7, signals := [.taskCreated 7] }

theorem reportsOnce_started : started.ReportsOnce [(8, 0), (9, 1)] := by
  rw [reportsOnce_iff started _ (by decide) (by decide)]
  decide

/-- The process ends, and so does later another child to which the kernel gave the same pid. -/
theorem not_reportsOnce_started :
    ¬ started.ReportsOnce [(7, 0), (8, 0), (7, 1)] ∧
    (([(7, 0), (8, 0), (7, 1)] : List ChildExit).foldl notify started).signals.count .procTerminated = 2 ∧
    (([(7, 0)] : List ChildExit).foldl notify started).getPid = 7 := by
  refine ⟨?_, by decide, by decide⟩
  rintro ⟨honce, -⟩
  revert honce
  decide

end SignallingProcess

end AutopinPlus
