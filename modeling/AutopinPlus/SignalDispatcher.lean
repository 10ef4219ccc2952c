import AutopinPlus.Histogram
import AutopinPlus.PartialStep
import AutopinPlus.ProcessSignals
import Mathlib.Data.List.Perm.Basic

/-!
# The signal dispatcher

The handler of `SIGCHLD` waits for every child that can be waited for and writes its pid and its status to a socket;
the event loop reads them again and tells the observed processes. Signals that come while one is pending are one
signal, the handler can interrupt every thread, and other threads wait for the same children: the one that traces a
process, and the one that controls the migration of its pages.
-/
namespace AutopinPlus

open SignallingProcess (ChildExit)

/-- What `waitpid` returns: the end of a child, or a stop of a traced one. -/
inductive Waitable where
  | ended (child : ChildExit)
  | stopped (child : ChildExit)
  deriving DecidableEq, Repr

namespace Waitable

/-- `si_pid` and `si_status` -/
def info : Waitable → ChildExit
  | .ended child => child
  | .stopped child => child

/-- `SA_NOCLDSTOP`: only an end raises the signal. -/
def raises : Waitable → Bool
  | .ended _ => true
  | .stopped _ => false

end Waitable

/-- Where the handler stands in a thread. -/
inductive Handler where
  | outside
  | waiting
  | writing (w : Waitable)
  deriving DecidableEq, Repr

/-- The threads by their handlers, of which the first runs the event loop, the socket pair, and the slot between its
read and its signal. -/
structure SignalDispatcher where
  handlers : List Handler
  waiting : List Waitable := []
  pending : Bool := false
  socket : List Waitable := []
  slot : Option Waitable := none
  told : List Waitable := []
  elsewhere : List Waitable := []

inductive DispatcherEvent where
  | arrives (w : Waitable)
  | otherWait (i : Nat)
  | interrupt (thread : Nat)
  | handle (thread i : Nat)
  | slot
  deriving DecidableEq, Repr

namespace SignalDispatcher

/-- `chldSignalHandler`, up to the end of one call. `waitpid` may return any of the children, and `write` blocks
while the socket holds `cap` notes. -/
def chldSignalHandler (cap : Nat) (s : SignalDispatcher) (thread i : Nat) : Option SignalDispatcher :=
  match s.handlers[thread]? with
  | some .waiting =>
    if s.waiting = [] then some { s with handlers := s.handlers.set thread .outside }
    else s.waiting[i]?.map fun w =>
      { s with waiting := s.waiting.eraseIdx i, handlers := s.handlers.set thread (.writing w) }
  | some (.writing w) =>
    if s.socket.length < cap then
      some { s with socket := s.socket ++ [w], handlers := s.handlers.set thread .waiting }
    else none
  | _ => none

/-- `slot_handleSigChld`: the read, and then `sig_ProcTerminated`. -/
def slotHandleSigChld (s : SignalDispatcher) : Option SignalDispatcher :=
  match s.slot, s.socket with
  | some w, _ => some { s with slot := none, told := s.told ++ [w] }
  | none, w :: socket => some { s with slot := some w, socket := socket }
  | none, [] => none

def step (cap : Nat) (s : SignalDispatcher) : DispatcherEvent → Option SignalDispatcher
  | .arrives w => some { s with waiting := s.waiting ++ [w], pending := s.pending || w.raises }
  | .otherWait i => s.waiting[i]?.map fun w =>
    { s with waiting := s.waiting.eraseIdx i, elsewhere := s.elsewhere ++ [w] }
  | .interrupt thread =>
    if s.pending ∧ s.handlers[thread]? = some .outside then
      some { s with pending := false, handlers := s.handlers.set thread .waiting }
    else none
  | .handle thread i => chldSignalHandler cap s thread i
  -- the event loop does not go on while its thread is interrupted
  | .slot => if s.handlers[0]? = some .outside then slotHandleSigChld s else none

/-- What the observed processes are told. -/
def notify (s : SignalDispatcher) (o : SignallingProcess) : SignallingProcess :=
  (s.told.map Waitable.info).foldl SignallingProcess.notify o

end SignalDispatcher

/-! ## Where a child is -/

/-- What the handler of a thread holds. -/
def Handler.held : Handler → List Waitable
  | .writing w => [w]
  | _ => []

@[simp] theorem Handler.held_outside : Handler.outside.held = [] := rfl

@[simp] theorem Handler.held_waiting : Handler.waiting.held = [] := rfl

@[simp] theorem Handler.held_writing (w : Waitable) : (Handler.writing w).held = [w] := rfl

/-- How often a handler still acts, if no more children come. -/
def Handler.weight : Handler → Nat
  | .outside => 0
  | .waiting => 1
  | .writing _ => 4

/-- The children that came. -/
def DispatcherEvent.arrived : DispatcherEvent → List Waitable
  | .arrives w => [w]
  | _ => []

/-- The steps of the dispatcher itself. -/
def DispatcherEvent.own : DispatcherEvent → Bool
  | .arrives _ => false
  | .otherWait _ => false
  | _ => true

theorem countP_eraseIdx {α : Type} {l : List α} {i : Nat} {a : α} (h : l[i]? = some a) (p : α → Bool) :
    (l.eraseIdx i).countP p + [a].countP p = l.countP p := by
  obtain ⟨hi, hget⟩ := List.getElem?_eq_some_iff.mp h
  have hperm := (List.getElem_cons_eraseIdx_perm hi).countP_eq p
  rwa [hget, List.countP_cons, ← List.countP_singleton] at hperm

namespace SignalDispatcher

/-- All the children that are known somewhere. -/
def places (s : SignalDispatcher) : List Waitable :=
  s.told ++ s.slot.toList ++ s.socket ++ s.handlers.flatMap Handler.held ++ s.waiting ++ s.elsewhere

def weight (s : SignalDispatcher) : Nat :=
  4 * s.waiting.length + 2 * s.pending.toNat + (s.handlers.map Handler.weight).sum + 2 * s.socket.length +
    s.slot.toList.length

theorem countP_places (s : SignalDispatcher) (p : Waitable → Bool) :
    s.places.countP p = s.told.countP p + s.slot.toList.countP p + s.socket.countP p +
      (s.handlers.map fun h => h.held.countP p).sum + s.waiting.countP p + s.elsewhere.countP p := by
  simp only [places, List.countP_append, List.countP_flatMap]
  rfl

/-- What a step can do. -/
inductive Moves (cap : Nat) (s : SignalDispatcher) : DispatcherEvent → SignalDispatcher → Prop
  | arrives (w : Waitable) :
    Moves cap s (.arrives w) { s with waiting := s.waiting ++ [w], pending := s.pending || w.raises }
  | otherWait {i : Nat} {w : Waitable} (hw : s.waiting[i]? = some w) :
    Moves cap s (.otherWait i) { s with waiting := s.waiting.eraseIdx i, elsewhere := s.elsewhere ++ [w] }
  | interrupt {thread : Nat} (hpending : s.pending = true) (hthread : s.handlers[thread]? = some .outside) :
    Moves cap s (.interrupt thread) { s with pending := false, handlers := s.handlers.set thread .waiting }
  | returns {thread i : Nat} (hthread : s.handlers[thread]? = some .waiting) (hnone : s.waiting = []) :
    Moves cap s (.handle thread i) { s with handlers := s.handlers.set thread .outside }
  | waits {thread i : Nat} {w : Waitable} (hthread : s.handlers[thread]? = some .waiting)
    (hw : s.waiting[i]? = some w) : Moves cap s (.handle thread i)
      { s with waiting := s.waiting.eraseIdx i, handlers := s.handlers.set thread (.writing w) }
  | writes {thread i : Nat} {w : Waitable} (hthread : s.handlers[thread]? = some (.writing w))
    (hroom : s.socket.length < cap) : Moves cap s (.handle thread i)
      { s with socket := s.socket ++ [w], handlers := s.handlers.set thread .waiting }
  | reads {w : Waitable} {socket : List Waitable} (hmain : s.handlers[0]? = some .outside) (hslot : s.slot = none)
    (hsocket : s.socket = w :: socket) : Moves cap s .slot { s with slot := some w, socket := socket }
  | emits {w : Waitable} (hmain : s.handlers[0]? = some .outside) (hslot : s.slot = some w) :
    Moves cap s .slot { s with slot := none, told := s.told ++ [w] }

theorem moves_of_step {cap : Nat} {s t : SignalDispatcher} {e : DispatcherEvent} (h : step cap s e = some t) :
    Moves cap s e t := by
  cases e with
  | arrives w => exact Option.some.inj h ▸ .arrives w
  | otherWait i =>
    obtain ⟨w, hw, rfl⟩ := Option.map_eq_some_iff.mp h
    exact .otherWait hw
  | interrupt thread =>
    obtain ⟨⟨hpending, hthread⟩, ht⟩ := Option.ite_none_right_eq_some.mp h
    exact Option.some.inj ht ▸ .interrupt hpending hthread
  | handle thread i =>
    change chldSignalHandler cap s thread i = some t at h
    unfold chldSignalHandler at h
    split at h
    · next hthread =>
      split_ifs at h with hnone
      · exact Option.some.inj h ▸ .returns hthread hnone
      · obtain ⟨w, hw, rfl⟩ := Option.map_eq_some_iff.mp h
        exact .waits hthread hw
    · next w hthread =>
      obtain ⟨hroom, ht⟩ := Option.ite_none_right_eq_some.mp h
      exact Option.some.inj ht ▸ .writes hthread hroom
    · cases h
  | slot =>
    obtain ⟨hmain, h⟩ := Option.ite_none_right_eq_some.mp h
    unfold slotHandleSigChld at h
    split at h
    · next w hslot => exact Option.some.inj h ▸ .emits hmain hslot
    · next w socket hslot hsocket => exact Option.some.inj h ▸ .reads hmain hslot hsocket
    · cases h

/-- A step loses no child and makes none. -/
theorem Moves.countP_places {cap : Nat} {s t : SignalDispatcher} {e : DispatcherEvent} (h : Moves cap s e t)
    (p : Waitable → Bool) : t.places.countP p = s.places.countP p + e.arrived.countP p := by
  simp only [SignalDispatcher.countP_places]
  cases h with
  | arrives w =>
    simp only [List.countP_append, DispatcherEvent.arrived]
    omega
  | otherWait hw =>
    have herase := countP_eraseIdx hw p
    simp only [List.countP_append, DispatcherEvent.arrived, List.countP_nil]
    omega
  | interrupt _ hthread =>
    have hset := Histogram.sum_map_set (fun h => h.held.countP p) hthread .waiting
    simp only [Handler.held_outside, Handler.held_waiting, List.countP_nil] at hset
    simp only [DispatcherEvent.arrived, List.countP_nil]
    omega
  | returns hthread _ =>
    have hset := Histogram.sum_map_set (fun h => h.held.countP p) hthread .outside
    simp only [Handler.held_outside, Handler.held_waiting, List.countP_nil] at hset
    simp only [DispatcherEvent.arrived, List.countP_nil]
    omega
  | @waits _ _ w hthread hw =>
    have herase := countP_eraseIdx hw p
    have hset := Histogram.sum_map_set (fun h => h.held.countP p) hthread (.writing w)
    simp only [Handler.held_waiting, Handler.held_writing, List.countP_nil] at hset
    simp only [DispatcherEvent.arrived, List.countP_nil]
    omega
  | writes hthread _ =>
    have hset := Histogram.sum_map_set (fun h => h.held.countP p) hthread .waiting
    simp only [Handler.held_waiting, Handler.held_writing, List.countP_nil] at hset
    simp only [List.countP_append, DispatcherEvent.arrived, List.countP_nil]
    omega
  | @reads w socket _ hslot hsocket =>
    simp only [hslot, hsocket, Option.toList_none, Option.toList_some, List.countP_cons, List.countP_nil,
      DispatcherEvent.arrived]
    omega
  | emits _ hslot =>
    simp only [hslot, Option.toList_none, Option.toList_some, List.countP_append, List.countP_nil,
      DispatcherEvent.arrived]
    omega

/-- Each step of the dispatcher brings it nearer to its rest. -/
theorem Moves.weight {cap : Nat} {s t : SignalDispatcher} {e : DispatcherEvent} (h : Moves cap s e t)
    (hown : e.own = true) : t.weight + 1 = s.weight := by
  unfold SignalDispatcher.weight
  cases h with
  | arrives w => cases hown
  | otherWait hw => cases hown
  | interrupt hpending hthread =>
    have hset := Histogram.sum_map_set Handler.weight hthread .waiting
    simp only [Handler.weight] at hset
    simp only [hpending, Bool.toNat_true, Bool.toNat_false]
    omega
  | returns hthread hnone =>
    have hset := Histogram.sum_map_set Handler.weight hthread .outside
    simp only [Handler.weight] at hset
    dsimp only
    omega
  | @waits _ i w hthread hw =>
    have hset := Histogram.sum_map_set Handler.weight hthread (.writing w)
    have hlt := (List.getElem?_eq_some_iff.mp hw).1
    simp only [Handler.weight] at hset
    simp only [List.length_eraseIdx_of_lt hlt]
    omega
  | writes hthread _ =>
    have hset := Histogram.sum_map_set Handler.weight hthread .waiting
    simp only [Handler.weight] at hset
    simp only [List.length_append, List.length_singleton]
    omega
  | reads _ hslot hsocket =>
    simp only [hslot, hsocket, Option.toList_none, Option.toList_some, List.length_cons, List.length_nil]
    omega
  | emits _ hslot =>
    simp only [hslot, Option.toList_none, Option.toList_some, List.length_singleton, List.length_nil]

/-- An end that was not waited for has raised a signal, or a handler will still wait for it. -/
def Announced (s : SignalDispatcher) : Prop :=
  (∃ w ∈ s.waiting, w.raises = true) → s.pending = true ∨ ∃ h ∈ s.handlers, h ≠ .outside

theorem Moves.announced {cap : Nat} {s t : SignalDispatcher} {e : DispatcherEvent} (h : Moves cap s e t)
    (hs : s.Announced) : t.Announced := by
  rintro ⟨w, hw, hraises⟩
  have hinside : ∀ {thread : Nat} {now : Handler}, s.handlers[thread]? = some now → ∀ {next : Handler},
      next ≠ .outside → ∃ h ∈ s.handlers.set thread next, h ≠ .outside := by
    intro thread now hthread next hnext
    exact ⟨next, List.mem_set (List.getElem?_eq_some_iff.mp hthread).1 next, hnext⟩
  cases h with
  | arrives v =>
    rcases List.mem_append.mp hw with hold | hnew
    · exact (hs ⟨w, hold, hraises⟩).imp_left fun hp => by simp [hp]
    · obtain rfl := List.mem_singleton.mp hnew
      exact .inl (by simp [hraises])
  | otherWait _ => exact hs ⟨w, List.mem_of_mem_eraseIdx hw, hraises⟩
  | interrupt _ hthread => exact .inr (hinside hthread (by simp))
  | returns _ hnone => exact absurd hw (by simp [hnone])
  | waits hthread _ => exact .inr (hinside hthread (by simp))
  | writes hthread _ => exact .inr (hinside hthread (by simp))
  | reads _ _ _ => exact hs ⟨w, hw, hraises⟩
  | emits _ _ => exact hs ⟨w, hw, hraises⟩

theorem Moves.threads {cap : Nat} {s t : SignalDispatcher} {e : DispatcherEvent} (h : Moves cap s e t) :
    t.handlers.length = s.handlers.length := by
  cases h <;> simp

/-! ## Whole runs -/

def start (threads : Nat) : SignalDispatcher where
  handlers := List.replicate threads .outside

def arrivals (events : List DispatcherEvent) : List Waitable := events.flatMap DispatcherEvent.arrived

theorem arrivals_cons (e : DispatcherEvent) (events : List DispatcherEvent) :
    arrivals (e :: events) = e.arrived ++ arrivals events := rfl

theorem run_keeps {cap : Nat} {s t : SignalDispatcher} {events : List DispatcherEvent} (hs : s.Announced)
    (hrun : PartialStep.run (step cap) s events = some t) :
    (∀ p, t.places.countP p = s.places.countP p + (arrivals events).countP p) ∧ t.Announced ∧
      t.handlers.length = s.handlers.length := by
  induction events generalizing s with
  | nil =>
    cases hrun
    exact ⟨fun _ => rfl, hs, rfl⟩
  | cons e events ih =>
    rw [PartialStep.run_cons] at hrun
    obtain ⟨u, hu, hrun⟩ := Option.bind_eq_some_iff.mp hrun
    have hmoves := moves_of_step hu
    obtain ⟨hcount, hannounced, hthreads⟩ := ih (hmoves.announced hs) hrun
    refine ⟨fun p => ?_, hannounced, hthreads.trans hmoves.threads⟩
    rw [hcount p, hmoves.countP_places p, arrivals_cons, List.countP_append, Nat.add_assoc]

theorem start_announced (threads : Nat) : (start threads).Announced := by
  rintro ⟨w, hw, -⟩
  cases hw

theorem countP_places_start (threads : Nat) (p : Waitable → Bool) : (start threads).places.countP p = 0 := by
  simp [places, start]

/-- Without new children the steps are counted beforehand. -/
theorem run_own {cap : Nat} {s t : SignalDispatcher} {events : List DispatcherEvent}
    (hown : ∀ e ∈ events, e.own = true) (hrun : PartialStep.run (step cap) s events = some t) :
    events.length + t.weight = s.weight := by
  induction events generalizing s with
  | nil =>
    cases hrun
    exact Nat.zero_add _
  | cons e events ih =>
    obtain ⟨he, hown⟩ := List.forall_mem_cons.mp hown
    rw [PartialStep.run_cons] at hrun
    obtain ⟨u, hu, hrun⟩ := Option.bind_eq_some_iff.mp hrun
    have hweight := (moves_of_step hu).weight he
    have hrest := ih hown hrun
    rw [List.length_cons]
    omega

theorem arrivals_own {events : List DispatcherEvent} (hown : ∀ e ∈ events, e.own = true) : arrivals events = [] := by
  rw [arrivals, List.flatMap_eq_nil_iff]
  intro e he
  have := hown e he
  cases e <;> first | rfl | cases this

/-! ## At rest -/

/-- The dispatcher has nothing to do. -/
def AtRest (cap : Nat) (s : SignalDispatcher) : Prop := ∀ e, e.own = true → step cap s e = none

/-- The thread of the event loop is in the handler, and the socket it would have to empty is full. -/
def Stuck (cap : Nat) (s : SignalDispatcher) : Prop :=
  (∃ w, s.handlers[0]? = some (.writing w)) ∧ cap ≤ s.socket.length

theorem AtRest.not_waiting {cap : Nat} {s : SignalDispatcher} (h : s.AtRest cap) (thread : Nat) :
    s.handlers[thread]? ≠ some .waiting := by
  intro hthread
  have hstep := h (.handle thread 0) rfl
  rw [step, chldSignalHandler, hthread] at hstep
  cases hwaiting : s.waiting with
  | nil => simp [hwaiting] at hstep
  | cons w waiting => simp [hwaiting] at hstep

theorem AtRest.full {cap : Nat} {s : SignalDispatcher} (h : s.AtRest cap) {thread : Nat} {w : Waitable}
    (hthread : s.handlers[thread]? = some (.writing w)) : cap ≤ s.socket.length := by
  have hstep := h (.handle thread 0) rfl
  rw [step, chldSignalHandler, hthread] at hstep
  by_contra hroom
  simp [Nat.not_le.mp hroom] at hstep

/-- Unless it is stuck, the dispatcher rests only when everything is told that was announced. -/
theorem AtRest.stuck_or_idle {cap : Nat} {s : SignalDispatcher} (h : s.AtRest cap) (hcap : 0 < cap)
    (hthreads : 0 < s.handlers.length) :
    s.Stuck cap ∨
      (s.pending = false ∧ (∀ now ∈ s.handlers, now = .outside) ∧ s.socket = [] ∧ s.slot = none) := by
  have hget := List.getElem?_eq_getElem hthreads
  cases hmain : s.handlers[0] with
  | waiting => exact absurd (hget.trans (congrArg some hmain)) (h.not_waiting 0)
  | writing w =>
    rw [hmain] at hget
    exact .inl ⟨⟨w, hget⟩, h.full hget⟩
  | outside =>
    rw [hmain] at hget
    have hpending : s.pending = false := by
      have hstep := h (.interrupt 0) rfl
      simpa [step, hget] using hstep
    have hslot := h .slot rfl
    rw [step, if_pos hget, slotHandleSigChld] at hslot
    split at hslot
    · cases hslot
    · cases hslot
    · next hnone hempty =>
      refine .inr ⟨hpending, ?_, hempty, hnone⟩
      intro now hnow
      obtain ⟨thread, hthread⟩ := List.mem_iff_getElem?.mp hnow
      cases now with
      | outside => rfl
      | waiting => exact absurd hthread (h.not_waiting thread)
      | writing w =>
        have hfull := h.full hthread
        rw [hempty, List.length_nil] at hfull
        omega

end SignalDispatcher

/-! ## What the processes are told -/

namespace Waitable

/-- The end of a child with this pid. -/
def endOf (pid : Int) : Waitable → Bool
  | .ended child => child.1 = pid
  | .stopped _ => false

/-- A stop of one. -/
def stopOf (pid : Int) : Waitable → Bool
  | .ended _ => false
  | .stopped child => child.1 = pid

end Waitable

/-- A process passes on each note with its pid. -/
theorem SignallingProcess.count_notify (o : SignallingProcess) (notes : List ChildExit) :
    (notes.foldl notify o).signals.count .procTerminated =
      o.signals.count .procTerminated + notes.countP fun note => decide (note.1 = o.getPid) := by
  induction notes generalizing o with
  | nil => rfl
  | cons note notes ih =>
    rw [List.foldl_cons, ih, notify_getPid]
    by_cases hpid : note.1 = o.getPid
    · have hown : o.notify note = o.signal .procTerminated := if_pos hpid
      rw [hown, signal, List.count_append, List.count_singleton_self, List.countP_cons_of_pos (by simpa using hpid)]
      omega
    · rw [notify_other hpid, List.countP_cons_of_neg (by simpa using hpid)]

namespace SignalDispatcher

theorem count_notify (s : SignalDispatcher) (o : SignallingProcess) :
    (s.notify o).signals.count .procTerminated =
      o.signals.count .procTerminated + s.told.countP (Waitable.endOf o.getPid) +
        s.told.countP (Waitable.stopOf o.getPid) := by
  rw [notify, SignallingProcess.count_notify, List.countP_map, Nat.add_assoc]
  congr 1
  induction s.told with
  | nil => rfl
  | cons w told ih =>
    rw [List.countP_cons, List.countP_cons, List.countP_cons, ih]
    cases w with
    | ended child =>
      by_cases hpid : child.1 = o.getPid
      · simp [Waitable.endOf, Waitable.stopOf, Waitable.info, hpid]
        omega
      · simp [Waitable.endOf, Waitable.stopOf, Waitable.info, hpid]
    | stopped child =>
      by_cases hpid : child.1 = o.getPid
      · simp [Waitable.endOf, Waitable.stopOf, Waitable.info, hpid]
        omega
      · simp [Waitable.endOf, Waitable.stopOf, Waitable.info, hpid]

/-- Once no more children come, the dispatcher rests after a number of steps that is known beforehand. If it is not
stuck then, a process was told its end once for every end of a child with its pid, save those that another thread
waited for, and once more for every stop that the handler was quicker to wait for. -/
theorem ends_told {cap threads : Nat} (hcap : 0 < cap) (hthreads : 0 < threads) {events own : List DispatcherEvent}
    {s t : SignalDispatcher} (hrun : PartialStep.run (step cap) (start threads) events = some s)
    (hown : ∀ e ∈ own, e.own = true) (hsettle : PartialStep.run (step cap) s own = some t) :
    own.length + t.weight = s.weight ∧
      (t.AtRest cap → t.Stuck cap ∨ ∀ o : SignallingProcess,
        (t.notify o).signals.count .procTerminated + t.elsewhere.countP (Waitable.endOf o.getPid) =
          o.signals.count .procTerminated + (arrivals events).countP (Waitable.endOf o.getPid) +
            t.told.countP (Waitable.stopOf o.getPid)) := by
  refine ⟨run_own hown hsettle, ?_⟩
  intro hrest
  obtain ⟨hbefore, hannounced, hlength⟩ := run_keeps (start_announced threads) hrun
  obtain ⟨hafter, hannounced, hlength'⟩ := run_keeps hannounced hsettle
  rcases hrest.stuck_or_idle hcap (by simp [hlength', hlength, start, hthreads]) with
    hstuck | ⟨hpending, houtside, hsocket, hslot⟩
  · exact .inl hstuck
  · refine .inr fun o => ?_
    have hheld : t.handlers.flatMap Handler.held = [] := by
      rw [List.flatMap_eq_nil_iff]
      intro now hnow
      rw [houtside now hnow, Handler.held_outside]
    have hwaiting : t.waiting.countP (Waitable.endOf o.getPid) = 0 := by
      rw [List.countP_eq_zero]
      intro w hw hend
      have hraises : w.raises = true := by cases w <;> first | rfl | cases hend
      rcases hannounced ⟨w, hw, hraises⟩ with hp | ⟨now, hnow, hinside⟩
      · simp [hpending] at hp
      · exact hinside (houtside now hnow)
    have hplaces := hafter (Waitable.endOf o.getPid)
    rw [hbefore, arrivals_own hown, countP_places_start] at hplaces
    simp only [places, hheld, hsocket, hslot, List.countP_append, Option.toList_none, List.countP_nil, hwaiting]
      at hplaces
    rw [count_notify]
    omega

/-- Child 7 ends, and the handler interrupts the only thread. -/
def oneEnd : List DispatcherEvent := [.arrives (.ended (7, 0)), .interrupt 0]

def interrupted : SignalDispatcher where
  handlers := [.waiting]
  waiting := [.ended (7, 0)]

theorem run_oneEnd : PartialStep.run (step 1) (start 1) oneEnd = some interrupted := rfl

/-- The handler waits for the child, writes the note, finds no other child, and the slot runs. -/
def oneNotice : List DispatcherEvent := [.handle 0 0, .handle 0 0, .handle 0 0, .slot, .slot]

theorem own_oneNotice : ∀ e ∈ oneNotice, e.own = true := by decide

def noticed : SignalDispatcher where
  handlers := [.outside]
  told := [.ended (7, 0)]

theorem run_oneNotice : PartialStep.run (step 1) interrupted oneNotice = some noticed := rfl

theorem atRest_noticed : noticed.AtRest 1 := by
  intro e he
  cases e with
  | arrives w => cases he
  | otherWait i => cases he
  | interrupt thread => rfl
  | handle thread i =>
    cases thread with
    | zero => rfl
    | succ thread => rfl
  | slot => rfl

theorem not_stuck_noticed : ¬ noticed.Stuck 1 := by
  rintro ⟨⟨w, hwriting⟩, -⟩
  cases hwriting

/-- A process with pid 7 that has been told nothing yet is told once. -/
theorem ends_told_one :
    oneNotice.length + noticed.weight = interrupted.weight ∧
      (noticed.notify { pid := 7 }).signals.count .procTerminated = 1 := by
  obtain ⟨hlength, htold⟩ := ends_told Nat.one_pos Nat.one_pos run_oneEnd own_oneNotice run_oneNotice
  exact ⟨hlength, (htold atRest_noticed).resolve_left not_stuck_noticed { pid := 7 }⟩

/-- The event loop waits for its own handler. -/
theorem Moves.stuck {cap : Nat} {s t : SignalDispatcher} {e : DispatcherEvent} (h : Moves cap s e t)
    (hs : s.Stuck cap) : t.Stuck cap ∧ t.told = s.told := by
  obtain ⟨⟨w, hmain⟩, hfull⟩ := hs
  have hother : ∀ {thread : Nat} {now : Handler}, s.handlers[thread]? = some now → now ≠ .writing w →
      ∀ next, (s.handlers.set thread next)[0]? = some (.writing w) := by
    intro thread now hthread hnow next
    have hne : thread ≠ 0 := by
      rintro rfl
      exact hnow (Option.some.inj (hthread.symm.trans hmain))
    rw [List.getElem?_set_ne hne, hmain]
  cases h with
  | arrives v => exact ⟨⟨⟨w, hmain⟩, hfull⟩, rfl⟩
  | otherWait _ => exact ⟨⟨⟨w, hmain⟩, hfull⟩, rfl⟩
  | interrupt _ hthread => exact ⟨⟨⟨w, hother hthread (by simp) _⟩, hfull⟩, rfl⟩
  | returns hthread _ => exact ⟨⟨⟨w, hother hthread (by simp) _⟩, hfull⟩, rfl⟩
  | waits hthread _ => exact ⟨⟨⟨w, hother hthread (by simp) _⟩, hfull⟩, rfl⟩
  | writes _ hroom => exact absurd hfull (Nat.not_le.mpr hroom)
  | reads houtside _ _ => simp [hmain] at houtside
  | emits houtside _ => simp [hmain] at houtside

theorem run_stuck {cap : Nat} {s t : SignalDispatcher} {events : List DispatcherEvent} (hs : s.Stuck cap)
    (hrun : PartialStep.run (step cap) s events = some t) : t.Stuck cap ∧ t.told = s.told := by
  induction events generalizing s with
  | nil =>
    cases hrun
    exact ⟨hs, rfl⟩
  | cons e events ih =>
    rw [PartialStep.run_cons] at hrun
    obtain ⟨u, hu, hrun⟩ := Option.bind_eq_some_iff.mp hrun
    obtain ⟨hstuck, htold⟩ := (moves_of_step hu).stuck hs
    obtain ⟨hstuck', htold'⟩ := ih hstuck hrun
    exact ⟨hstuck', htold'.trans htold⟩

/-- A stuck dispatcher has more notes on their way than the socket holds. -/
theorem Stuck.lt_places {cap : Nat} {s : SignalDispatcher} (h : s.Stuck cap) :
    s.told.length + s.elsewhere.length + cap < s.places.length := by
  obtain ⟨⟨w, hmain⟩, hfull⟩ := h
  have hmem : w ∈ s.handlers.flatMap Handler.held := by
    rw [List.mem_flatMap]
    exact ⟨_, List.mem_of_getElem? hmain, by simp⟩
  have hheld := List.length_pos_of_mem hmem
  simp only [places, List.length_append]
  omega

/-- Once the event loop is stuck no process is told anything any more, whatever happens; and it gets stuck only while
more children than the socket holds wait to be told. -/
theorem stuck_forever {cap threads : Nat} {before after : List DispatcherEvent} {s t : SignalDispatcher}
    (hrun : PartialStep.run (step cap) (start threads) before = some s) (hstuck : s.Stuck cap)
    (hafter : PartialStep.run (step cap) s after = some t) :
    (t.Stuck cap ∧ ∀ o, t.notify o = s.notify o) ∧
      s.told.length + s.elsewhere.length + cap < (arrivals before).length := by
  obtain ⟨hstuck', htold⟩ := run_stuck hstuck hafter
  refine ⟨⟨hstuck', fun o => by rw [notify, htold, notify]⟩, ?_⟩
  have hplaces := (run_keeps (start_announced threads) hrun).1 (fun _ => true)
  rw [countP_places_start] at hplaces
  simp only [List.countP_true, Nat.zero_add] at hplaces
  rw [← hplaces]
  exact hstuck.lt_places

/-- Two children end at once, and the socket takes one note. -/
def twoEnds : List DispatcherEvent :=
  [.arrives (.ended (7, 0)), .arrives (.ended (8, 0)), .interrupt 0, .handle 0 0, .handle 0 0, .handle 0 0]

def blocked : SignalDispatcher where
  handlers := [.writing (.ended (8, 0))]
  socket := [.ended (7, 0)]

theorem run_twoEnds : PartialStep.run (step 1) (start 1) twoEnds = some blocked := rfl

theorem stuck_blocked : blocked.Stuck 1 := ⟨⟨_, rfl⟩, Nat.le_refl 1⟩

/-- A third one ends. -/
def stillBlocked : SignalDispatcher where
  handlers := [.writing (.ended (8, 0))]
  waiting := [.ended (9, 0)]
  pending := true
  socket := [.ended (7, 0)]

theorem run_stillBlocked : PartialStep.run (step 1) blocked [.arrives (.ended (9, 0))] = some stillBlocked := rfl

theorem stuck_forever_two :
    (stillBlocked.Stuck 1 ∧ ∀ o, stillBlocked.notify o = blocked.notify o) ∧
      blocked.told.length + blocked.elsewhere.length + 1 < (arrivals twoEnds).length :=
  stuck_forever run_twoEnds stuck_blocked run_stillBlocked

end SignalDispatcher

end AutopinPlus
