import AutopinPlus.PerformanceMonitor

/-!
# The counters of a GPerf monitor

A GPerf monitor opens one descriptor for each processor of a thread and keeps them in
`threads`. `start` may give up between two of them and `stop` may return before `clear`; the
map and the history of the kernel stay in step on every way out.
-/
namespace AutopinPlus

variable {D : Type}

/-! ## Histories of descriptors -/

namespace DescriptorEvent

def fd : DescriptorEvent → Int
  | .opened fd => fd
  | .closed fd => fd

/-- The last event about the descriptor is its opening; the history has the latest event first. -/
def IsOpen (es : List DescriptorEvent) (x : Int) : Prop := es.find? (fun e => e.fd = x) = some (.opened x)

instance (es : List DescriptorEvent) (x : Int) : Decidable (IsOpen es x) :=
  inferInstanceAs (Decidable (_ = _))

/-- No descriptor is opened that is open already. -/
def Fresh : List DescriptorEvent → Prop
  | [] => True
  | .opened x :: es => ¬ IsOpen es x ∧ Fresh es
  | .closed _ :: es => Fresh es

/-- Only descriptors that are open are closed. -/
def ClosedOnce : List DescriptorEvent → Prop
  | [] => True
  | .opened _ :: es => ClosedOnce es
  | .closed x :: es => IsOpen es x ∧ ClosedOnce es

def decidableFresh : (es : List DescriptorEvent) → Decidable (Fresh es)
  | [] => inferInstanceAs (Decidable True)
  | .opened x :: es =>
    have := decidableFresh es
    inferInstanceAs (Decidable (¬ IsOpen es x ∧ Fresh es))
  | .closed _ :: es => decidableFresh es

instance (es : List DescriptorEvent) : Decidable (Fresh es) := decidableFresh es

@[simp] theorem not_isOpen_nil (x : Int) : ¬ IsOpen [] x := by simp [IsOpen]

@[simp] theorem isOpen_opened (es : List DescriptorEvent) (a x : Int) :
    IsOpen (.opened a :: es) x ↔ x = a ∨ IsOpen es x := by
  by_cases h : a = x
  · simp [IsOpen, fd, h]
  · simp [IsOpen, fd, h, Ne.symm h]

@[simp] theorem isOpen_closed (es : List DescriptorEvent) (a x : Int) :
    IsOpen (.closed a :: es) x ↔ x ≠ a ∧ IsOpen es x := by
  by_cases h : a = x
  · simp [IsOpen, fd, h]
  · simp [IsOpen, fd, h, Ne.symm h]

theorem Fresh.of_append {new es : List DescriptorEvent} (h : Fresh (new ++ es)) : Fresh es := by
  induction new with
  | nil => exact h
  | cons e new ih =>
    cases e with
    | opened x => exact ih h.2
    | closed x => exact ih h

end DescriptorEvent

namespace GPerf

open DescriptorEvent

inductive Call where
  | start (thread : Int)
  | value (thread : Int)
  | stop (thread : Int)
  | clear (thread : Int)
  deriving DecidableEq, Repr

section

variable [Zero D] [Add D] [Mul D] [NatCast D]

def call (k : Kernel D) (s : Session (GPerf D)) : Call → Session (GPerf D)
  | .start thread => start k thread s
  | .value thread => (value k thread s).2
  | .stop thread => (stop k thread s).2
  | .clear thread => clear k thread s

end

/-- The descriptors the monitor has opened and not closed are those it lists, each once and under
one thread; a thread has at least one. -/
structure Owns (s : Session (GPerf D)) : Prop where
  held : ∀ x, IsOpen s.host.descriptors x ↔ ∃ thread, x ∈ s.self.fds thread
  once : ∀ thread, (s.self.fds thread).Nodup
  apart : ∀ thread thread' x, x ∈ s.self.fds thread → x ∈ s.self.fds thread' → thread = thread'
  nonempty : ∀ thread ∈ s.self.threads, s.self.fds thread ≠ []
  closedOnce : ClosedOnce s.host.descriptors

variable {k : Kernel D} {s t : Session (GPerf D)}

theorem mem_threads_of_mem_fds {m : GPerf D} {thread x : Int} (hx : x ∈ m.fds thread) :
    thread ∈ m.threads := by
  by_contra hmem
  rw [fds, AList.lookup_eq_none.mpr hmem] at hx
  cases hx

theorem Owns.of_same (h : Owns s) (hself : t.self = s.self) (hhost : t.host.descriptors = s.host.descriptors) :
    Owns t := by
  refine ⟨?_, ?_, ?_, ?_, ?_⟩
  · rw [hself, hhost]
    exact h.held
  · rw [hself]
    exact h.once
  · rw [hself]
    exact h.apart
  · rw [hself]
    exact h.nonempty
  · rw [hhost]
    exact h.closedOnce

/-! ## Opening -/

@[simp] theorem append_fds (thread x : Int) (s : Session (GPerf D)) (thread' : Int) :
    (append thread x s).self.fds thread' =
      if thread' = thread then s.self.fds thread ++ [x] else s.self.fds thread' := by
  by_cases h : thread' = thread
  · subst h
    simp [append, fds]
  · simp [append, fds, h, AList.lookup_insert_ne h]

/-- A new descriptor is entered under the thread it was opened for. -/
theorem mem_append_fds (s : Session (GPerf D)) (thread x : Int) (thread' y : Int) :
    y ∈ (append thread x s).self.fds thread' ↔ (y = x ∧ thread' = thread) ∨ y ∈ s.self.fds thread' := by
  rw [append_fds]
  by_cases ht : thread' = thread
  · simp [ht, or_comm]
  · simp [ht]

theorem Owns.append (h : Owns s) {thread x : Int} {host : Host}
    (hhost : host.descriptors = .opened x :: s.host.descriptors) (hnew : ¬ IsOpen s.host.descriptors x) :
    Owns (append thread x { s with host := host }) := by
  have hout : ∀ thread', x ∉ s.self.fds thread' := fun thread' hx => hnew ((h.held x).mpr ⟨thread', hx⟩)
  refine ⟨?_, ?_, ?_, ?_, ?_⟩
  · intro y
    simp only [mem_append_fds]
    rw [show (GPerf.append thread x { s with host := host }).host.descriptors = _ from hhost, isOpen_opened,
      h.held]
    constructor
    · rintro (rfl | ⟨thread', hy⟩)
      · exact ⟨thread, .inl ⟨rfl, rfl⟩⟩
      · exact ⟨thread', .inr hy⟩
    · rintro ⟨thread', ⟨rfl, -⟩ | hy⟩
      · exact .inl rfl
      · exact .inr ⟨thread', hy⟩
  · intro thread'
    rw [append_fds]
    split
    · exact List.nodup_append_comm.mp (List.nodup_cons.mpr ⟨hout thread, h.once thread⟩)
    · exact h.once thread'
  · intro a b y ha hb
    rw [mem_append_fds] at ha hb
    rcases ha with ⟨hax, ha⟩ | ha <;> rcases hb with ⟨hbx, hb⟩ | hb
    · exact ha.trans hb.symm
    · exact absurd (hax ▸ hb) (hout b)
    · exact absurd (hbx ▸ ha) (hout a)
    · exact h.apart a b y ha hb
  · intro thread' hmem
    rw [append_fds]
    split
    · simp
    · rename_i hne
      refine h.nonempty thread' ?_
      simpa [GPerf.append, AList.mem_insert, hne] using hmem
  · rw [show (GPerf.append thread x { s with host := host }).host.descriptors = _ from hhost]
    exact h.closedOnce

/-- What one attempt to open a descriptor leaves. -/
theorem perfEventOpen_descriptors (k : Kernel D) (pid cpu : Int) (h : Host) :
    (h.perfEventOpen k pid cpu).2.descriptors =
      if 0 ≤ (h.perfEventOpen k pid cpu).1 then .opened (h.perfEventOpen k pid cpu).1 :: h.descriptors
      else h.descriptors := rfl

/-- One pass of the creation loop: a descriptor is opened by one of the two calls, or the loop ends. -/
theorem openAll_cons (k : Kernel D) (thread processor : Int) (rest : List Int) (s : Session (GPerf D)) :
    (∃ x host, host.descriptors = .opened x :: s.host.descriptors ∧
      openAll k thread (processor :: rest) s =
        openAll k thread rest (append thread x { s with host := host })) ∨
    ∃ host msg, host.descriptors = s.host.descriptors ∧
      openAll k thread (processor :: rest) s = (false, { s with host := host }.report "create" msg) := by
  have hfirst := perfEventOpen_descriptors k thread processor s.host
  have hsecond := perfEventOpen_descriptors k (-1) processor (s.host.perfEventOpen k thread processor).2
  simp only [openAll]
  split
  · rename_i hok
    rw [if_pos hok] at hfirst
    exact .inl ⟨_, _, hfirst, rfl⟩
  · rename_i hbad
    rw [if_neg hbad] at hfirst
    split
    · rename_i hok
      rw [if_pos hok, hfirst] at hsecond
      exact .inl ⟨_, _, hsecond, rfl⟩
    · rename_i hbad'
      rw [if_neg hbad', hfirst] at hsecond
      exact .inr ⟨_, _, hsecond, rfl⟩

theorem openAll_extends (k : Kernel D) (thread : Int) (processors : List Int) (s : Session (GPerf D)) :
    ∃ new, (openAll k thread processors s).2.host.descriptors = new ++ s.host.descriptors := by
  induction processors generalizing s with
  | nil => exact ⟨[], rfl⟩
  | cons processor rest ih =>
    rcases openAll_cons k thread processor rest s with ⟨x, host, hhost, he⟩ | ⟨host, msg, hhost, he⟩
    · obtain ⟨new, hnew⟩ := ih (append thread x { s with host := host })
      refine ⟨new ++ [.opened x], ?_⟩
      rw [he, hnew, List.append_assoc]
      exact congrArg (new ++ ·) hhost
    · rw [he]
      exact ⟨[], hhost⟩

theorem openAll_owns {thread : Int} {processors : List Int} (hs : Owns s)
    (hfresh : Fresh (openAll k thread processors s).2.host.descriptors) :
    Owns (openAll k thread processors s).2 := by
  induction processors generalizing s with
  | nil => exact hs
  | cons processor rest ih =>
    rcases openAll_cons k thread processor rest s with ⟨x, host, hhost, he⟩ | ⟨host, msg, hhost, he⟩
    · rw [he] at hfresh ⊢
      have hnew : ¬ IsOpen s.host.descriptors x := by
        obtain ⟨new, hnew⟩ := openAll_extends k thread rest (append thread x { s with host := host })
        rw [hnew] at hfresh
        have hlast := hfresh.of_append
        rw [show (append thread x { s with host := host }).host.descriptors = _ from hhost] at hlast
        exact hlast.1
      exact ih (hs.append hhost hnew) hfresh
    · rw [he]
      exact hs.of_same rfl hhost

/-! ## Requests and reads -/

theorem ioctlAll_descriptors (k : Kernel D) (request : PerfRequest) (fds : List Int) (h : Host) :
    (ioctlAll k request fds h).2.descriptors = h.descriptors := by
  induction fds generalizing h with
  | nil => rfl
  | cons x rest ih =>
    simp only [ioctlAll]
    split
    · rfl
    · rw [ih]
      rfl

/-- `restart` and the end of `start` only make requests. -/
theorem restart_frame (k : Kernel D) (thread : Int) (s : Session (GPerf D)) :
    (restart k thread s).self = s.self ∧ (restart k thread s).host.descriptors = s.host.descriptors := by
  have hdisable := ioctlAll_descriptors k .disable (s.self.fds thread) s.host
  have hreset := (ioctlAll_descriptors k .reset (s.self.fds thread) _).trans hdisable
  have henable := (ioctlAll_descriptors k .enable (s.self.fds thread) _).trans hreset
  simp only [restart]
  split
  · exact ⟨rfl, hdisable⟩
  · split
    · exact ⟨rfl, hreset⟩
    · split
      · exact ⟨rfl, henable⟩
      · exact ⟨rfl, henable⟩

/-- What `start` does to the map and the kernel is what `openAll` does, for a thread that is new. -/
theorem start_frame (k : Kernel D) (thread : Int) (s : Session (GPerf D)) :
    ((start k thread s).self = s.self ∧ (start k thread s).host.descriptors = s.host.descriptors) ∨
    ((start k thread s).self = (openAll k thread s.self.targets s).2.self ∧
      (start k thread s).host.descriptors = (openAll k thread s.self.targets s).2.host.descriptors) := by
  unfold start
  split
  · exact .inl (restart_frame k thread s)
  · refine .inr ?_
    have henable := ioctlAll_descriptors k .enable ((openAll k thread s.self.targets s).2.self.fds thread)
      (openAll k thread s.self.targets s).2.host
    simp only
    split
    · exact ⟨rfl, rfl⟩
    · split
      · exact ⟨rfl, henable⟩
      · exact ⟨rfl, henable⟩

theorem start_owns (hs : Owns s) {thread : Int} (hfresh : Fresh (start k thread s).host.descriptors) :
    Owns (start k thread s) := by
  rcases start_frame k thread s with ⟨hself, hhost⟩ | ⟨hself, hhost⟩
  · exact hs.of_same hself hhost
  · have hopened : Owns (openAll k thread s.self.targets s).2 := openAll_owns hs (hhost ▸ hfresh)
    exact hopened.of_same hself hhost

section

variable [Add D] [Mul D] [NatCast D]

theorem readAll_descriptors (k : Kernel D) (scale : D) (fds : List Int) (result : D) (h : Host) :
    (readAll k scale fds result h).2.descriptors = h.descriptors := by
  induction fds generalizing result h with
  | nil => rfl
  | cons x rest ih =>
    simp only [readAll, Host.read]
    cases k.read h.clock x with
    | none => rfl
    | some raw => exact ih _ _

theorem value_frame [Zero D] (k : Kernel D) (thread : Int) (s : Session (GPerf D)) :
    (value k thread s).2.self = s.self ∧ (value k thread s).2.host.descriptors = s.host.descriptors := by
  have hread := readAll_descriptors k s.self.sensorScale (s.self.fds thread) 0 s.host
  unfold value
  split
  · split
    · rename_i heq
      rw [heq] at hread
      exact ⟨rfl, hread⟩
    · rename_i heq
      rw [heq] at hread
      exact ⟨rfl, hread⟩
  · exact ⟨rfl, rfl⟩

end

/-! ## Closing -/

theorem closeAll_extends (k : Kernel D) (fds : List Int) (h : Host) :
    ∃ new, (closeAll k fds h).2.descriptors = new ++ h.descriptors := by
  induction fds generalizing h with
  | nil => exact ⟨[], rfl⟩
  | cons x rest ih =>
    simp only [closeAll, Host.close]
    split
    · exact ⟨[], rfl⟩
    · obtain ⟨new, hnew⟩ := ih { h with clock := h.clock + 1, descriptors := .closed x :: h.descriptors }
      refine ⟨new ++ [.closed x], ?_⟩
      rw [hnew, List.append_assoc]
      rfl

/-- Closing descriptors that are open, each once: afterwards exactly the others are open. -/
theorem closeAll_closes {fds : List Int} {h : Host} (hok : (closeAll k fds h).1 = true)
    (hopen : ∀ x ∈ fds, IsOpen h.descriptors x) (hnodup : fds.Nodup) (honce : ClosedOnce h.descriptors) :
    ClosedOnce (closeAll k fds h).2.descriptors ∧
      ∀ x, IsOpen (closeAll k fds h).2.descriptors x ↔ x ∉ fds ∧ IsOpen h.descriptors x := by
  induction fds generalizing h with
  | nil => simpa [closeAll] using honce
  | cons y rest ih =>
    obtain ⟨hy, hrest⟩ := List.nodup_cons.mp hnodup
    by_cases hclose : k.close h.clock y = -1
    · simp [closeAll, Host.close, hclose] at hok
    · simp only [closeAll, Host.close, if_neg hclose] at hok ⊢
      have hstill : ∀ x ∈ rest, IsOpen (.closed y :: h.descriptors) x := by
        intro x hx
        rw [isOpen_closed]
        exact ⟨fun he => hy (he ▸ hx), hopen x (List.mem_cons_of_mem y hx)⟩
      obtain ⟨honce', hleft⟩ := ih hok hstill hrest ⟨hopen y List.mem_cons_self, honce⟩
      refine ⟨honce', fun x => ?_⟩
      rw [hleft, isOpen_closed, List.mem_cons, not_or]
      constructor
      · rintro ⟨hrest', hne, hx⟩
        exact ⟨⟨hne, hrest'⟩, hx⟩
      · rintro ⟨⟨hne, hrest'⟩, hx⟩
        exact ⟨hrest', hne, hx⟩

theorem erase_fds (m : GPerf D) (thread thread' : Int) :
    fds { m with threads := m.threads.erase thread } thread' =
      if thread' = thread then [] else m.fds thread' := by
  by_cases h : thread' = thread
  · subst h
    simp [fds]
  · simp [fds, h, AList.lookup_erase_ne h]

theorem mem_erase_fds (m : GPerf D) (thread thread' x : Int) :
    x ∈ fds { m with threads := m.threads.erase thread } thread' ↔ thread' ≠ thread ∧ x ∈ m.fds thread' := by
  rw [erase_fds]
  split
  · rename_i h
    simp [h]
  · rename_i h
    simp [h]

theorem clear_extends (k : Kernel D) (thread : Int) (s : Session (GPerf D)) :
    ∃ new, (clear k thread s).host.descriptors = new ++ s.host.descriptors := by
  simp only [clear]
  split
  · split
    · exact closeAll_extends k _ _
    · exact closeAll_extends k _ _
  · exact ⟨[], rfl⟩

theorem Owns.isOpen (hs : Owns s) {thread : Int} : ∀ x ∈ s.self.fds thread, IsOpen s.host.descriptors x :=
  fun x hx => (hs.held x).mpr ⟨thread, hx⟩

theorem clear_owns {thread : Int} (hok : (closeAll k (s.self.fds thread) s.host).1 = true) (hs : Owns s) :
    Owns (clear k thread s) := by
  obtain ⟨honce, hleft⟩ := closeAll_closes hok hs.isOpen (hs.once thread) hs.closedOnce
  unfold clear
  split
  · simp only [hok, Bool.not_true, Bool.false_eq_true, if_false]
    refine ⟨?_, ?_, ?_, ?_, honce⟩
    · intro x
      rw [hleft, hs.held]
      constructor
      · rintro ⟨hx, thread', hx'⟩
        have hne : thread' ≠ thread := by
          rintro rfl
          exact hx hx'
        exact ⟨thread', (mem_erase_fds ..).mpr ⟨hne, hx'⟩⟩
      · rintro ⟨thread', hx⟩
        obtain ⟨hne, hx⟩ := (mem_erase_fds ..).mp hx
        exact ⟨fun hx' => hne (hs.apart _ _ x hx hx'), thread', hx⟩
    · intro thread'
      rw [erase_fds]
      split
      · exact List.nodup_nil
      · exact hs.once thread'
    · intro a b x ha hb
      exact hs.apart a b x ((mem_erase_fds ..).mp ha).2 ((mem_erase_fds ..).mp hb).2
    · intro thread' hmem
      obtain ⟨hne, hmem⟩ := AList.mem_erase.mp hmem
      rw [erase_fds, if_neg hne]
      exact hs.nonempty thread' hmem
  · exact hs

/-! ## Calls -/

theorem owns_initial (hthreads : s.self.threads = ∅) (hnone : s.host.descriptors = []) : Owns s := by
  have hfds : ∀ thread, s.self.fds thread = [] := fun thread => by simp [fds, hthreads]
  refine ⟨?_, ?_, ?_, ?_, ?_⟩
  · intro x
    simp [hnone, hfds]
  · intro thread
    rw [hfds]
    exact List.nodup_nil
  · intro thread thread' x hx
    rw [hfds] at hx
    cases hx
  · intro thread hmem
    rw [hthreads] at hmem
    exact absurd hmem (AList.notMem_empty thread)
  · rw [hnone]
    trivial

section

variable [Zero D] [Add D] [Mul D] [NatCast D]

/-- `stop` is `value` and then, when no error is recorded, `clear`. -/
theorem stop_frame (k : Kernel D) (thread : Int) (s : Session (GPerf D)) :
    ((stop k thread s).2.self = s.self ∧ (stop k thread s).2.host.descriptors = s.host.descriptors) ∨
    ((stop k thread s).2.self = (clear k thread (value k thread s).2).self ∧
      (stop k thread s).2.host.descriptors = (clear k thread (value k thread s).2).host.descriptors) := by
  have hvalue := value_frame k thread s
  simp only [stop]
  split
  · exact .inl hvalue
  · refine .inr ?_
    split
    · exact ⟨rfl, rfl⟩
    · exact ⟨rfl, rfl⟩

/-- The history of the kernel only grows. -/
theorem call_extends (k : Kernel D) (s : Session (GPerf D)) (c : Call) :
    ∃ new, (call k s c).host.descriptors = new ++ s.host.descriptors := by
  cases c with
  | start thread =>
    rcases start_frame k thread s with ⟨-, hhost⟩ | ⟨-, hhost⟩
    · exact ⟨[], hhost⟩
    · obtain ⟨new, hnew⟩ := openAll_extends k thread s.self.targets s
      exact ⟨new, hhost.trans hnew⟩
  | value thread => exact ⟨[], (value_frame k thread s).2⟩
  | stop thread =>
    rcases stop_frame k thread s with ⟨-, hhost⟩ | ⟨-, hhost⟩
    · exact ⟨[], hhost⟩
    · obtain ⟨new, hnew⟩ := clear_extends k thread (value k thread s).2
      refine ⟨new, hhost.trans (hnew.trans ?_)⟩
      rw [(value_frame k thread s).2]
  | clear thread => exact clear_extends k thread s

theorem calls_extend (k : Kernel D) (s : Session (GPerf D)) (calls : List Call) :
    ∃ new, (calls.foldl (call k) s).host.descriptors = new ++ s.host.descriptors := by
  induction calls generalizing s with
  | nil => exact ⟨[], rfl⟩
  | cons c calls ih =>
    obtain ⟨new, hnew⟩ := call_extends k s c
    obtain ⟨more, hmore⟩ := ih (call k s c)
    refine ⟨more ++ new, ?_⟩
    rw [List.foldl_cons, hmore, hnew, List.append_assoc]

theorem value_owns (hs : Owns s) (thread : Int) : Owns (value k thread s).2 := by
  obtain ⟨hself, hhost⟩ := value_frame k thread s
  exact hs.of_same hself hhost

/-- A stop is a clear after a value that did not fail. -/
theorem stop_owns (hs : Owns s) {thread : Int}
    (hclear : (value k thread s).2.context.isError = false → Owns (clear k thread (value k thread s).2)) :
    Owns (stop k thread s).2 := by
  cases herror : (value k thread s).2.context.isError with
  | true =>
    simp only [stop, herror, if_true]
    exact (value_owns hs thread).of_same rfl rfl
  | false =>
    rcases stop_frame k thread s with ⟨hself, hhost⟩ | ⟨hself, hhost⟩
    · exact hs.of_same hself hhost
    · exact (hclear herror).of_same hself hhost

theorem call_owns (hclose : ∀ clock x, k.close clock x ≠ -1) (hs : Owns s) (c : Call)
    (hfresh : Fresh (call k s c).host.descriptors) : Owns (call k s c) := by
  cases c with
  | start thread => exact start_owns hs hfresh
  | value thread => exact value_owns hs thread
  | stop thread => exact stop_owns hs fun _ => clear_owns (closeAll_ok hclose _ _) (value_owns hs thread)
  | clear thread => exact clear_owns (closeAll_ok hclose _ _) hs

theorem calls_owns (hclose : ∀ clock x, k.close clock x ≠ -1) (hs : Owns s) (calls : List Call)
    (hfresh : Fresh (calls.foldl (call k) s).host.descriptors) : Owns (calls.foldl (call k) s) := by
  induction calls generalizing s with
  | nil => exact hs
  | cons c calls ih =>
    obtain ⟨new, hnew⟩ := calls_extend k (call k s c) calls
    have hnow : Fresh (call k s c).host.descriptors := by
      rw [List.foldl_cons, hnew] at hfresh
      exact hfresh.of_append
    exact ih (call_owns hclose hs c hnow) hfresh

/-- However the requests to the kernel turn out, the open counters are the listed ones, listed once
under one thread; none is closed twice and no thread has an empty list. -/
theorem counters_owned (k : Kernel D) (s : Session (GPerf D)) (calls : List Call)
    (hthreads : s.self.threads = ∅) (hnone : s.host.descriptors = [])
    (hclose : ∀ clock x, k.close clock x ≠ -1)
    (hfresh : Fresh (calls.foldl (call k) s).host.descriptors) :
    let t := calls.foldl (call k) s
    (∀ x, IsOpen t.host.descriptors x ↔ ∃ thread ∈ t.self.threads, x ∈ t.self.fds thread) ∧
    (∀ x, IsOpen t.host.descriptors x → ∃! thread, x ∈ t.self.fds thread) ∧
    (∀ thread, (t.self.fds thread).Nodup) ∧
    ClosedOnce t.host.descriptors ∧
    ∀ thread ∈ t.self.threads, t.self.fds thread ≠ [] := by
  have ht : Owns (calls.foldl (call k) s) := calls_owns hclose (owns_initial hthreads hnone) calls hfresh
  refine ⟨fun x => ?_, fun x hx => ?_, ht.once, ht.closedOnce, ht.nonempty⟩
  · rw [ht.held]
    constructor
    · rintro ⟨thread, hx⟩
      exact ⟨thread, mem_threads_of_mem_fds hx, hx⟩
    · rintro ⟨thread, -, hx⟩
      exact ⟨thread, hx⟩
  · obtain ⟨thread, hx'⟩ := (ht.held x).mp hx
    exact ⟨thread, hx', fun thread' hx'' => ht.apart thread' thread x hx'' hx'⟩

end

/-- `stop` gives up on thread 7 because of the failed `value` before it. -/
def sticky : Session (GPerf Int) :=
  [.start 7, .start 8, .value 9, .stop 7, .clear 8].foldl (call .succeeding)
    { self := { processors := [0, 1], sensorScale := 1 }, context := {}, host := {} }

theorem counters_owned_sticky :
    Fresh sticky.host.descriptors ∧
    (∀ x, IsOpen sticky.host.descriptors x ↔ ∃ thread ∈ sticky.self.threads, x ∈ sticky.self.fds thread) ∧
    sticky.self.fds 7 = [3, 4] := by
  have hfresh : Fresh sticky.host.descriptors := by decide
  exact ⟨hfresh, (counters_owned .succeeding _ _ rfl rfl (fun _ _ => by simp [Kernel.succeeding]) hfresh).1,
    by decide⟩

end GPerf

end AutopinPlus
