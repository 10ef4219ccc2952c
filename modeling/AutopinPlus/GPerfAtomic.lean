import AutopinPlus.GPerfCounters
import AutopinPlus.PartialStep

/-!
# Half-done calls of a GPerf monitor

`start` and `clear` make one request for each counter of a thread and return at the first that fails,
without undoing those before. A thread whose counters are opened or closed in part stays in the map.
-/
namespace AutopinPlus

variable {D : Type}

namespace GPerf

open DescriptorEvent

/-! ## Answers of the kernel -/

/-- No descriptor of the list is answered with -1, asked one after the other. -/
def NoneFails (answer : Nat → Int → Int) (clock : Nat) (fds : List Int) : Prop :=
  ∀ (i : Nat) (hi : i < fds.length), answer (clock + i) fds[i] ≠ -1

instance (answer : Nat → Int → Int) (clock : Nat) (fds : List Int) : Decidable (NoneFails answer clock fds) :=
  inferInstanceAs (Decidable (∀ (i : Nat) (hi : i < fds.length), answer (clock + i) fds[i] ≠ -1))

/-- Neither attempt to open a counter on the processor is granted. -/
def Refuses (k : Kernel D) (thread : Int) (clock : Nat) (processor : Int) : Prop :=
  k.perfEventOpen clock thread processor < 0 ∧ k.perfEventOpen (clock + 1) (-1) processor < 0

/-- One attempt for each processor is granted, with these descriptors and until this time. -/
inductive Opens (k : Kernel D) (thread : Int) : Nat → List Int → Nat → List Int → Prop
  | nil {clock} : Opens k thread clock [] clock []
  | own {clock clock' processor rest fds} (h : 0 ≤ k.perfEventOpen clock thread processor)
      (hrest : Opens k thread (clock + 1) rest clock' fds) :
      Opens k thread clock (processor :: rest) clock' (k.perfEventOpen clock thread processor :: fds)
  | systemWide {clock clock' processor rest fds} (h : k.perfEventOpen clock thread processor < 0)
      (h' : 0 ≤ k.perfEventOpen (clock + 1) (-1) processor)
      (hrest : Opens k thread (clock + 2) rest clock' fds) :
      Opens k thread clock (processor :: rest) clock' (k.perfEventOpen (clock + 1) (-1) processor :: fds)

/-- Every processor gets its counter, and every counter is enabled. -/
def Grants (k : Kernel D) (thread : Int) (clock : Nat) (processors : List Int) : Prop :=
  ∃ clock' fds, Opens k thread clock processors clock' fds ∧
    NoneFails (fun clock fd => k.ioctl clock fd .enable) clock' fds

theorem noneFails_cons {answer : Nat → Int → Int} {clock : Nat} {x : Int} {rest : List Int} :
    NoneFails answer clock (x :: rest) ↔ answer clock x ≠ -1 ∧ NoneFails answer (clock + 1) rest := by
  constructor
  · intro h
    refine ⟨h 0 (Nat.zero_lt_succ _), fun i hi => ?_⟩
    have hnext := h (i + 1) (Nat.succ_lt_succ hi)
    rwa [← Nat.add_assoc, Nat.add_right_comm] at hnext
  · rintro ⟨hfirst, hrest⟩ i hi
    cases i with
    | zero => exact hfirst
    | succ i =>
      have hnext := hrest i (Nat.lt_of_succ_lt_succ hi)
      rwa [Nat.add_right_comm, Nat.add_assoc] at hnext

theorem ioctlAll_iff (k : Kernel D) (request : PerfRequest) (fds : List Int) (h : Host) :
    (ioctlAll k request fds h).1 = true ↔ NoneFails (fun clock fd => k.ioctl clock fd request) h.clock fds := by
  induction fds generalizing h with
  | nil => exact iff_of_true rfl (fun i hi => absurd hi (Nat.not_lt_zero i))
  | cons x rest ih =>
    rw [noneFails_cons]
    by_cases hx : k.ioctl h.clock x request = -1
    · simp [ioctlAll, Host.ioctl, hx]
    · simp [ioctlAll, Host.ioctl, hx, ih]

theorem closeAll_iff (k : Kernel D) (fds : List Int) (h : Host) :
    (closeAll k fds h).1 = true ↔ NoneFails k.close h.clock fds := by
  induction fds generalizing h with
  | nil => exact iff_of_true rfl (fun i hi => absurd hi (Nat.not_lt_zero i))
  | cons x rest ih =>
    rw [noneFails_cons]
    by_cases hx : k.close h.clock x = -1
    · simp [closeAll, Host.close, hx]
    · simp [closeAll, Host.close, hx, ih]

/-! ## `start` -/

/-- The call reported an error. -/
def Fails (s t : Session (GPerf D)) : Prop := t.context.errors ≠ s.context.errors

/-- If `start` fails for a thread that was not monitored, it is not monitored afterwards, and no descriptor
the call has opened is still open. -/
def StartsAtomically (k : Kernel D) (thread : Int) (s : Session (GPerf D)) : Prop :=
  thread ∉ s.self.threads → Fails s (start k thread s) →
    thread ∉ (start k thread s).self.threads ∧
    ∃ new, (start k thread s).host.descriptors = new ++ s.host.descriptors ∧
      ∀ x, .opened x ∈ new → ¬ IsOpen (start k thread s).host.descriptors x

/-- The first processor is refused, or nothing is. -/
def StartAdmitted (k : Kernel D) (thread : Int) (s : Session (GPerf D)) : Prop :=
  thread ∈ s.self.threads ∨
    (∃ processor, s.self.targets.head? = some processor ∧ Refuses k thread s.host.clock processor) ∨
    Grants k thread s.host.clock s.self.targets

section

variable {k : Kernel D} {thread processor : Int} {rest : List Int} {s : Session (GPerf D)}

theorem openAll_own (h : 0 ≤ k.perfEventOpen s.host.clock thread processor) :
    openAll k thread (processor :: rest) s =
      openAll k thread rest (append thread (k.perfEventOpen s.host.clock thread processor)
        { s with host := (s.host.perfEventOpen k thread processor).2 }) := if_pos h

theorem openAll_systemWide (h : k.perfEventOpen s.host.clock thread processor < 0)
    (h' : 0 ≤ k.perfEventOpen (s.host.clock + 1) (-1) processor) :
    openAll k thread (processor :: rest) s =
      openAll k thread rest (append thread (k.perfEventOpen (s.host.clock + 1) (-1) processor)
        { s with host := ((s.host.perfEventOpen k thread processor).2.perfEventOpen k (-1) processor).2 }) :=
  (if_neg (Int.not_le.mpr h)).trans (if_pos h')

/-- The loop gives up, and has opened nothing for this processor. -/
theorem openAll_refused (rest : List Int) (h : Refuses k thread s.host.clock processor) :
    ∃ msg, openAll k thread (processor :: rest) s =
      (false, { s with host := { s.host with clock := s.host.clock + 2 } }.report "create" msg) := by
  refine ⟨s.self.name ++ ".start(" ++ toString thread ++ ") failed: Could not create monitor (" ++
    k.strerror (s.host.clock + 2) ++ ").", ?_⟩
  have hfirst : ¬ 0 ≤ k.perfEventOpen s.host.clock thread processor := Int.not_le.mpr h.1
  have hsecond : ¬ 0 ≤ k.perfEventOpen (s.host.clock + 1) (-1) processor := Int.not_le.mpr h.2
  simp only [openAll, Host.perfEventOpen, if_neg hfirst, if_neg hsecond]

theorem append_mem (x : Int) (s : Session (GPerf D)) : thread ∈ (append thread x s).self.threads :=
  (AList.mem_insert ..).mpr (.inl rfl)

/-- A processor is refused, or it gets its counter and the thread is listed. -/
theorem openAll_step (k : Kernel D) (thread processor : Int) (rest : List Int) (s : Session (GPerf D)) :
    Refuses k thread s.host.clock processor ∨
      ∃ t, openAll k thread (processor :: rest) s = openAll k thread rest t ∧ thread ∈ t.self.threads ∧
        t.context = s.context := by
  by_cases h : 0 ≤ k.perfEventOpen s.host.clock thread processor
  · exact .inr ⟨_, openAll_own h, append_mem _ _, rfl⟩
  · by_cases h' : 0 ≤ k.perfEventOpen (s.host.clock + 1) (-1) processor
    · exact .inr ⟨_, openAll_systemWide (Int.not_le.mp h) h', append_mem _ _, rfl⟩
    · exact .inl ⟨Int.not_le.mp h, Int.not_le.mp h'⟩

/-- A thread that is listed stays listed. -/
theorem openAll_keeps (processors : List Int) (hs : thread ∈ s.self.threads) :
    thread ∈ (openAll k thread processors s).2.self.threads := by
  induction processors generalizing s with
  | nil => exact hs
  | cons processor rest ih =>
    rcases openAll_step k thread processor rest s with h | ⟨t, ht, hmem, -⟩
    · obtain ⟨msg, hmsg⟩ := openAll_refused rest h
      rw [hmsg]
      exact hs
    · rw [ht]
      exact ih hmem

/-- The loop reports exactly if it gives up. -/
theorem openAll_errors (k : Kernel D) (thread : Int) (processors : List Int) (s : Session (GPerf D)) :
    (openAll k thread processors s).2.context.errors =
      if (openAll k thread processors s).1 then s.context.errors else s.context.errors ++ [(.monitor, "create")] := by
  induction processors generalizing s with
  | nil => rfl
  | cons processor rest ih =>
    rcases openAll_step k thread processor rest s with h | ⟨t, ht, -, hcontext⟩
    · obtain ⟨msg, hmsg⟩ := openAll_refused rest h
      rw [hmsg]
      rfl
    · rw [ht, ih t, hcontext]

theorem openAll_opens {clock clock' : Nat} {processors fds : List Int} (h : Opens k thread clock processors clock' fds)
    (hs : s.host.clock = clock) :
    (openAll k thread processors s).1 = true ∧ (openAll k thread processors s).2.host.clock = clock' ∧
      (openAll k thread processors s).2.self.fds thread = s.self.fds thread ++ fds := by
  induction h generalizing s with
  | nil => exact ⟨rfl, hs, (List.append_nil _).symm⟩
  | own h hrest ih =>
    subst hs
    obtain ⟨hok, hclock, hfds⟩ := ih (s := append thread _ { s with host := (s.host.perfEventOpen k thread _).2 }) rfl
    rw [openAll_own h]
    refine ⟨hok, hclock, hfds.trans ?_⟩
    rw [append_fds, if_pos rfl, List.append_assoc]
    rfl
  | systemWide h h' hrest ih =>
    subst hs
    obtain ⟨hok, hclock, hfds⟩ := ih (s := append thread _
      { s with host := ((s.host.perfEventOpen k thread _).2.perfEventOpen k (-1) _).2 }) rfl
    rw [openAll_systemWide h h']
    refine ⟨hok, hclock, hfds.trans ?_⟩
    rw [append_fds, if_pos rfl, List.append_assoc]
    rfl

theorem opens_of_openAll {processors : List Int} (h : (openAll k thread processors s).1 = true) :
    ∃ clock' fds, Opens k thread s.host.clock processors clock' fds := by
  induction processors generalizing s with
  | nil => exact ⟨s.host.clock, [], .nil⟩
  | cons processor rest ih =>
    by_cases hown : 0 ≤ k.perfEventOpen s.host.clock thread processor
    · rw [openAll_own hown] at h
      obtain ⟨clock', fds, hrest⟩ := ih h
      exact ⟨clock', _, .own hown hrest⟩
    · by_cases hwide : 0 ≤ k.perfEventOpen (s.host.clock + 1) (-1) processor
      · rw [openAll_systemWide (Int.not_le.mp hown) hwide] at h
        obtain ⟨clock', fds, hrest⟩ := ih h
        exact ⟨clock', _, .systemWide (Int.not_le.mp hown) hwide hrest⟩
      · obtain ⟨msg, hmsg⟩ := openAll_refused rest ⟨Int.not_le.mp hown, Int.not_le.mp hwide⟩
        rw [hmsg] at h
        cases h

theorem fds_of_not_mem {m : GPerf D} (h : thread ∉ m.threads) : m.fds thread = [] := by
  rw [fds, AList.lookup_eq_none.mpr h]
  rfl

/-- What is granted can be read off the loop. -/
theorem grants_iff (hs : thread ∉ s.self.threads) (processors : List Int) :
    Grants k thread s.host.clock processors ↔
      (openAll k thread processors s).1 = true ∧
        NoneFails (fun clock fd => k.ioctl clock fd .enable) (openAll k thread processors s).2.host.clock
          ((openAll k thread processors s).2.self.fds thread) := by
  constructor
  · rintro ⟨clock', fds, hopens, hnone⟩
    obtain ⟨hok, hclock, hfds⟩ := openAll_opens hopens rfl
    rw [fds_of_not_mem hs, List.nil_append] at hfds
    exact ⟨hok, hclock ▸ hfds ▸ hnone⟩
  · rintro ⟨hok, hnone⟩
    obtain ⟨clock', fds, hopens⟩ := opens_of_openAll hok
    obtain ⟨-, hclock, hfds⟩ := openAll_opens hopens rfl
    rw [fds_of_not_mem hs, List.nil_append] at hfds
    rw [hclock, hfds] at hnone
    exact ⟨clock', fds, hopens, hnone⟩

/-- A call for a thread that was not monitored fails unless every request is granted. -/
theorem start_fails_iff (hs : thread ∉ s.self.threads) :
    Fails s (start k thread s) ↔ ¬ Grants k thread s.host.clock s.self.targets := by
  have herrors := openAll_errors k thread s.self.targets s
  rw [grants_iff hs, ← ioctlAll_iff]
  simp only [start, if_neg hs, Fails]
  cases hopen : (openAll k thread s.self.targets s).1 with
  | false =>
    rw [hopen] at herrors
    simp [herrors]
  | true =>
    rw [hopen, if_pos rfl] at herrors
    cases hioctl : (ioctlAll k .enable ((openAll k thread s.self.targets s).2.self.fds thread)
        (openAll k thread s.self.targets s).2.host).1 with
    | false => simp [failedStart, Session.report, herrors]
    | true => simp [herrors]

/-- The thread is listed after the call, unless its first processor is refused. -/
theorem start_listed (hs : thread ∉ s.self.threads)
    (hfirst : ∀ processor, s.self.targets.head? = some processor → ¬ Refuses k thread s.host.clock processor) :
    thread ∈ (start k thread s).self.threads := by
  have hself : (start k thread s).self = (openAll k thread s.self.targets s).2.self := by
    simp only [start, if_neg hs]
    split
    · rfl
    · split <;> rfl
  obtain ⟨processor, rest, htargets⟩ := List.exists_cons_of_ne_nil (targets_ne_nil s.self)
  rw [hself, htargets]
  rcases openAll_step k thread processor rest s with h | ⟨t, ht, hmem, -⟩
  · exact absurd h (hfirst processor (by rw [htargets, List.head?_cons]))
  · rw [ht]
    exact openAll_keeps rest hmem

theorem startsAtomically_iff (k : Kernel D) (thread : Int) (s : Session (GPerf D)) :
    StartsAtomically k thread s ↔ StartAdmitted k thread s := by
  by_cases hs : thread ∈ s.self.threads
  · exact iff_of_true (fun h => absurd hs h) (.inl hs)
  · by_cases hfirst : ∃ processor, s.self.targets.head? = some processor ∧ Refuses k thread s.host.clock processor
    · refine iff_of_true (fun _ _ => ?_) (.inr (.inl hfirst))
      obtain ⟨processor, hhead, hrefuses⟩ := hfirst
      obtain ⟨rest, htargets⟩ := List.head?_eq_some_iff.mp hhead
      obtain ⟨msg, hmsg⟩ := openAll_refused rest hrefuses
      rw [← htargets] at hmsg
      have hstart : start k thread s =
          { s with host := { s.host with clock := s.host.clock + 2 } }.report "create" msg := by
        simp only [start, if_neg hs, hmsg]
        rfl
      rw [hstart]
      exact ⟨hs, [], rfl, by simp⟩
    · have hlisted : thread ∈ (start k thread s).self.threads :=
        start_listed hs (fun processor hhead hrefuses => hfirst ⟨processor, hhead, hrefuses⟩)
      have hadmitted : StartAdmitted k thread s ↔ Grants k thread s.host.clock s.self.targets := by
        rw [StartAdmitted, or_iff_right hs, or_iff_right hfirst]
      rw [hadmitted]
      constructor
      · intro h
        by_contra hgrants
        exact (h hs ((start_fails_iff hs).mpr hgrants)).1 hlisted
      · intro hgrants _ hfails
        exact absurd hgrants ((start_fails_iff hs).mp hfails)

end

/-! ## `clear` -/

/-- The descriptors `close` is called with, up to the first that cannot be closed. -/
def closeCalls (k : Kernel D) : List Int → Nat → List Int
  | [], _ => []
  | fd :: rest, clock => fd :: if k.close clock fd = -1 then [] else closeCalls k rest (clock + 1)

/-- A call of `clear` only tries to close descriptors that are open. -/
def ClosesOpen (k : Kernel D) (thread : Int) (s : Session (GPerf D)) : Prop :=
  ∀ x ∈ closeCalls k (s.self.fds thread) s.host.clock, IsOpen s.host.descriptors x

/-- So does this call, and if it fails, also the next one for the thread. -/
def ClearsAtomically (k : Kernel D) (thread : Int) (s : Session (GPerf D)) : Prop :=
  ClosesOpen k thread s ∧ (Fails s (clear k thread s) → ClosesOpen k thread (clear k thread s))

/-- The first counter cannot be closed, or every counter can. -/
def ClearAdmitted (k : Kernel D) (thread : Int) (s : Session (GPerf D)) : Prop :=
  (∃ fd, (s.self.fds thread).head? = some fd ∧ k.close s.host.clock fd = -1) ∨
    NoneFails k.close s.host.clock (s.self.fds thread)

section

variable {k : Kernel D} {thread : Int} {s : Session (GPerf D)}

theorem mem_closeCalls {fds : List Int} {clock : Nat} {x : Int} (h : x ∈ closeCalls k fds clock) : x ∈ fds := by
  induction fds generalizing clock with
  | nil => exact h
  | cons fd rest ih =>
    rcases List.mem_cons.mp h with rfl | h
    · exact List.mem_cons_self
    · split at h
      · cases h
      · exact List.mem_cons_of_mem fd (ih h)

/-- Closing opens nothing. -/
theorem closeAll_isOpen {fds : List Int} {h : Host} {x : Int} (hx : IsOpen (closeAll k fds h).2.descriptors x) :
    IsOpen h.descriptors x := by
  induction fds generalizing h with
  | nil => exact hx
  | cons fd rest ih =>
    by_cases hfd : k.close h.clock fd = -1
    · simpa [closeAll, Host.close, hfd] using hx
    · simp only [closeAll, Host.close, if_neg hfd] at hx
      exact ((isOpen_closed _ _ _).mp (ih hx)).2

/-- A first counter that could be closed is not open afterwards. -/
theorem closeAll_first {fd : Int} {rest : List Int} {h : Host} (hfd : k.close h.clock fd ≠ -1) :
    ¬ IsOpen (closeAll k (fd :: rest) h).2.descriptors fd := by
  simp only [closeAll, Host.close, if_neg hfd]
  intro hx
  exact ((isOpen_closed _ _ _).mp (closeAll_isOpen hx)).1 rfl

/-- What a failed call leaves: the thread as it was, and the descriptors it got to. -/
theorem clear_failed (hs : thread ∈ s.self.threads) (hfail : (closeAll k (s.self.fds thread) s.host).1 = false) :
    (clear k thread s).self = s.self ∧ (clear k thread s).host = (closeAll k (s.self.fds thread) s.host).2 ∧
      Fails s (clear k thread s) := by
  simp only [clear, if_pos hs, hfail, Bool.not_false, if_true]
  refine ⟨rfl, rfl, ?_⟩
  simp [Fails, Session.report]

theorem clear_succeeded (hok : (closeAll k (s.self.fds thread) s.host).1 = true) : ¬ Fails s (clear k thread s) := by
  unfold clear
  split
  · simp [hok, Fails]
  · simp [Fails]

theorem Owns.closesOpen (hs : Owns s) : ClosesOpen k thread s :=
  fun x hx => hs.isOpen x (mem_closeCalls hx)

theorem clearsAtomically_iff (hs : Owns s) : ClearsAtomically k thread s ↔ ClearAdmitted k thread s := by
  rw [ClearsAtomically, and_iff_right hs.closesOpen, ClearAdmitted, ← closeAll_iff]
  cases hok : (closeAll k (s.self.fds thread) s.host).1 with
  | true => exact iff_of_true (fun h => absurd h (clear_succeeded hok)) (.inr rfl)
  | false =>
    obtain ⟨fd, rest, hfds⟩ : ∃ fd rest, s.self.fds thread = fd :: rest := by
      apply List.exists_cons_of_ne_nil
      intro hnil
      rw [hnil] at hok
      cases hok
    have hmem : thread ∈ s.self.threads := mem_threads_of_mem_fds (hfds ▸ List.mem_cons_self)
    obtain ⟨hself, hhost, hfails⟩ := clear_failed hmem hok
    rw [or_iff_left Bool.false_ne_true, imp_iff_right hfails, ClosesOpen, hself, hhost]
    by_cases hfd : k.close s.host.clock fd = -1
    · -- nothing has been closed
      refine iff_of_true ?_ ⟨fd, by rw [hfds, List.head?_cons], hfd⟩
      intro x hx
      have hkept : (closeAll k (s.self.fds thread) s.host).2.descriptors = s.host.descriptors := by
        simp [hfds, closeAll, Host.close, hfd]
      rw [hkept]
      exact hs.isOpen x (mem_closeCalls hx)
    · -- the next call begins with a descriptor that was closed
      refine iff_of_false ?_ ?_
      · intro h
        refine closeAll_first hfd (hfds ▸ h fd ?_)
        rw [hfds]
        exact List.mem_cons_self
      · rintro ⟨fd', hhead, hclose⟩
        rw [hfds, List.head?_cons, Option.some.injEq] at hhead
        exact hfd (hhead ▸ hclose)

/-- The counters are owned after a call that closes all of them or none. -/
theorem ClearAdmitted.owns (h : ClearAdmitted k thread s) (hs : Owns s) : Owns (clear k thread s) := by
  cases hok : (closeAll k (s.self.fds thread) s.host).1 with
  | true => exact clear_owns hok hs
  | false =>
    rcases h with ⟨fd, hhead, hfd⟩ | h
    · obtain ⟨rest, hfds⟩ := List.head?_eq_some_iff.mp hhead
      have hmem : thread ∈ s.self.threads := mem_threads_of_mem_fds (hfds ▸ List.mem_cons_self)
      obtain ⟨hself, hhost, -⟩ := clear_failed hmem hok
      refine hs.of_same hself ?_
      rw [hhost]
      simp [hfds, closeAll, Host.close, hfd]
    · rw [(closeAll_iff k _ _).mpr h] at hok
      cases hok

end

/-! ## Runs -/

section

variable [Zero D] [Add D] [Mul D] [NatCast D]

/-- What the call promises where it is made. `stop` clears the thread unless an error is recorded. -/
def Atomic (k : Kernel D) (s : Session (GPerf D)) : Call → Prop
  | .start thread => StartsAtomically k thread s
  | .value _ => True
  | .stop thread => (value k thread s).2.context.isError = false → ClearsAtomically k thread (value k thread s).2
  | .clear thread => ClearsAtomically k thread s

/-- No request is refused after another one of the same call was granted. -/
def Admits (k : Kernel D) (s : Session (GPerf D)) : Call → Prop
  | .start thread => StartAdmitted k thread s
  | .value _ => True
  | .stop thread => (value k thread s).2.context.isError = false → ClearAdmitted k thread (value k thread s).2
  | .clear thread => ClearAdmitted k thread s

variable {k : Kernel D} {s : Session (GPerf D)}

theorem atomic_iff (hs : Owns s) (c : Call) : Atomic k s c ↔ Admits k s c := by
  cases c with
  | start thread => exact startsAtomically_iff k thread s
  | value thread => exact Iff.rfl
  | stop thread => exact imp_congr_right fun _ => clearsAtomically_iff (value_owns hs thread)
  | clear thread => exact clearsAtomically_iff hs

theorem Admits.owns {c : Call} (h : Admits k s c) (hs : Owns s) (hfresh : Fresh (call k s c).host.descriptors) :
    Owns (call k s c) := by
  cases c with
  | start thread => exact start_owns hs hfresh
  | value thread => exact value_owns hs thread
  | stop thread => exact stop_owns hs fun herror => ClearAdmitted.owns (h herror) (value_owns hs thread)
  | clear thread => exact ClearAdmitted.owns h hs

/-- A start keeps its promise in every state exactly if its first processor is refused or nothing is. Along every
run, the calls keep theirs exactly if each is refused at once or not at all. -/
theorem operations_atomic_iff (k : Kernel D) :
    (∀ thread s, StartsAtomically k thread s ↔ StartAdmitted k thread s) ∧
    ∀ s calls, Owns s → Fresh (calls.foldl (call k) s).host.descriptors →
      (PartialStep.Admitted (fun s c => some (call k s c)) (Atomic k) s calls ↔
        PartialStep.Admitted (fun s c => some (call k s c)) (Admits k) s calls) := by
  refine ⟨startsAtomically_iff k, ?_⟩
  intro s calls hs hfresh
  induction calls generalizing s with
  | nil => exact Iff.rfl
  | cons c calls ih =>
    have hnow : Fresh (call k s c).host.descriptors := by
      obtain ⟨new, hnew⟩ := calls_extend k (call k s c) calls
      rw [List.foldl_cons, hnew] at hfresh
      exact hfresh.of_append
    have hrest : Admits k s c → (PartialStep.Admitted (fun s c => some (call k s c)) (Atomic k) (call k s c) calls ↔
        PartialStep.Admitted (fun s c => some (call k s c)) (Admits k) (call k s c) calls) :=
      fun h => ih (call k s c) (h.owns hs hnow) hfresh
    simp only [PartialStep.Admitted, Option.some.injEq, forall_eq']
    rw [atomic_iff hs]
    exact and_congr_right hrest

end

/-- Processor 2 has no counters, and descriptor 4 cannot be closed. -/
def stubborn : Kernel Int :=
  { Kernel.succeeding with
    perfEventOpen := fun clock _ cpu => if cpu = 2 then -1 else clock + 3
    close := fun _ fd => if fd = 4 then -1 else 0 }

def monitorOn (processors : List Int) : Session (GPerf Int) :=
  { self := { processors := processors, sensorScale := 1 }, context := {}, host := {} }

theorem operations_atomic_stubborn :
    PartialStep.Admitted (fun s c => some (call stubborn s c)) (Atomic stubborn) (monitorOn [0])
      [.start 7, .start 8, .clear 8, .clear 7] := by
  have hfresh : Fresh ([Call.start 7, .start 8, .clear 8, .clear 7].foldl (call stubborn)
      (monitorOn [0])).host.descriptors := by
    decide
  refine ((operations_atomic_iff stubborn).2 (monitorOn [0]) _ (owns_initial rfl rfl) hfresh).mpr ?_
  simp only [PartialStep.Admitted, Option.some.injEq, forall_eq', and_true]
  refine ⟨?_, ?_, ?_, ?_⟩
  · exact .inr (.inr ⟨1, [3], .own (by decide) .nil, by decide⟩)
  · exact .inr (.inr ⟨3, [5], .own (by decide) .nil, by decide⟩)
  · exact .inr (by decide)
  · exact .inr (by decide)

/-- A start that opens a counter on processor 0 and then gives up on processor 2, and a clear that closes
descriptor 3 and then gives up on 4. -/
theorem half_done :
    ¬ StartsAtomically stubborn 7 (monitorOn [0, 2]) ∧
      ¬ ClearsAtomically stubborn 7 (start stubborn 7 (monitorOn [0, 1])) := by
  constructor
  · intro h
    exact absurd (h (by decide) (by unfold Fails; decide)).1 (by decide)
  · intro h
    exact absurd (h.2 (by unfold Fails; decide) 3 (by decide)) (by decide)

end GPerf

end AutopinPlus
