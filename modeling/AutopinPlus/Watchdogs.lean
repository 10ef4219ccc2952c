import AutopinPlus.PinningTable

/-!
# Watchdogs come and go

In daemon mode a watchdog is created for each process configuration received, and
removed when its process ends or its context is in the error state. The pinning
table is static and outlives all of them; nothing but the task slots writes to it.
-/
namespace AutopinPlus

open PartialStep SlotTable ControlStrategy

variable {D : Type}

/-- What happens in the daemon. A removed watchdog is destroyed when control returns to the
event loop, so a task signal that was queued before comes before the removal here. -/
inductive DaemonEvent (D : Type) where
  /-- `slot_runProcess`, with the strategy of the new watchdog. -/
  | runProcess (self : Strategy D)
  | task (e : Event)
  /-- The end of a process reaches every `ObservedProcess`, and the one with that pid stops its
  watchdog. -/
  | procTerminated (pid : Int)
  /-- `sig_error` of a context stops its watchdog. -/
  | error (k : Nat)

namespace Daemon

/-- The strategies of the system are those of the watchdogs in `Autopin::watchdogs`. -/
def step (env : Env D) (s : System D) : DaemonEvent D → Option (System D)
  | .runProcess self => some { s with strategies := s.strategies ++ [self] }
  | .task e => s.step env e
  | .procTerminated pid => some { s with strategies := s.strategies.filter (fun self => self.pid ≠ pid) }
  | .error k => some { s with strategies := s.strategies.eraseIdx k }

/-- A new watchdog observes a process no other one does, and has not seen a task; task events
are fresh. -/
def Valid (s : System D) : DaemonEvent D → Prop
  | .runProcess self =>
    self.pid ≠ 0 ∧ self.pid ∉ s.strategies.map Strategy.pid ∧ self.tasks = [] ∧ self.newTaskTid = 0
  | .task e => s.Fresh e
  | .procTerminated _ => True
  | .error _ => True

/-- None of the tasks a strategy still knows has a CPU. -/
def Idle (s : System D) (self : Strategy D) : Prop :=
  ∀ tid ∈ self.tasks, getCpuByTask s.pinning ⟨self.pid, tid⟩ = -1

/-- A watchdog is removed only when its strategy is idle. -/
def Released (s : System D) : DaemonEvent D → Prop
  | .runProcess _ => True
  | .task _ => True
  | .procTerminated pid => ∀ self ∈ s.strategies, self.pid = pid → Idle s self
  | .error k => ∀ self, s.strategies[k]? = some self → Idle s self

/-- A process that no watchdog observes, or none any more, has no slot of the table. -/
def GivenBack (s : System D) : Prop :=
  ∀ pid, pid ≠ 0 → (∀ self ∈ s.strategies, self.pid ≠ pid) → ∀ t ∈ s.pinning, t.pid ≠ pid

/-- Removing watchdogs: the others keep their pids. -/
theorem ready_of_sublist {s : System D} {l : List (Strategy D)} (hs : s.Ready)
    (hl : l.Sublist s.strategies) : ({ s with strategies := l } : System D).Ready where
  pids := (hl.map Strategy.pid).nodup hs.pids
  nonzero self hself := hs.nonzero self (hl.subset hself)
  idle self hself := hs.idle self (hl.subset hself)

theorem step_ready {env : Env D} {s t : System D} {e : DaemonEvent D} (hs : s.Ready) (hv : Valid s e)
    (h : step env s e = some t) : t.Ready := by
  cases e with
  | runProcess self =>
    cases h
    obtain ⟨hpid, hnew, -, hidle⟩ := hv
    refine ⟨?_, ?_, ?_⟩
    · rw [List.map_append, List.map_singleton]
      exact List.nodup_append.mpr ⟨hs.pids, by simp, fun a ha b hb he => by
        rw [List.mem_singleton] at hb
        exact hnew (hb ▸ he ▸ ha)⟩
    · intro x hx
      rcases List.mem_append.mp hx with hx | hx
      · exact hs.nonzero x hx
      · rw [List.mem_singleton] at hx
        exact hx ▸ hpid
    · intro x hx
      rcases List.mem_append.mp hx with hx | hx
      · exact hs.idle x hx
      · rw [List.mem_singleton] at hx
        exact hx ▸ hidle
  | task e => exact System.step_ready hs h
  | procTerminated pid =>
    cases h
    exact ready_of_sublist hs List.filter_sublist
  | error k =>
    cases h
    exact ready_of_sublist hs (List.eraseIdx_sublist _ k)

/-- The table stays consistent with the watchdogs left over if those removed were idle. -/
theorem consistent_of_removed {s : System D} {l : List (Strategy D)} (hs : s.Consistent)
    (hl : ∀ self ∈ s.strategies, self ∈ l ∨ Idle s self) :
    ({ s with strategies := l } : System D).Consistent where
  exclusive := hs.exclusive
  affinity := hs.affinity
  tracked := by
    intro t ht hfree
    obtain ⟨self, hself, hpid, htid⟩ := hs.tracked t ht hfree
    rcases hl self hself with hkeep | hidle
    · exact ⟨self, hkeep, hpid, htid⟩
    · exact absurd (show (⟨self.pid, t.tid⟩ : Task) ∈ s.pinning from hpid ▸ ht)
        ((getCpuByTask_eq_neg_one_iff ..).mp (hidle t.tid htid))

theorem step_consistent {env : Env D} {s t : System D} {e : DaemonEvent D} (hs : s.Ready)
    (hc : s.Consistent) (hv : Valid s e) (hr : Released s e) (h : step env s e = some t) :
    t.Consistent := by
  cases e with
  | runProcess self =>
    cases h
    refine ⟨hc.exclusive, ?_, hc.affinity⟩
    intro t ht hfree
    obtain ⟨self', hself', hrest⟩ := hc.tracked t ht hfree
    exact ⟨self', List.mem_append_left _ hself', hrest⟩
  | task e => exact System.step_consistent hs hc hv h
  | procTerminated pid =>
    cases h
    refine consistent_of_removed hc (fun self hself => ?_)
    by_cases hp : self.pid = pid
    · exact .inr (hr self hself hp)
    · exact .inl (List.mem_filter.mpr ⟨hself, by simpa using hp⟩)
  | error k =>
    cases h
    refine consistent_of_removed hc (fun self hself => ?_)
    by_cases hk : s.strategies[k]? = some self
    · exact .inr (hr self hk)
    · obtain ⟨i, hi⟩ := List.mem_iff_getElem?.mp hself
      have hik : i ≠ k := fun he => hk (he ▸ hi)
      refine .inl (List.mem_eraseIdx_iff_getElem?.mpr ⟨i, hik, hi⟩)

/-- A removal that leaves no slot of the process behind was of an idle watchdog. -/
theorem released_of_givenBack {env : Env D} {s t : System D} {e : DaemonEvent D} (hs : s.Ready)
    (h : step env s e = some t) (hg : GivenBack t) : Released s e := by
  have hgone : ∀ (l : List (Strategy D)) (self : Strategy D), self ∈ s.strategies →
      (∀ x ∈ l, x.pid ≠ self.pid) → GivenBack { s with strategies := l } → Idle s self := by
    intro l self hself hl hgl tid _
    rw [getCpuByTask_eq_neg_one_iff]
    intro hmem
    exact hgl self.pid (hs.nonzero self hself) hl _ hmem rfl
  cases e with
  | runProcess self => trivial
  | task e => trivial
  | procTerminated pid =>
    cases h
    intro self hself hp
    refine hgone _ self hself (fun x hx => ?_) hg
    rw [hp]
    simpa using (List.mem_filter.mp hx).2
  | error k =>
    cases h
    intro self hk
    have hself := List.mem_of_getElem? hk
    refine hgone _ self hself (fun x hx hp => ?_) hg
    obtain ⟨i, hik, hi⟩ := List.mem_eraseIdx_iff_getElem?.mp hx
    have hlt : i < (s.strategies.map Strategy.pid).length := by
      simpa using (List.getElem?_eq_some_iff.mp hi).1
    exact hik ((List.getElem?_inj hlt hs.pids).mp (by simp [hi, hk, hp]))

/-- In every state a run of the daemon reaches, the processes without a watchdog have no slot,
exactly if each watchdog was idle when it was removed. -/
theorem run_givenBack_iff (env : Env D) (s : System D) (es : List (DaemonEvent D)) (hs : s.Ready)
    (hc : s.Consistent) (hv : Admitted (step env) Valid s es) :
    (∀ (fs gs : List (DaemonEvent D)) (t : System D), es = fs ++ gs → run (step env) s fs = some t →
      GivenBack t) ↔ Admitted (step env) Released s es := by
  have hgiven : ∀ {s : System D}, s.Consistent → GivenBack s := by
    intro s hc pid hpid hgone t ht hp
    have hfree : t ≠ emptyTask := fun he => hpid (hp.symm.trans (congrArg Task.pid he))
    obtain ⟨self, hself, hself', -⟩ := hc.tracked t ht hfree
    exact hgone self hself (hself'.trans hp)
  constructor
  · intro h
    induction es generalizing s with
    | nil => trivial
    | cons e es ih =>
      have hrel : Released s e := by
        cases hstep : step env s e with
        | some t => exact released_of_givenBack hs hstep (h [e] es t rfl (by simp [hstep]))
        | none =>
          cases e with
          | task e => trivial
          | runProcess self => trivial
          | procTerminated pid => simp [step] at hstep
          | error k => simp [step] at hstep
      refine ⟨hrel, ?_⟩
      intro t ht
      refine ih t (step_ready hs hv.1 ht) (step_consistent hs hc hv.1 hrel ht) (hv.2 t ht) ?_
      intro fs gs u hes hrun
      exact h (e :: fs) gs u (by simp [hes]) (by simp [ht, hrun])
  · intro h fs gs t hes hrun
    subst hes
    have hboth := hv.of_append.and h.of_append
    have hinv : t.Ready ∧ t.Consistent := by
      refine run_invariant (fun s => s.Ready ∧ s.Consistent) ?_ ⟨hs, hc⟩ hboth hrun
      intro s e t hP hok hstep
      exact ⟨step_ready hP.1 hok.1 hstep, step_consistent hP.1 hP.2 hok.1 hok.2 hstep⟩
    exact hgiven hinv.2

/-- Two free CPUs and no watchdog yet. -/
def idleDaemon : System Int := ⟨[emptyTask, emptyTask], {}, []⟩

theorem idleDaemon_initial : idleDaemon.Initial := by
  refine ⟨⟨?_, ?_, ?_⟩, ?_, ?_⟩ <;> simp [idleDaemon]

/-- A process whose only task is seen to end before the process does. -/
def taskEndsFirst : List (DaemonEvent Int) :=
  [.runProcess { kind := .compact, pid := 10 }, .task (.slot 0 (.created 10)), .task (.slot 0 (.terminated 10)),
    .procTerminated 10]

theorem taskEndsFirst_valid : Admitted (step .twoNodes) Valid idleDaemon taskEndsFirst := by
  refine ⟨⟨by decide, by decide, rfl, rfl⟩, ?_⟩
  intro s hs
  cases hs
  refine ⟨?_, fun _ _ => ⟨fun _ _ => trivial, fun _ _ => ⟨trivial, fun _ _ => trivial⟩⟩⟩
  intro self hself
  cases hself
  exact ⟨by decide, by unfold Unshared; decide⟩

theorem taskEndsFirst_released : Admitted (step .twoNodes) Released idleDaemon taskEndsFirst := by
  refine ⟨trivial, fun s hs => ⟨trivial, fun u hu => ⟨trivial, fun v hv => ⟨?_, fun _ _ => trivial⟩⟩⟩⟩
  cases hs
  cases hu
  cases hv
  intro self hself _
  obtain rfl := List.mem_singleton.mp hself
  exact List.forall_mem_nil _

theorem taskEndsFirst_givenBack :
    Admitted (step .twoNodes) Released idleDaemon taskEndsFirst ∧
      ∀ (fs gs : List (DaemonEvent Int)) (t : System Int), taskEndsFirst = fs ++ gs →
        run (step .twoNodes) idleDaemon fs = some t → GivenBack t :=
  have hiff := run_givenBack_iff _ _ _ idleDaemon_initial.toReady idleDaemon_initial.consistent taskEndsFirst_valid
  ⟨taskEndsFirst_released, hiff.mpr taskEndsFirst_released⟩

/-- A process that ends without its task being seen to end keeps its CPU for ever. -/
theorem idleDaemon_leak :
    ∃ s, run (step .twoNodes) idleDaemon
        [.runProcess { kind := .compact, pid := 10 }, .task (.slot 0 (.created 10)),
          .procTerminated 10] = some s ∧
      s.strategies.length = 0 ∧ (⟨10, 10⟩ : Task) ∈ s.pinning := by
  have hrun : (run (step .twoNodes) idleDaemon [.runProcess { kind := .compact, pid := 10 },
      .task (.slot 0 (.created 10)), .procTerminated 10]).map
        (fun s => (s.strategies.length, s.pinning)) = some (0, [⟨10, 10⟩, emptyTask]) := by decide
  obtain ⟨s, hs, hpair⟩ := Option.map_eq_some_iff.mp hrun
  obtain ⟨hlen, hpin⟩ := Prod.mk.inj hpair
  exact ⟨s, hs, hlen, by rw [hpin]; decide⟩

end Daemon

end AutopinPlus
