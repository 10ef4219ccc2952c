import AutopinPlus.TracingEvents

/-!
# What a tracer needs of the other threads

As long as each report is returned to the thread that traces the task, and to no other, a thread keeps its tasks
running and its sets right. One report that goes to another thread, or to the handler of `SIGCHLD`, or that comes from
a task of another thread, leaves something behind that no later step puts right.
-/
namespace AutopinPlus

open PartialStep

namespace Tracers

variable {w w' : Tracers} {k : Nat} {s t : TraceThread}

/-! ## Reports that go astray -/

/-- A task of another thread. -/
def Strange (w : Tracers) (k : Nat) (tid : Int) : Prop := ∃ j x, w.tracees tid = some ⟨j, x⟩ ∧ j ≠ k

theorem Happens.strange {e : TracingEvent} (he : w.Happens e w') {tid : Int} (h : w.Strange k tid) :
    w'.Strange k tid := by
  obtain ⟨j, x, htid, hj⟩ := h
  obtain ⟨y, hy⟩ := he.tracer htid
  exact ⟨j, y, hy, hj⟩

/-- The thread has ended, or it bears the mark of a report that went astray. -/
def Marked (w : Tracers) (k : Nat) (s : TraceThread) : Prop :=
  s.ended = true ∨ s.Strayed (w.Strange k) ∨ Sound s (w.stage k) ∧ Loss s (w.stage k)

/-- A thread that waits for a task of another one. -/
theorem marked_of_wake {tid : Int} {j : Nat} {status : WaitStatus} {alarmOccured exreq : Bool} (hbound : w.Bounded)
    (hj : j ≠ k) (htid : w.tracees tid = some ⟨j, .reporting status⟩)
    (hstep : s.step ((w.put tid ⟨j, status.returned⟩).answers k) ⟨tid, status.seenBy (j == k), alarmOccured, exreq⟩ =
      some t) : t.ended = true ∨ t.Strayed (w.Strange k) := by
  obtain ⟨-, hpos, hlegible⟩ := hbound tid _ htid
  have hstrange : w.Strange k tid := ⟨j, _, htid, hj⟩
  have hrefused : (((w.put tid ⟨j, status.returned⟩).answers k).cont 0 tid).isSome := by
    simp [answers, put_tracees, hj]
  rw [beq_eq_false_iff_ne.mpr hj] at hstep
  obtain ⟨-, ⟨-, rfl⟩ | ⟨-, hfailed, -⟩ | ⟨-, -, rfl⟩⟩ := TraceThread.step_cases hstep
  · exact .inl rfl
  · exact absurd hfailed (by simp only; omega)
  · exact .inr (TraceThread.handle_strays (answers_cont _ _) s (hlegible status rfl) hstrange hrefused)

theorem Happens.spoils {e : TracingEvent} (he : w.Happens e w') (hbound : w.Bounded) (hs : w.threads[k]? = some s)
    (h : Sound s (w.stage k)) (hastray : ¬ Separate k w e) :
    ∃ t, w'.threads[k]? = some t ∧ Marked w' k t := by
  have hlt : k < w.threads.length := (List.getElem?_eq_some_iff.mp hs).1
  cases he with
  | attached hfresh hnew => exact absurd trivial hastray
  | clone htid hevent hpos hchild => exact absurd trivial hastray
  | stop htid hplain => exact absurd trivial hastray
  | die htid => exact absurd trivial hastray
  | failed hu hstep => exact absurd trivial hastray
  | @wake i tid alarmOccured exreq j status u t hu htid hstep =>
    have hwake := Happens.wake hu htid hstep
    by_cases hik : i = k
    · subst hik
      obtain rfl : s = u := Option.some.inj (hs.symm.trans hu)
      have hj : j ≠ i := by
        rintro rfl
        exact hastray (iff_of_true rfl (by simp [stage_of_owner htid]))
      refine ⟨t, List.getElem?_set_self hlt, ?_⟩
      rcases marked_of_wake hbound hj htid hstep with hdone | hstrayed
      · exact .inl hdone
      · exact .inr (.inl (hstrayed.later (.refl t) fun _ => hwake.strange))
    · obtain rfl : j = k := by
        by_contra hj
        exact hastray (iff_of_false hik (by simp [stage_of_stranger htid hj]))
      refine ⟨s, by rwa [resume, List.getElem?_set_ne hik], .inr (.inr ?_)⟩
      rw [stage_resume_ne hik, stage_put]
      exact h.lose (stage_of_owner htid)
  | @reap tid j status htid =>
    obtain rfl : j = k := by
      by_contra hj
      exact hastray (stage_of_stranger htid hj)
    refine ⟨s, hs, .inr (.inr ?_)⟩
    rw [stage_put]
    exact h.lose (stage_of_owner htid)

/-- The mark stays, whatever happens. -/
theorem Happens.marked {e : TracingEvent} (he : w.Happens e w') (hbound : w.Bounded) (hs : w.threads[k]? = some s)
    (htimely : Timely w e) (h : Marked w k s) : ∃ t, w'.threads[k]? = some t ∧ Marked w' k t := by
  obtain ⟨t, ht, hlater, hends⟩ := he.thread hs
  by_cases hended : s.ended = true
  · exact ⟨t, ht, .inl (hends hended)⟩
  rw [Bool.not_eq_true] at hended
  rcases h with hdone | hstrayed | ⟨hsound, hloss⟩
  · simp [hended] at hdone
  · exact ⟨t, ht, .inr (.inl (hstrayed.later hlater fun _ => he.strange))⟩
  by_cases hseparate : Separate k w e
  · obtain ⟨t, ht, hdone | hmoves⟩ := he.moves hbound hs hsound htimely hseparate
    · exact ⟨t, ht, .inl hdone⟩
    · exact ⟨t, ht, .inr (.inr ⟨hsound.moves hmoves, hloss.moves hsound hmoves⟩)⟩
  · exact he.spoils hbound hs hsound hseparate

/-! ## Whole runs -/

/-- All reports of the tasks of thread `k` have been returned. -/
def AtRest (w : Tracers) (k : Nat) : Prop := ∀ tid status, w.stage k tid ≠ some (.reporting status)

/-- The thread is in order: its context has no error, its signals were about its own tasks, all of these run, and they
are those in `tasks`. -/
structure Intact (w : Tracers) (k : Nat) (s : TraceThread) : Prop where
  isError : s.context.isError = false
  emitted : ∀ call ∈ s.emitted, (w.stage k call.tid).isSome
  newTasks : s.newTasks = .empty
  tasks : ∀ tid, tid ∈ s.tasks ↔ w.stage k tid = some .running
  running : ∀ tid, w.stage k tid ≠ some .stopped

theorem Whole.not_stopped (h : Whole s (w.stage k)) (hrest : w.AtRest k) (tid : Int) :
    w.stage k tid ≠ some .stopped := by
  intro hstopped
  obtain ⟨-, y, event, -, hreport⟩ := h.stopped tid hstopped
  exact hrest y _ hreport

theorem Whole.intact (h : Whole s (w.stage k)) (hrest : w.AtRest k) : w.Intact k s where
  isError := h.isError
  emitted := h.emitted
  newTasks := by
    apply SortedSet.ext_mem
    intro tid
    refine iff_of_false (fun hnew => ?_) (SortedSet.not_mem_empty tid)
    rcases (h.halfway tid hnew).2 with ⟨hreport, -⟩ | hstopped
    · exact hrest tid _ hreport
    · exact h.not_stopped hrest tid hstopped
  tasks tid := by
    constructor
    · intro hmem
      rcases h.live tid hmem with hrun | ⟨status, hreport⟩
      · exact hrun
      · exact absurd hreport (hrest tid status)
    · exact h.task_of_running
  running := h.not_stopped hrest

theorem Marked.not_intact (h : Marked w k s) (hended : s.ended = false) : ¬ w.Intact k s := by
  intro hintact
  rcases h with hdone | (herror | ⟨call, hcall, j, x, htid, hj⟩ | ⟨tid, hnew, -⟩) | ⟨-, tid, hloss⟩
  · simp [hended] at hdone
  · simp [hintact.isError] at herror
  · have hown := hintact.emitted call hcall
    simp [stage_of_stranger htid hj] at hown
  · rw [hintact.newTasks] at hnew
    exact SortedSet.not_mem_empty tid hnew
  · rcases hloss with ⟨hstopped, -⟩ | ⟨hgone, hmem⟩
    · exact hintact.running tid hstopped
    · rw [hintact.tasks tid, hgone] at hmem
      cases hmem

/-- Nothing of thread `k` has gone astray, if there is such a thread already. -/
def Fine (k : Nat) (w : Tracers) : Prop :=
  w.Bounded ∧ ∀ s, w.threads[k]? = some s → s.ended = false → Whole s (w.stage k)

def Spoilt (k : Nat) (w : Tracers) : Prop := w.Bounded ∧ ∃ s, w.threads[k]? = some s ∧ Marked w k s

/-- Only an attachment adds a thread. -/
theorem Happens.attaches {e : TracingEvent} (he : w.Happens e w') (hnone : w.threads[k]? = none)
    (ht : w'.threads[k]? = some t) : ∃ s, e = .attached s := by
  have hset {i : Nat} {u : TraceThread} (h : (w.threads.set i u)[k]? = some t) : False := by
    have hlt := (List.getElem?_eq_some_iff.mp h).1
    rw [List.length_set] at hlt
    exact absurd (List.getElem?_eq_none_iff.mp hnone) (by omega)
  have hsame (h : w.threads[k]? = some t) : False := by simp [hnone] at h
  cases he with
  | attached hfresh hnew => exact ⟨_, rfl⟩
  | clone htid hevent hpos hchild => exact (hsame ht).elim
  | stop htid hplain => exact (hsame ht).elim
  | die htid => exact (hsame ht).elim
  | wake hs htid hstep => exact (hset ht).elim
  | failed hs hstep => exact (hset ht).elim
  | reap htid => exact (hsame ht).elim

theorem Fine.separate {e : TracingEvent} (h : Fine k w) (he : w.Happens e w') (htimely : Timely w e)
    (hseparate : Separate k w e) : Fine k w' := by
  obtain ⟨hbound, hwhole⟩ := h
  refine ⟨hbound.happens he, fun t ht hended => ?_⟩
  cases hs : w.threads[k]? with
  | some s =>
    cases hs' : s.ended with
    | true =>
      obtain ⟨u, hu, -, hends⟩ := he.thread hs
      obtain rfl : t = u := Option.some.inj (ht.symm.trans hu)
      simp [hends hs'] at hended
    | false =>
      have hsound := hwhole s hs hs'
      obtain ⟨u, hu, hdone | hmoves⟩ := he.moves hbound hs hsound.toSound htimely hseparate
      · obtain rfl : t = u := Option.some.inj (ht.symm.trans hu)
        simp [hdone] at hended
      · obtain rfl : t = u := Option.some.inj (ht.symm.trans hu)
        exact hsound.moves hmoves
  | none =>
    obtain ⟨u, rfl⟩ := he.attaches hs ht
    cases he with
    | attached hfresh hnew =>
      have hlength := List.getElem?_eq_none_iff.mp hs
      have hlt := (List.getElem?_eq_some_iff.mp ht).1
      rw [List.length_append, List.length_singleton] at hlt
      obtain rfl : k = w.threads.length := by omega
      obtain rfl : u = t := by simpa using ht
      refine whole_attached hfresh fun tid => ?_
      simp only [Tracers.stage]
      by_cases hmem : tid ∈ u.tasks
      · simp [hmem]
      · rw [if_neg hmem, if_neg hmem]
        cases htid : w.tracees tid with
        | none => rfl
        | some x => exact if_neg (Nat.ne_of_lt (hbound tid x htid).1)

theorem Fine.astray {e : TracingEvent} (h : Fine k w) (he : w.Happens e w') (hastray : ¬ Separate k w e) :
    Spoilt k w' := by
  obtain ⟨hbound, hwhole⟩ := h
  refine ⟨hbound.happens he, ?_⟩
  have hexists : ∃ s, w.threads[k]? = some s := by
    have hstage (tid : Int) (hsome : (w.stage k tid).isSome) : ∃ s, w.threads[k]? = some s := by
      obtain ⟨x, hx⟩ := Option.isSome_iff_exists.mp hsome
      exact ⟨_, List.getElem?_eq_getElem (hbound tid _ (stage_eq_some.mp hx)).1⟩
    cases he with
    | attached hfresh hnew => exact absurd trivial hastray
    | clone htid hevent hpos hchild => exact absurd trivial hastray
    | stop htid hplain => exact absurd trivial hastray
    | die htid => exact absurd trivial hastray
    | failed hu hstep => exact absurd trivial hastray
    | @wake i tid alarmOccured exreq j status u t hu htid hstep =>
      by_cases hik : i = k
      · exact ⟨u, hik ▸ hu⟩
      · apply hstage tid
        by_contra hnone
        exact hastray (iff_of_false hik hnone)
    | @reap tid j status htid =>
      apply hstage tid
      rw [← Option.ne_none_iff_isSome]
      exact hastray
  obtain ⟨s, hs⟩ := hexists
  cases hended : s.ended with
  | true =>
    obtain ⟨t, ht, -, hends⟩ := he.thread hs
    exact ⟨t, ht, .inl (hends hended)⟩
  | false => exact he.spoils hbound hs (hwhole s hs hended).toSound hastray

/-- A thread that has not ended is in order, once all reports of its tasks have been returned, exactly if each of them
was returned to this thread, and no report of another task was. -/
theorem intact_iff {es : List TracingEvent} (hrun : run step {} es = some w) (htimely : Admitted step Timely {} es)
    (hs : w.threads[k]? = some s) (hended : s.ended = false) (hrest : w.AtRest k) :
    w.Intact k s ↔ Admitted step (Separate k) {} es := by
  have hstart : Fine k {} := by
    refine ⟨fun tid x hx => ?_, fun s hs => ?_⟩
    · cases hx
    · simp at hs
  have hkeep : ∀ w e w', Spoilt k w → Timely w e → step w e = some w' → Spoilt k w' := by
    rintro w e w' ⟨hbound, s, hs, hmarked⟩ htimely h
    exact ⟨hbound.happens (step_happens h), (step_happens h).marked hbound hs htimely hmarked⟩
  rcases admitted_or_spoilt (Fine k) (Spoilt k)
      (fun w e w' hfine htimely hseparate h => hfine.separate (step_happens h) htimely hseparate)
      (fun w e w' hfine _ hastray h => hfine.astray (step_happens h) hastray)
      hkeep hstart htimely hrun with ⟨hall, hfine⟩ | ⟨hnot, hspoilt⟩
  · exact iff_of_true ((hfine.2 s hs hended).intact hrest) hall
  · obtain ⟨-, t, ht, hmarked⟩ := hspoilt
    obtain rfl : s = t := Option.some.inj (hs.symm.trans ht)
    exact iff_of_false (hmarked.not_intact hended) hnot

/-- Two traced processes. The one of thread 0 clones a task that ends again. -/
def twoProcesses : List TracingEvent := [
  .attached { pid := 10, eventMsg := 0, tasks := .singleton 10 },
  .attached { pid := 20, eventMsg := 0, tasks := .singleton 20 },
  .clone 10 11 .clone, .stop 20 (.other 12), .wake 0 11 false false, .wake 1 20 false false, .wake 0 10 true false,
  .die 11 false, .wake 0 11 false false]

theorem twoProcesses_timely : Admitted step Timely {} twoProcesses := by
  refine admitted_cons trivial rfl (admitted_cons trivial rfl (admitted_cons trivial rfl (admitted_cons trivial rfl
    (admitted_cons trivial rfl (admitted_cons trivial rfl (admitted_cons trivial rfl (admitted_cons ?_ rfl
    (admitted_cons trivial rfl trivial))))))))
  intro k s x hs hx
  cases Option.some.inj (stage_eq_some.mp hx : some (⟨0, .running⟩ : Tracee) = some ⟨k, x⟩)
  exact .inl rfl

theorem twoProcesses_separate : Admitted step (Separate 0) {} twoProcesses := by
  have hown {i : Nat} {p : Prop} (hi : i = 0) (h : p) : i = 0 ↔ p := iff_of_true hi h
  have hother {i : Nat} {b : Bool} (hi : i ≠ 0) (h : b = false) : i = 0 ↔ b = true := iff_of_false hi (by simp [h])
  exact admitted_cons trivial rfl (admitted_cons trivial rfl (admitted_cons trivial rfl (admitted_cons trivial rfl
    (admitted_cons (hown rfl rfl) rfl (admitted_cons (hother Nat.one_ne_zero rfl) rfl
    (admitted_cons (hown rfl rfl) rfl (admitted_cons trivial rfl (admitted_cons (hown rfl rfl) rfl trivial))))))))

theorem twoProcesses_atRest (hrun : run step {} twoProcesses = some w) : w.AtRest 0 := by
  intro tid status h
  have htid := stage_eq_some.mp h
  have hbrought : tid = 10 ∨ tid = 11 ∨ tid = 20 := by
    by_contra hother
    rw [not_or, not_or] at hother
    have hnone : w.tracees tid = none := tracees_of_unbrought hrun (by simp [twoProcesses, Brings, hother])
    simp [hnone] at htid
  cases hrun
  rcases hbrought with rfl | rfl | rfl <;> cases htid

/-- Thread 0 is in order in the end. -/
theorem intact_iff_two : ∃ w s, run step {} twoProcesses = some w ∧ w.threads[0]? = some s ∧ w.Intact 0 s :=
  ⟨_, _, rfl, rfl, (intact_iff rfl twoProcesses_timely rfl rfl (twoProcesses_atRest rfl)).mpr twoProcesses_separate⟩

end Tracers

end AutopinPlus
