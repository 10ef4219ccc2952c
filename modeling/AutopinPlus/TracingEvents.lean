import AutopinPlus.TracerTasks

/-!
# One event among several tracers

What an event does to a thread and to its tasks, if the thread gets the reports of its own tasks and no others.
-/
namespace AutopinPlus

open PartialStep

namespace Tracers

variable {w w' : Tracers} {k : Nat} {s t : TraceThread}

/-- The tracer of a task exists, tids are positive, and the reports are those that the kernel makes. -/
def Bounded (w : Tracers) : Prop :=
  ∀ tid x, w.tracees tid = some x → x.tracer < w.threads.length ∧ 0 < tid ∧
    ∀ status, x.stage = .reporting status → status.legible = true

/-- Thread `k` gets the report if it traces the task, and only then. -/
def Separate (k : Nat) (w : Tracers) : TracingEvent → Prop
  | .wake j tid _ _ => j = k ↔ (w.stage k tid).isSome
  | .reap tid => w.stage k tid = none
  | _ => True

/-- A task is not killed while it is stopped, halfway through its birth or about to report a clone. -/
def Timely (w : Tracers) : TracingEvent → Prop
  | .die tid _ => ∀ k s x, w.threads[k]? = some s → w.stage k tid = some x → x = .running ∨
      ∃ sig, x = .reporting (.stopped sig) ∧ sig.plain = true ∧ tid ∈ s.tasks
  | _ => True

/-- The stages after the answers to what the thread did. -/
theorem becomes_stage {p : Ptrace} {tasks newTasks : TidSet} {actions : List TraceAction}
    (hb : TraceThread.Becomes p s tasks newTasks actions t) (tid : Int) (x : TaskStage) (y : Int) :
    ((w.put tid ⟨k, x⟩).resume k s t).stage k y =
      if enter (w.stage k) tid x y = some .stopped ∧ actions.any (TraceAction.continues y) then some .running
      else enter (w.stage k) tid x y := by
  rw [stage_resume, stage_put, hb.continued]

theorem becomes_isError {tid : Int} {x : TaskStage} {tasks newTasks : TidSet} {actions : List TraceAction}
    (hb : TraceThread.Becomes ((w.put tid ⟨k, x⟩).answers k) s tasks newTasks actions t)
    (hs : s.context.isError = false)
    (hstopped : ∀ y sig, .cont y sig ∈ actions → enter (w.stage k) tid x y = some .stopped) :
    t.context.isError = false := by
  rw [← Bool.not_eq_true, hb.isError]
  rintro (herror | ⟨a, ha, y, sig, rfl, hrefused⟩)
  · simp [hs] at herror
  · have hanswer : (w.put tid ⟨k, x⟩).tracees y = some ⟨k, .stopped⟩ := by
      rw [← stage_eq_some, stage_put]
      exact hstopped y sig ha
    simp [answers, hanswer] at hrefused

/-- A stopped task that is continued, and no other. -/
theorem becomes_continued {tid : Int} {tasks newTasks : TidSet} {actions : List TraceAction}
    (hb : TraceThread.Becomes ((w.put tid ⟨k, .stopped⟩).answers k) s tasks newTasks actions t)
    (hs : s.context.isError = false) (hactions : ∀ y, actions.any (TraceAction.continues y) = (tid == y)) :
    t.context.isError = false ∧ ((w.put tid ⟨k, .stopped⟩).resume k s t).stage k = enter (w.stage k) tid .running := by
  constructor
  · refine becomes_isError hb hs ?_
    intro y sig hmem
    have hcontinued : actions.any (TraceAction.continues y) = true :=
      List.any_eq_true.mpr ⟨_, hmem, by simp [TraceAction.continues]⟩
    rw [hactions, beq_iff_eq] at hcontinued
    rw [← hcontinued, enter_self]
  · funext y
    rw [becomes_stage hb, hactions]
    by_cases hy : y = tid
    · simp [hy]
    · simp [enter_ne _ _ hy, Ne.symm hy]

/-- The second report about a new task is its clone event: the two tasks are continued. -/
theorem becomes_secondClone {tid child : Int} {tasks newTasks : TidSet}
    (hb : TraceThread.Becomes ((w.put tid ⟨k, .stopped⟩).answers k) s tasks newTasks
      [.getEventMsg tid, .emit (.created child), .setOptions child, .cont child 0, .cont tid 0] t)
    (hs : s.context.isError = false) (hne : child ≠ tid) (hstopped : w.stage k child = some .stopped) :
    t.context.isError = false ∧ ((w.put tid ⟨k, .stopped⟩).resume k s t).stage k =
      enter (enter (w.stage k) tid .running) child .running := by
  constructor
  · refine becomes_isError hb hs ?_
    intro y sig hmem
    have hy : y = child ∨ y = tid := by
      simp only [List.mem_cons, TraceAction.cont.injEq, reduceCtorEq, List.not_mem_nil, or_false, false_or] at hmem
      exact hmem.imp And.left And.left
    rcases hy with rfl | rfl
    · rw [enter_ne _ _ hne, hstopped]
    · exact enter_self _ _ _
  · funext y
    rw [becomes_stage hb]
    by_cases hchild : y = child
    · simp [hchild, enter_ne _ _ hne, hstopped, TraceAction.continues]
    by_cases hy : y = tid
    · simp [hy, enter_ne _ _ (Ne.symm hne), TraceAction.continues]
    · simp [enter_ne _ _ hchild, enter_ne _ _ hy, Ne.symm hy, Ne.symm hchild, TraceAction.continues]

/-- A thread that gets the report of its own task. -/
theorem moves_of_deals {tid : Int} {status : WaitStatus} (h : Sound s (w.stage k))
    (hreport : w.stage k tid = some (.reporting status))
    (hdeals : TraceThread.Deals ((w.put tid ⟨k, status.returned⟩).answers k) s tid t status) :
    Moves s (w.stage k) t (((w.put tid ⟨k, status.returned⟩).resume k s t).stage k) := by
  have hknown := h.task_of_reporting hreport
  cases hdeals with
  | ended hends becomes =>
    have hreturned : status.returned = .gone := if_pos hends
    rw [hreturned] at becomes ⊢
    refine .ended tid status hreport hends (hknown ?_) becomes.tasks becomes.newTasks becomes.emitted
      (becomes_isError becomes h.isError (by simp)) ?_
    · rintro rfl
      cases hends
    · funext y
      rw [becomes_stage becomes]
      simp [TraceAction.continues]
  | @plain sig front n hplain hsigstop hfront becomes =>
    have htask : tid ∈ s.tasks := by
      by_cases hsig : sig = .sigstop
      · exact hsigstop hsig
      · exact hknown (by simpa using hsig)
    have hemitted : t.emitted = s.emitted := by
      rcases hfront with rfl | rfl <;> simp [becomes.emitted, TraceThread.signal]
    obtain ⟨herror, hstage⟩ := becomes_continued becomes h.isError (by
      rcases hfront with rfl | rfl <;> simp [TraceAction.continues])
    exact .plain tid sig hreport hplain htask becomes.tasks becomes.newTasks hemitted herror hstage
  | @firstClone event child hevent hfirst becomes =>
    obtain ⟨herror, hstage⟩ := becomes_continued becomes h.isError (by simp [TraceAction.continues])
    exact .firstClone tid child event hevent hreport (hknown (by simp)) hfirst becomes.tasks becomes.newTasks
      (by simp [becomes.emitted, TraceThread.signal]) herror hstage
  | @secondClone event child hevent hsecond becomes =>
    have hstopped : w.stage k child = some .stopped := by
      rcases (h.halfway child hsecond).2 with ⟨-, hnot⟩ | hstopped
      · exact absurd (announces_of_report hevent hreport) hnot
      · exact hstopped
    have hne : child ≠ tid := by
      rintro rfl
      simp [hreport] at hstopped
    obtain ⟨herror, hstage⟩ := becomes_secondClone becomes h.isError hne hstopped
    exact .secondClone tid child event hevent hreport (hknown (by simp)) hsecond hstopped becomes.tasks
      becomes.newTasks (by rw [becomes.emitted]; rfl) herror hstage
  | firstStop hunknown hfirst becomes =>
    refine .firstStop tid hreport hunknown hfirst becomes.tasks becomes.newTasks
      (by simp [becomes.emitted]) (becomes_isError becomes h.isError (by simp)) ?_
    funext y
    rw [becomes_stage becomes]
    simp [WaitStatus.returned, WaitStatus.ends]
  | secondStop hunknown hsecond becomes =>
    obtain ⟨herror, hstage⟩ := becomes_continued becomes h.isError (by simp [TraceAction.continues])
    exact .secondStop tid hreport hunknown hsecond becomes.tasks becomes.newTasks
      (by rw [becomes.emitted]; rfl) herror hstage

/-- All that an event does. -/
inductive Happens (w : Tracers) : TracingEvent → Tracers → Prop
  | attached {s : TraceThread} (hfresh : s.Fresh) (hnew : ∀ tid ∈ s.tasks, w.tracees tid = none) :
      Happens w (.attached s) {
        threads := w.threads ++ [s]
        tracees := fun tid => if tid ∈ s.tasks then some ⟨w.threads.length, .running⟩ else w.tracees tid }
  | clone {tid child : Int} {event : PtraceEvent} {j : Nat} (htid : w.tracees tid = some ⟨j, .running⟩)
      (hevent : event ≠ .other) (hpos : 0 < child) (hchild : w.tracees child = none) :
      Happens w (.clone tid child event) ((w.put tid ⟨j, .reporting (.stopped (.sigtrap event (some child)))⟩).put child
        ⟨j, .reporting (.stopped .sigstop)⟩)
  | stop {tid : Int} {sig : StopSignal} {j : Nat} (htid : w.tracees tid = some ⟨j, .running⟩)
      (hplain : sig.plain = true) : Happens w (.stop tid sig) (w.put tid ⟨j, .reporting (.stopped sig)⟩)
  | die {tid : Int} {signaled : Bool} {j : Nat} {x : TaskStage} (htid : w.tracees tid = some ⟨j, x⟩) :
      Happens w (.die tid signaled) (w.put tid ⟨j, .reporting (if signaled then .signaled else .exited)⟩)
  | wake {k : Nat} {tid : Int} {alarmOccured exreq : Bool} {j : Nat} {status : WaitStatus} {s t : TraceThread}
      (hs : w.threads[k]? = some s) (htid : w.tracees tid = some ⟨j, .reporting status⟩)
      (hstep : s.step ((w.put tid ⟨j, status.returned⟩).answers k) ⟨tid, status.seenBy (j == k), alarmOccured, exreq⟩ =
        some t) :
      Happens w (.wake k tid alarmOccured exreq) ((w.put tid ⟨j, status.returned⟩).resume k s t)
  | failed {k : Nat} {alarmOccured exreq : Bool} {s t : TraceThread} (hs : w.threads[k]? = some s)
      (hstep : s.step (w.answers k) ⟨-1, .other, alarmOccured, exreq⟩ = some t) :
      Happens w (.failed k alarmOccured exreq) { w with threads := w.threads.set k t }
  | reap {tid : Int} {j : Nat} {status : WaitStatus} (htid : w.tracees tid = some ⟨j, .reporting status⟩) :
      Happens w (.reap tid) (w.put tid ⟨j, status.returned⟩)

theorem tracees_of_traced {tid : Int} {x : Tracee} (h : w.traced tid = some x) : w.tracees tid = some x := by
  simp only [traced, Option.bind_eq_bind, Option.bind_eq_some_iff] at h
  obtain ⟨y, hy, s, hs, h⟩ := h
  split at h
  · cases h
  · exact h ▸ hy

theorem step_happens {e : TracingEvent} (h : w.step e = some w') : w.Happens e w' := by
  cases e with
  | attached s =>
    simp only [step] at h
    split at h
    · rename_i hguard
      cases h
      exact .attached hguard.1 hguard.2
    · cases h
  | clone tid child event =>
    simp only [step, Option.bind_eq_bind, Option.bind_eq_some_iff] at h
    obtain ⟨⟨j, x⟩, htid, h⟩ := h
    split at h
    · rename_i hguard
      cases h
      obtain ⟨rfl, hevent, hpos, hchild⟩ := hguard
      exact .clone (tracees_of_traced htid) hevent hpos hchild
    · cases h
  | stop tid sig =>
    simp only [step, Option.bind_eq_bind, Option.bind_eq_some_iff] at h
    obtain ⟨⟨j, x⟩, htid, h⟩ := h
    split at h
    · rename_i hguard
      cases h
      obtain ⟨rfl, hplain⟩ := hguard
      exact .stop (tracees_of_traced htid) hplain
    · cases h
  | die tid signaled =>
    simp only [step, Option.bind_eq_bind, Option.bind_eq_some_iff] at h
    obtain ⟨⟨j, x⟩, htid, h⟩ := h
    split at h
    · cases h
      exact .die (tracees_of_traced htid)
    · cases h
  | wake k tid alarmOccured exreq =>
    simp only [step, Option.bind_eq_bind, Option.bind_eq_some_iff] at h
    obtain ⟨s, hs, ⟨j, x⟩, htid, h⟩ := h
    split at h
    · rename_i status hstage
      obtain ⟨t, ht, h⟩ := Option.bind_eq_some_iff.mp h
      cases h
      obtain rfl : x = .reporting status := hstage
      exact .wake hs (tracees_of_traced htid) ht
    · cases h
  | failed k alarmOccured exreq =>
    simp only [step, Option.bind_eq_bind, Option.bind_eq_some_iff] at h
    obtain ⟨s, hs, t, ht, h⟩ := h
    cases h
    exact .failed hs ht
  | reap tid =>
    simp only [step, Option.bind_eq_bind, Option.bind_eq_some_iff] at h
    obtain ⟨⟨j, x⟩, htid, h⟩ := h
    split at h
    · rename_i status hstage
      cases h
      obtain rfl : x = .reporting status := hstage
      exact .reap (tracees_of_traced htid)
    · cases h

theorem Bounded.put (h : w.Bounded) {tid : Int} {j : Nat} {x y : TaskStage} (htid : w.tracees tid = some ⟨j, x⟩)
    (hlegible : ∀ status, y = .reporting status → status.legible = true) : (w.put tid ⟨j, y⟩).Bounded := by
  intro z u hz
  by_cases hne : z = tid
  · rw [hne, put_tracees, enter_self] at hz
    cases hz
    exact ⟨(h tid _ htid).1, hne ▸ (h tid _ htid).2.1, hlegible⟩
  · rw [put_tracees, enter_ne _ _ hne] at hz
    exact h z u hz

theorem Bounded.resume (h : w.Bounded) (k : Nat) (s t : TraceThread) : (w.resume k s t).Bounded := by
  intro z u hz
  have hlength : (w.resume k s t).threads.length = w.threads.length := List.length_set
  rw [hlength]
  simp only [Tracers.resume] at hz
  split at hz
  · rename_i hstopped
    cases hz
    exact ⟨(h z _ hstopped.1).1, (h z _ hstopped.1).2.1, by simp⟩
  · exact h z u hz

theorem returned_legible (status : WaitStatus) :
    ∀ report, status.returned = .reporting report → report.legible = true := by
  intro report h
  unfold WaitStatus.returned at h
  split at h <;> cases h

theorem Bounded.happens {e : TracingEvent} (h : w.Bounded) (he : w.Happens e w') : w'.Bounded := by
  cases he with
  | @attached s hfresh hnew =>
    intro tid x hx
    simp only at hx
    simp only [List.length_append, List.length_singleton]
    split at hx
    · rename_i hmem
      cases hx
      exact ⟨Nat.lt_succ_self _, hfresh.2.2.2.2 tid hmem, by simp⟩
    · have hold := h tid x hx
      exact ⟨by omega, hold.2⟩
  | @clone tid child event j htid hevent hpos hchild =>
    have hparent : (w.put tid ⟨j, .reporting (.stopped (.sigtrap event (some child)))⟩).Bounded :=
      h.put htid (by
        rintro status ⟨⟩
        rfl)
    intro z u hz
    by_cases hne : z = child
    · rw [hne, put_tracees, enter_self] at hz
      cases hz
      refine ⟨(h tid _ htid).1, hne ▸ hpos, ?_⟩
      rintro status ⟨⟩
      rfl
    · rw [put_tracees, enter_ne _ _ hne] at hz
      exact hparent z u hz
  | stop htid hplain =>
    refine h.put htid ?_
    rintro status ⟨⟩
    exact legible_of_plain hplain
  | @die tid signaled j x htid =>
    refine h.put htid ?_
    rintro status ⟨⟩
    cases signaled <;> rfl
  | wake hs htid hstep => exact (h.put htid (returned_legible _)).resume _ _ _
  | failed hs hstep =>
    intro tid x hx
    rw [List.length_set]
    exact h tid x hx
  | reap htid => exact h.put htid (returned_legible _)

/-- The event adds the task. -/
def Brings (tid : Int) : TracingEvent → Prop
  | .attached s => tid ∈ s.tasks
  | .clone _ child _ => tid = child
  | _ => False

theorem Happens.unbrought {e : TracingEvent} (he : w.Happens e w') {tid : Int} (h : w.tracees tid = none)
    (hnew : ¬ Brings tid e) : w'.tracees tid = none := by
  have hput {y : Int} {j : Nat} {x : TaskStage} (htid : w.tracees y = some ⟨j, x⟩) (x' : Tracee) :
      (w.put y x').tracees tid = none := by
    have hne : tid ≠ y := by
      rintro rfl
      simp [h] at htid
    rw [put_tracees, enter_ne _ _ hne, h]
  cases he with
  | attached hfresh hfirst => exact (if_neg hnew).trans h
  | clone htid hevent hpos hchild =>
    rw [put_tracees, enter_ne _ _ hnew]
    exact hput htid _
  | stop htid hplain => exact hput htid _
  | die htid => exact hput htid _
  | wake hs htid hstep => simp [resume, hput htid]
  | failed hs hstep => exact h
  | reap htid => exact hput htid _

/-- Only attachments and clones add tasks. -/
theorem tracees_of_unbrought {es : List TracingEvent} (hrun : run step {} es = some w) {tid : Int}
    (h : ∀ e ∈ es, ¬ Brings tid e) : w.tracees tid = none :=
  run_invariant (fun w => w.tracees tid = none)
    (fun _ _ _ hnone hnew hstep => (step_happens hstep).unbrought hnone hnew) rfl (admitted_of_forall step {} h) hrun

/-- The tracer of a task stays the same. -/
theorem Happens.tracer {e : TracingEvent} (he : w.Happens e w') {tid : Int} {j : Nat} {x : TaskStage}
    (htid : w.tracees tid = some ⟨j, x⟩) : ∃ y, w'.tracees tid = some ⟨j, y⟩ := by
  have hput (w : Tracers) {z : Int} {i : Nat} {x y u : TaskStage} (htid : w.tracees tid = some ⟨j, x⟩)
      (hz : w.tracees z = some ⟨i, y⟩) : ∃ y, (w.put z ⟨i, u⟩).tracees tid = some ⟨j, y⟩ := by
    by_cases hne : tid = z
    · rw [hne, hz] at htid
      cases htid
      exact ⟨u, by simp [hne, put]⟩
    · exact ⟨x, by rwa [put_tracees, enter_ne _ _ hne]⟩
  cases he with
  | attached hfresh hnew =>
    refine ⟨x, ?_⟩
    simp only
    rw [if_neg (fun hmem => by simp [hnew tid hmem] at htid), htid]
  | @clone z child event i hz hevent hpos hchild =>
    obtain ⟨y, hy⟩ := hput w (u := .reporting (.stopped (.sigtrap event (some child)))) htid hz
    refine ⟨y, ?_⟩
    have hne : tid ≠ child := by
      rintro rfl
      simp [hchild] at htid
    rwa [put_tracees, enter_ne _ _ hne]
  | stop hz hplain => exact hput w htid hz
  | die hz => exact hput w htid hz
  | @wake i z a b l status s t hs hz hstep =>
    obtain ⟨y, hy⟩ := hput w (u := status.returned) htid hz
    simp only [resume, hy]
    split_ifs with hcont
    · obtain ⟨hcont, -⟩ := hcont
      cases hcont
      exact ⟨_, rfl⟩
    · exact ⟨_, rfl⟩
  | failed hs hstep => exact ⟨x, htid⟩
  | reap hz => exact hput w htid hz

theorem answers_cont (w : Tracers) (k n : Nat) (tid : Int) : (w.answers k).cont n tid = (w.answers k).cont 0 tid := rfl

/-- A thread that has ended stays as it is, and none takes anything back. -/
theorem Happens.thread {e : TracingEvent} (he : w.Happens e w') (hs : w.threads[k]? = some s) :
    ∃ t, w'.threads[k]? = some t ∧ TraceThread.Later s t ∧ (s.ended = true → t.ended = true) := by
  have hstay : ∃ t, w.threads[k]? = some t ∧ TraceThread.Later s t ∧ (s.ended = true → t.ended = true) :=
    ⟨s, hs, .refl s, id⟩
  have hlt : k < w.threads.length := (List.getElem?_eq_some_iff.mp hs).1
  have hset {p : Ptrace} {i : Nat} {u t : TraceThread} {v : Wake} (hp : ∀ n tid, p.cont n tid = p.cont 0 tid)
      (hu : w.threads[i]? = some u) (hstep : u.step p v = some t) :
      ∃ t', (w.threads.set i t)[k]? = some t' ∧ TraceThread.Later s t' ∧ (s.ended = true → t'.ended = true) := by
    by_cases hik : i = k
    · subst hik
      obtain rfl : s = u := Option.some.inj (hs.symm.trans hu)
      refine ⟨t, by rw [List.getElem?_set_self hlt], TraceThread.step_later hp hstep, fun hended => ?_⟩
      simp [(TraceThread.step_cases hstep).1] at hended
    · rw [List.getElem?_set_ne hik]
      exact hstay
  cases he with
  | attached hfresh hnew =>
    rw [List.getElem?_append_left hlt]
    exact hstay
  | clone htid hevent hpos hchild => exact hstay
  | stop htid hplain => exact hstay
  | die htid => exact hstay
  | wake hu htid hstep => exact hset (answers_cont _ _) hu hstep
  | failed hu hstep => exact hset (answers_cont _ _) hu hstep
  | reap htid => exact hstay

theorem stage_of_owner {tid : Int} {j : Nat} {x : TaskStage} (h : w.tracees tid = some ⟨j, x⟩) :
    w.stage j tid = some x := stage_eq_some.mpr h

theorem stage_of_stranger {tid : Int} {j : Nat} {x : TaskStage} (h : w.tracees tid = some ⟨j, x⟩) (hj : j ≠ k) :
    w.stage k tid = none := by rw [stage_of_tracees h, if_neg hj]

/-- The wait of a thread for its own task. -/
theorem moves_of_wake {tid : Int} {status : WaitStatus} {alarmOccured exreq : Bool} (hbound : w.Bounded)
    (h : Sound s (w.stage k)) (htid : w.tracees tid = some ⟨k, .reporting status⟩)
    (hstep : s.step ((w.put tid ⟨k, status.returned⟩).answers k) ⟨tid, status.seenBy (k == k), alarmOccured, exreq⟩ =
      some t) :
    t.ended = true ∨ Moves s (w.stage k) t (((w.put tid ⟨k, status.returned⟩).resume k s t).stage k) := by
  obtain ⟨-, hpos, hlegible⟩ := hbound tid _ htid
  have hseen : status.seenBy (k == k) = status := by
    cases status with
    | stopped sig => cases sig <;> simp [WaitStatus.seenBy]
    | _ => rfl
  rw [hseen] at hstep
  obtain ⟨-, ⟨-, rfl⟩ | ⟨-, hfailed, -⟩ | ⟨-, -, rfl⟩⟩ := TraceThread.step_cases hstep
  · exact .inl rfl
  · exact absurd hfailed (by simp only; omega)
  · exact .inr (moves_of_deals h (stage_of_owner htid)
      (TraceThread.handle_deals (answers_cont _ _) s tid (hlegible status rfl)))

/-- What the task of another thread does. -/
theorem moves_of_stranger {tid : Int} {j : Nat} {x : TaskStage} (hj : j ≠ k) (htid : w.tracees tid = some ⟨j, x⟩)
    (y : TaskStage) : Moves s (w.stage k) s ((w.put tid ⟨j, y⟩).stage k) :=
  .same rfl rfl rfl rfl (stage_put_ne hj (stage_of_stranger htid hj) y)

theorem moves_of_clone {tid child : Int} {event : PtraceEvent} {j : Nat} (htid : w.tracees tid = some ⟨j, .running⟩)
    (hevent : event ≠ .other) (hchild : w.tracees child = none) :
    Moves s (w.stage k) s (((w.put tid ⟨j, .reporting (.stopped (.sigtrap event (some child)))⟩).put child
      ⟨j, .reporting (.stopped .sigstop)⟩).stage k) := by
  have hborn : w.stage k child = none := by rw [stage, hchild]
  by_cases hj : j = k
  · subst hj
    refine .cloned tid child event (stage_of_owner htid) hborn hevent rfl ?_
    rw [stage_put, stage_put]
  · have htid' := stage_of_stranger htid hj
    refine .same rfl rfl rfl rfl ?_
    rw [stage_put_ne hj (by rwa [stage_put_ne hj htid']), stage_put_ne hj htid']

theorem moves_of_die {tid : Int} {signaled : Bool} {j : Nat} {x : TaskStage} (hs : w.threads[k]? = some s)
    (h : Sound s (w.stage k)) (htid : w.tracees tid = some ⟨j, x⟩) (htimely : Timely w (.die tid signaled)) :
    Moves s (w.stage k) s
      ((w.put tid ⟨j, .reporting (if signaled then .signaled else .exited)⟩).stage k) := by
  by_cases hj : j = k
  · subst hj
    have hends : (if signaled then WaitStatus.signaled else .exited).ends = true := by cases signaled <;> rfl
    have hstage := stage_of_owner htid
    rcases htimely j s x hs hstage with rfl | ⟨sig, rfl, hplain, hknown⟩
    · exact .dies tid _ hends (h.task_of_running hstage) (.inl hstage) rfl (stage_put _ _ _ _)
    · exact .dies tid _ hends hknown (.inr ⟨sig, hstage, hplain⟩) rfl (stage_put _ _ _ _)
  · exact moves_of_stranger hj htid _

/-- The failed wait of a thread is not a report that sets the error state. -/
theorem moves_of_failure {alarmOccured exreq : Bool}
    (hstep : s.step (w.answers k) ⟨-1, .other, alarmOccured, exreq⟩ = some t) :
    t.ended = true ∨ Moves s (w.stage k) t (w.stage k) := by
  obtain ⟨-, ⟨-, rfl⟩ | ⟨-, -, rfl⟩ | ⟨-, hreported, -⟩⟩ := TraceThread.step_cases hstep
  · exact .inl rfl
  · cases alarmOccured with
    | true => exact .inr (.same rfl rfl rfl rfl rfl)
    | false => exact .inr (.same rfl rfl rfl (by simp [TraceThread.report, setsError]) rfl)
  · exact absurd rfl hreported

/-- What one event does to a thread that gets the reports of its own tasks and no others. -/
theorem Happens.moves {e : TracingEvent} (he : w.Happens e w') (hbound : w.Bounded) (hs : w.threads[k]? = some s)
    (h : Sound s (w.stage k)) (htimely : Timely w e) (hseparate : Separate k w e) :
    ∃ t, w'.threads[k]? = some t ∧ (t.ended = true ∨ Moves s (w.stage k) t (w'.stage k)) := by
  have hlt : k < w.threads.length := (List.getElem?_eq_some_iff.mp hs).1
  cases he with
  | @attached u hfresh hnew =>
    refine ⟨s, by rwa [List.getElem?_append_left hlt], .inr (.same rfl rfl rfl rfl ?_)⟩
    funext tid
    simp only [stage]
    by_cases hmem : tid ∈ u.tasks
    · rw [if_pos hmem, hnew tid hmem]
      exact if_neg (Nat.ne_of_gt hlt)
    · rw [if_neg hmem]
  | clone htid hevent hpos hchild => exact ⟨s, hs, .inr (moves_of_clone htid hevent hchild)⟩
  | @stop tid sig j htid hplain =>
    refine ⟨s, hs, .inr ?_⟩
    by_cases hj : j = k
    · subst hj
      exact .stops tid sig (stage_of_owner htid) hplain rfl (stage_put _ _ _ _)
    · exact moves_of_stranger hj htid _
  | die htid => exact ⟨s, hs, .inr (moves_of_die hs h htid htimely)⟩
  | @wake i tid alarmOccured exreq j status u t hu htid hstep =>
    by_cases hik : i = k
    · subst hik
      obtain rfl : s = u := Option.some.inj (hs.symm.trans hu)
      have hown : j = i := by
        by_contra hj
        have hsome := hseparate.mp rfl
        simp [stage_of_stranger htid hj] at hsome
      subst hown
      exact ⟨t, List.getElem?_set_self hlt, moves_of_wake hbound h htid hstep⟩
    · have hj : j ≠ k := by
        rintro rfl
        exact hik (hseparate.mpr (by simp [stage_of_owner htid]))
      refine ⟨s, by rwa [resume, List.getElem?_set_ne hik], .inr (.same rfl rfl rfl rfl ?_)⟩
      rw [stage_resume_ne hik, stage_put_ne hj (stage_of_stranger htid hj)]
  | @failed i alarmOccured exreq u t hu hstep =>
    by_cases hik : i = k
    · subst hik
      obtain rfl : s = u := Option.some.inj (hs.symm.trans hu)
      exact ⟨t, List.getElem?_set_self hlt, moves_of_failure hstep⟩
    · exact ⟨s, by rwa [List.getElem?_set_ne hik], .inr (.same rfl rfl rfl rfl rfl)⟩
  | @reap tid j status htid =>
    have hj : j ≠ k := by
      rintro rfl
      simp [Separate, stage_of_owner htid] at hseparate
    exact ⟨s, hs, .inr (moves_of_stranger hj htid _)⟩

end Tracers

end AutopinPlus
