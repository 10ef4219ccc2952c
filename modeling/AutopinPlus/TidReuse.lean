import AutopinPlus.TraceThread

/-!
# Early deaths and reused tids

A task may die at any time, and the kernel may give its tid to another one. The tracer takes
a dead task out of `tasks` and not out of `new_tasks`, where every later notification for the
tid counts as the second of two. Its sets are right as long as no task dies halfway through its birth.
-/
namespace AutopinPlus

open PartialStep

/-- A wake, and which of the tasks that have had the tid it is about. -/
structure NotedWake where
  wake : Wake
  incarnation : Nat
  deriving DecidableEq, Repr

/-- What a list of wakes tells about the tasks that have had a tid. -/
def notesOf (tid : Int) (ws : List NotedWake) : List (Nat × Sight) :=
  ws.filterMap fun w => w.wake.sight.bind fun x => if x.1 = tid then some (w.incarnation, x.2) else none

theorem notesOf_append (tid : Int) (ws vs : List NotedWake) :
    notesOf tid (ws ++ vs) = notesOf tid ws ++ notesOf tid vs := List.filterMap_append

theorem notesOf_of_sight {tid : Int} {x : Sight} {w : NotedWake} (h : w.wake.sight = some (tid, x)) (y : Int) :
    notesOf y [w] = if tid = y then [(w.incarnation, x)] else [] := by
  by_cases hy : tid = y <;> simp [notesOf, h, hy]

theorem notesOf_of_quiet {w : NotedWake} (h : w.wake.sight = none) (y : Int) : notesOf y [w] = [] := by
  simp [notesOf, h]

/-- How many tasks have had the tid before, and how far the present one is. -/
structure Lived where
  incarnation : Nat
  life : Life
  deriving DecidableEq, Repr

namespace Lived

/-- Each task that gets the tid goes through its life, and then the tid is free for another. No
task dies between its two notifications, and nothing is heard of a dead one. -/
def next (l : Lived) (note : Nat × Sight) : Option Lived :=
  if note.1 = l.incarnation then
    match note.2 with
    | .exited => if l.life = .unborn ∨ l.life = .live then some ⟨l.incarnation + 1, .unborn⟩ else none
    | .cloned => (l.life.next .cloned).map (mk l.incarnation)
    | .stopped => (l.life.next .stopped).map (mk l.incarnation)
  else none

def initial (tasks : TidSet) (tid : Int) : Lived := ⟨0, .initial tasks tid⟩

variable {l l' : Lived} {n : Nat} {x : Sight}

theorem next_incarnation (h : l.next (n, x) = some l') : n = l.incarnation := by
  by_contra hn
  simp [next, hn] at h

theorem next_exited (h : l.next (n, .exited) = some l') :
    (l.life = .unborn ∨ l.life = .live) ∧ l' = ⟨n + 1, .unborn⟩ := by
  obtain rfl := next_incarnation h
  simp only [next, if_true] at h
  split at h
  · rename_i hl
    exact ⟨hl, (Option.some.inj h).symm⟩
  · cases h

theorem next_born (hx : x ≠ .exited) (h : l.next (n, x) = some l') :
    l'.incarnation = n ∧ l.life.next x = some l'.life := by
  obtain rfl := next_incarnation h
  cases x with
  | exited => exact absurd rfl hx
  | cloned =>
    simp only [next, if_true] at h
    obtain ⟨life, hlife, rfl⟩ := Option.map_eq_some_iff.mp h
    exact ⟨rfl, hlife⟩
  | stopped =>
    simp only [next, if_true] at h
    obtain ⟨life, hlife, rfl⟩ := Option.map_eq_some_iff.mp h
    exact ⟨rfl, hlife⟩

end Lived

/-- The stage of a task by which of its notifications are in; one that was attached to is live
without them. -/
def Life.Noted (cloned stopped attached : Prop) : Life → Prop
  | .unborn => ¬ cloned ∧ ¬ stopped ∧ ¬ attached
  | .cloned => cloned ∧ ¬ stopped ∧ ¬ attached
  | .stopped => ¬ cloned ∧ stopped ∧ ¬ attached
  | .live => ¬ cloned ∧ attached ∨ cloned ∧ stopped ∧ ¬ attached
  | .gone => False

namespace Life.Noted

variable {cloned stopped attached : Prop} {k l : Life}

theorem next_cloned (h : k.Noted cloned stopped attached) (hnext : k.next .cloned = some l) :
    l.Noted True stopped attached := by
  cases k with
  | unborn =>
    cases hnext
    exact ⟨trivial, h.2⟩
  | stopped =>
    cases hnext
    exact .inr ⟨trivial, h.2⟩
  | cloned => cases hnext
  | live => cases hnext
  | gone => cases hnext

theorem next_stopped (h : k.Noted cloned stopped attached) (hnext : k.next .stopped = some l) :
    l.Noted cloned True attached := by
  cases k with
  | unborn =>
    cases hnext
    exact ⟨h.1, trivial, h.2.2⟩
  | cloned =>
    cases hnext
    exact .inr ⟨h.1, trivial, h.2.2⟩
  | live =>
    cases hnext
    rcases h with h | h
    · exact .inl h
    · exact .inr ⟨h.1, trivial, h.2.2⟩
  | stopped => cases hnext
  | gone => cases hnext

theorem not_attached (h : l.Noted cloned stopped attached) (hl : l ≠ .live) : ¬ attached := by
  cases l with
  | unborn => exact h.2.2
  | cloned => exact h.2.2
  | stopped => exact h.2.2
  | live => exact absurd rfl hl
  | gone => exact h.elim

theorem both_iff (h : l.Noted cloned stopped attached) : cloned ∧ stopped ↔ l = .live ∧ ¬ attached := by
  cases l <;> simp_all [Life.Noted]
  tauto

end Life.Noted

/-- Both notifications of one of the tasks that have had the tid. -/
def BothNoted (n : Nat) (notes : List (Nat × Sight)) : Prop := (n, .cloned) ∈ notes ∧ (n, .stopped) ∈ notes

instance (n : Nat) (notes : List (Nat × Sight)) : Decidable (BothNoted n notes) :=
  inferInstanceAs (Decidable (_ ∧ _))

namespace Lived

variable {l l' : Lived} {notes : List (Nat × Sight)} {note : Nat × Sight} {attached : Prop}

/-- The notes are about the tasks so far, and say how far the present one is. -/
structure Recorded (attached : Prop) (notes : List (Nat × Sight)) (l : Lived) : Prop where
  bound : ∀ note ∈ notes, note.1 ≤ l.incarnation
  stage : l.life.Noted ((l.incarnation, .cloned) ∈ notes) ((l.incarnation, .stopped) ∈ notes)
    (attached ∧ l.incarnation = 0)

theorem recorded_initial (tasks : TidSet) (tid : Int) : Recorded (tid ∈ tasks) [] (initial tasks tid) := by
  refine ⟨by simp, ?_⟩
  by_cases h : tid ∈ tasks <;> simp [initial, Life.initial, h, Life.Noted]

theorem Recorded.next (h : l.Recorded attached notes) (hnext : l.next note = some l') :
    l'.Recorded attached (notes ++ [note]) := by
  obtain ⟨n, x⟩ := note
  obtain rfl := next_incarnation hnext
  have hbound : ∀ note ∈ notes ++ [(l.incarnation, x)], note.1 ≤ l.incarnation := by
    intro note hmem
    rcases List.mem_append.mp hmem with hmem | hmem
    · exact h.bound note hmem
    · rw [List.mem_singleton.mp hmem]
  cases x with
  | exited =>
    obtain ⟨-, rfl⟩ := next_exited hnext
    have hnew : ∀ y, (l.incarnation + 1, y) ∉ notes ++ [(l.incarnation, .exited)] := by
      intro y hmem
      exact absurd (hbound _ hmem) (Nat.not_succ_le_self _)
    exact ⟨fun note hmem => (hbound note hmem).trans (Nat.le_succ _), hnew _, hnew _, by simp⟩
  | cloned =>
    obtain ⟨hsame, hborn⟩ := next_born (by decide) hnext
    have hstage := h.stage.next_cloned hborn
    exact ⟨hsame ▸ hbound, by simpa [hsame] using hstage⟩
  | stopped =>
    obtain ⟨hsame, hborn⟩ := next_born (by decide) hnext
    have hstage := h.stage.next_stopped hborn
    exact ⟨hsame ▸ hbound, by simpa [hsame] using hstage⟩

theorem Recorded.run {more : List (Nat × Sight)} (h : l.Recorded attached notes)
    (hrun : PartialStep.run Lived.next l more = some l') : l'.Recorded attached (notes ++ more) := by
  induction more generalizing l notes with
  | nil =>
    cases hrun
    rwa [List.append_nil]
  | cons note more ih =>
    rw [run_cons] at hrun
    obtain ⟨m, hm, hrest⟩ := Option.bind_eq_some_iff.mp hrun
    have hall := ih (h.next hm) hrest
    rwa [List.append_assoc] at hall

/-- A note completes the birth of the task it is about, and of no other. -/
theorem Recorded.completes_iff (h : l.Recorded attached notes) (hnext : l.next note = some l') :
    (l.life ≠ .live ∧ l'.life = .live) ↔ ∃ n, ¬ BothNoted n notes ∧ BothNoted n (notes ++ [note]) := by
  have h' := h.next hnext
  obtain ⟨n, x⟩ := note
  obtain rfl := next_incarnation hnext
  have hbefore : BothNoted l.incarnation notes ↔ _ := h.stage.both_iff
  have hafter : BothNoted l'.incarnation (notes ++ [(l.incarnation, x)]) ↔ _ := h'.stage.both_iff
  constructor
  · rintro ⟨hl, hl'⟩
    have hsame : l'.incarnation = l.incarnation := by
      cases x with
      | exited =>
        rw [(next_exited hnext).2] at hl'
        cases hl'
      | cloned => exact (next_born (by decide) hnext).1
      | stopped => exact (next_born (by decide) hnext).1
    refine ⟨l.incarnation, fun hboth => hl (hbefore.mp hboth).1, ?_⟩
    rw [hsame] at hafter
    exact hafter.mpr ⟨hl', h.stage.not_attached hl⟩
  · rintro ⟨n, hnot, hboth⟩
    have hx : x ≠ .exited ∧ n = l.incarnation := by
      by_contra hne
      have hold : ∀ y ≠ .exited, (n, y) ∈ notes ++ [(l.incarnation, x)] → (n, y) ∈ notes := by
        intro y hy hmem
        rcases List.mem_append.mp hmem with hmem | hmem
        · exact hmem
        · cases List.mem_singleton.mp hmem
          exact absurd ⟨hy, rfl⟩ hne
      exact hnot ⟨hold _ (by decide) hboth.1, hold _ (by decide) hboth.2⟩
    obtain ⟨hx, rfl⟩ := hx
    have hsame := (next_born hx hnext).1
    rw [hsame] at hafter
    obtain ⟨hl', hfirst⟩ := hafter.mp hboth
    exact ⟨fun hl => hnot (hbefore.mpr ⟨hl, hfirst⟩), hl'⟩

end Lived

/-- No task dies halfway through its birth, and no notification about a task comes after its death. -/
def Undisturbed (tasks : TidSet) (ws : List NotedWake) : Prop :=
  ∀ tid, (run Lived.next (.initial tasks tid) (notesOf tid ws)).isSome

/-- Where the wakes leave every tid. -/
def Reach (ws : List NotedWake) (lived lived' : Int → Lived) : Prop :=
  ∀ tid, run Lived.next (lived tid) (notesOf tid ws) = some (lived' tid)

theorem Reach.split {ws vs : List NotedWake} {lived lived' : Int → Lived} (h : Reach (ws ++ vs) lived lived') :
    ∃ mid, Reach ws lived mid ∧ Reach vs mid lived' := by
  have hmid : ∀ tid, ∃ l, run Lived.next (lived tid) (notesOf tid ws) = some l ∧
      run Lived.next l (notesOf tid vs) = some (lived' tid) := by
    intro tid
    have htid := h tid
    rw [notesOf_append, run_append] at htid
    exact Option.bind_eq_some_iff.mp htid
  choose mid hfirst hlast using hmid
  exact ⟨mid, hfirst, hlast⟩

theorem Undisturbed.reach {tasks : TidSet} {ws : List NotedWake} (h : Undisturbed tasks ws) :
    ∃ lived, Reach ws (.initial tasks) lived := by
  choose lived hlived using fun tid => Option.isSome_iff_exists.mp (h tid)
  exact ⟨lived, hlived⟩

namespace TraceThread

variable {p : Ptrace} {s t : TraceThread} {w : NotedWake} {lived lived' : Int → Lived}

/-- `tasks` has the tids of the live tasks and `new_tasks` those of the half-born ones. -/
structure Tracks (s : TraceThread) (lived : Int → Lived) : Prop where
  live : ∀ tid, tid ∈ s.tasks ↔ (lived tid).life = .live
  halfway : ∀ tid, tid ∈ s.newTasks ↔ (lived tid).life = .cloned ∨ (lived tid).life = .stopped

theorem reach_of_quiet (h : Reach [w] lived lived') (hsight : w.wake.sight = none) : lived' = lived := by
  funext tid
  have htid := h tid
  rw [notesOf_of_quiet hsight, run_nil] at htid
  exact (Option.some.inj htid).symm

theorem reach_of_sight (h : Reach [w] lived lived') {tid : Int} {x : Sight}
    (hsight : w.wake.sight = some (tid, x)) :
    (lived tid).next (w.incarnation, x) = some (lived' tid) ∧ ∀ y, y ≠ tid → lived' y = lived y := by
  constructor
  · have htid := h tid
    rw [notesOf_of_sight hsight, if_pos rfl, run_cons] at htid
    simpa using htid
  · intro y hy
    have hother := h y
    rw [notesOf_of_sight hsight, if_neg (Ne.symm hy), run_nil] at hother
    exact (Option.some.inj hother).symm

/-- What is handed to `newTask` is the first or the second notification of a task, as `new_tasks` says. -/
theorem Hands.reach (hs : Tracks s lived) {tid : Int} (hands : s.Hands w.wake tid)
    (h : Reach [w] lived lived') :
    (lived tid).life ≠ .live ∧
    (tid ∈ s.newTasks → (lived' tid).life = .live) ∧
    (tid ∉ s.newTasks → (lived' tid).life = .cloned ∨ (lived' tid).life = .stopped) ∧
    ∀ y, y ≠ tid → lived' y = lived y := by
  have hnext : ∃ x, w.wake.sight = some (tid, x) ∧ (lived tid).life ≠ .live ∧
      (lived tid).life.next x = some (lived' tid).life ∧ x ≠ .exited := by
    rcases hands with hsight | ⟨hsight, hout⟩
    · have hborn := (Lived.next_born (by decide) (reach_of_sight h hsight).1).2
      refine ⟨.cloned, hsight, ?_, hborn, by decide⟩
      intro hl
      rw [hl] at hborn
      cases hborn
    · have hborn := (Lived.next_born (by decide) (reach_of_sight h hsight).1).2
      exact ⟨.stopped, hsight, mt (hs.live tid).mpr hout, hborn, by decide⟩
  obtain ⟨x, hsight, hnotLive, hborn, hexit⟩ := hnext
  refine ⟨hnotLive, ?_, ?_, (reach_of_sight h hsight).2⟩
  · intro hmem
    rcases (hs.halfway tid).mp hmem with hl | hl <;> rw [hl] at hborn <;> cases x <;> simp_all [Life.next]
  · intro hmem
    rw [hs.halfway tid] at hmem
    cases hl : (lived tid).life <;> rw [hl] at hborn hmem hnotLive <;> cases x <;> simp_all [Life.next]

/-- The part about one tid is enough when nothing else has changed. -/
theorem Tracks.of_moved (tid : Int) (hs : Tracks s lived) (hothers : ∀ y, y ≠ tid → lived' y = lived y)
    (htasks : ∀ y, y ≠ tid → (y ∈ t.tasks ↔ y ∈ s.tasks))
    (hnew : ∀ y, y ≠ tid → (y ∈ t.newTasks ↔ y ∈ s.newTasks))
    (hlive : tid ∈ t.tasks ↔ (lived' tid).life = .live)
    (hhalf : tid ∈ t.newTasks ↔ (lived' tid).life = .cloned ∨ (lived' tid).life = .stopped) :
    Tracks t lived' := by
  constructor
  · intro y
    by_cases hy : y = tid
    · exact hy ▸ hlive
    · rw [htasks y hy, hothers y hy]
      exact hs.live y
  · intro y
    by_cases hy : y = tid
    · exact hy ▸ hhalf
    · rw [hnew y hy, hothers y hy]
      exact hs.halfway y

/-- The births that a wake completes. -/
def Completes (lived lived' : Int → Lived) (tid : Int) : Prop :=
  (lived tid).life ≠ .live ∧ (lived' tid).life = .live

theorem not_completes_of_eq {tid : Int} (h : lived' tid = lived tid) : ¬ Completes lived lived' tid := by
  rintro ⟨hbefore, hafter⟩
  exact hbefore (h ▸ hafter)

theorem completes_iff_of_moved {tid : Int} (hothers : ∀ y, y ≠ tid → lived' y = lived y) (y : Int) :
    Completes lived lived' y ↔ y = tid ∧ Completes lived lived' tid := by
  by_cases hy : y = tid
  · simp [hy]
  · simp [hy, not_completes_of_eq (hothers y hy)]

/-- A wake keeps the sets right, and a task is announced by the wake that completes its birth. -/
theorem tracks_step (hs : Tracks s lived) (hjoins : s.Joins w.wake t) (h : Reach [w] lived lived') :
    Tracks t lived' ∧
    ∃ new, t.emitted = s.emitted ++ new ∧ ∀ tid, .created tid ∈ new ↔ Completes lived lived' tid := by
  cases hjoins with
  | quiet hsight htasks hnew hemitted =>
    obtain rfl := reach_of_quiet h hsight
    refine ⟨⟨htasks ▸ hs.live, hnew ▸ hs.halfway⟩, [], by rw [hemitted, List.append_nil], fun tid => ?_⟩
    simp [not_completes_of_eq rfl]
  | exited tid hsight htasks hnew hhist =>
    obtain ⟨hnext, hothers⟩ := reach_of_sight h hsight
    obtain ⟨hl, hl'⟩ := Lived.next_exited hnext
    have hunborn : (lived' tid).life = .unborn := by rw [hl']
    refine ⟨hs.of_moved tid hothers ?_ ?_ ?_ ?_, [.terminated tid], emitted_append hhist, fun y => ?_⟩
    · intro y hy
      simp [htasks, hy]
    · intro y _
      rw [hnew]
    · simp [htasks, hunborn]
    · rw [hnew, hs.halfway tid]
      rcases hl with hl | hl <;> simp [hl, hunborn]
    · rw [completes_iff_of_moved hothers]
      simp [Completes, hunborn]
  | continued tid hsight hknown htasks hnew hhist =>
    obtain ⟨hnext, hothers⟩ := reach_of_sight h hsight
    have hlive := (hs.live tid).mp hknown
    have hlive' : (lived' tid).life = .live := by
      have hborn := (Lived.next_born (by decide) hnext).2
      rw [hlive] at hborn
      exact (Option.some.inj hborn).symm
    refine ⟨hs.of_moved tid hothers ?_ ?_ ?_ ?_, [], emitted_append hhist, fun y => ?_⟩
    · intro y _
      rw [htasks]
    · intro y _
      rw [hnew]
    · simp [htasks, hknown, hlive']
    · rw [hnew, hs.halfway tid]
      simp [hlive, hlive']
    · rw [completes_iff_of_moved hothers]
      simp [Completes, hlive]
  | remembered tid hands hfirst htasks hnew hhist =>
    obtain ⟨hnotLive, -, hhalf, hothers⟩ := hands.reach hs h
    have hhalf := hhalf hfirst
    have hnotLive' : (lived' tid).life ≠ .live := by rcases hhalf with hl | hl <;> simp [hl]
    have hemitted : t.emitted = s.emitted ++ [] := by rw [emitted_remembered hhist, List.append_nil]
    refine ⟨hs.of_moved tid hothers ?_ ?_ ?_ ?_, [], hemitted, fun y => ?_⟩
    · intro y _
      rw [htasks]
    · intro y hy
      simp [hnew, hy]
    · rw [htasks, hs.live tid]
      simp [hnotLive, hnotLive']
    · simp [hnew, hhalf]
    · rw [completes_iff_of_moved hothers]
      simp [Completes, hnotLive']
  | joined tid hands hsecond htasks hnew hhist =>
    obtain ⟨hnotLive, hlive, -, hothers⟩ := hands.reach hs h
    have hlive := hlive hsecond
    refine ⟨hs.of_moved tid hothers ?_ ?_ ?_ ?_, [.created tid], emitted_joined hhist, fun y => ?_⟩
    · intro y hy
      simp [htasks, hy]
    · intro y hy
      simp [hnew, hy]
    · simp [htasks, hlive]
    · simp [hnew, hlive]
    · rw [completes_iff_of_moved hothers]
      simp [Completes, hlive, hnotLive]

theorem tracks_run {ws : List NotedWake} (hs : Tracks s lived) (hread : ∀ w ∈ ws, w.wake.Readable)
    (h : Reach ws lived lived') (hrun : run (step p) s (ws.map NotedWake.wake) = some t) :
    Tracks t lived' := by
  induction ws generalizing s lived with
  | nil =>
    cases hrun
    obtain rfl : lived = lived' := funext fun tid => Option.some.inj (h tid)
    exact hs
  | cons w ws ih =>
    rw [List.map_cons, run_cons] at hrun
    obtain ⟨u, hu, hrest⟩ := Option.bind_eq_some_iff.mp hrun
    obtain ⟨mid, hfirst, hlast⟩ : ∃ mid, Reach [w] lived mid ∧ Reach ws mid lived' := Reach.split h
    have hmid := (tracks_step hs (step_joins hu (hread w (by simp))) hfirst).1
    exact ih hmid (fun v hv => hread v (List.mem_cons_of_mem w hv)) hlast hrest

theorem tracks_initial (hnew : s.newTasks = .empty) : Tracks s (Lived.initial s.tasks) where
  live tid := by by_cases h : tid ∈ s.tasks <;> simp [Lived.initial, Life.initial, h]
  halfway tid := by by_cases h : tid ∈ s.tasks <;> simp [Lived.initial, Life.initial, h, hnew]

theorem Tracks.disjoint (hs : Tracks s lived) (tid : Int) : ¬ (tid ∈ s.tasks ∧ tid ∈ s.newTasks) := by
  rintro ⟨htask, hnewTask⟩
  have hl := (hs.live tid).mp htask
  rcases (hs.halfway tid).mp hnewTask with hl' | hl' <;> simp [hl] at hl'

/-- After the death of a task nothing is left of it. -/
theorem Tracks.of_exited {ws : List NotedWake} {start : Int → Lived} (hs : Tracks s lived)
    (h : Reach ws start lived) {tid : Int} {n : Nat} (hlast : (notesOf tid ws).getLast? = some (n, .exited)) :
    tid ∉ s.tasks ∧ tid ∉ s.newTasks := by
  obtain ⟨notes, hnotes⟩ := List.getLast?_eq_some_iff.mp hlast
  have htid := h tid
  rw [hnotes, run_append] at htid
  obtain ⟨l, -, hl⟩ := Option.bind_eq_some_iff.mp htid
  rw [run_cons] at hl
  obtain ⟨l', hnext, hl'⟩ := Option.bind_eq_some_iff.mp hl
  cases hl'
  have hunborn : (lived tid).life = .unborn := by rw [(Lived.next_exited hnext).2]
  rw [hs.live tid, hs.halfway tid]
  simp [hunborn]

/-- A wake completes the birth of the task whose second notification it is. -/
theorem completes_iff {ws : List NotedWake} {tasks : TidSet} (hbefore : Reach ws (.initial tasks) lived)
    (h : Reach [w] lived lived') (tid : Int) :
    Completes lived lived' tid ↔
      ∃ n, ¬ BothNoted n (notesOf tid ws) ∧ BothNoted n (notesOf tid (ws ++ [w])) := by
  rw [notesOf_append]
  have hrecorded : (lived tid).Recorded (tid ∈ tasks) (notesOf tid ws) := by
    simpa using (Lived.recorded_initial tasks tid).run (hbefore tid)
  have hquiet : notesOf tid [w] = [] → (Completes lived lived' tid ↔
      ∃ n, ¬ BothNoted n (notesOf tid ws) ∧ BothNoted n (notesOf tid ws ++ notesOf tid [w])) := by
    intro hnone
    have htid := h tid
    rw [hnone, run_nil] at htid
    simp [hnone, not_completes_of_eq (Option.some.inj htid).symm]
  cases hsight : w.wake.sight with
  | none => exact hquiet (notesOf_of_quiet hsight tid)
  | some seen =>
    obtain ⟨y, x⟩ := seen
    by_cases hy : y = tid
    · subst hy
      have hnext := (reach_of_sight h hsight).1
      rw [notesOf_of_sight hsight, if_pos rfl]
      exact hrecorded.completes_iff hnext
    · exact hquiet (by rw [notesOf_of_sight hsight, if_neg hy])

/-- Where no task dies halfway through its birth, the sets stay disjoint, a dead task is in neither
of them, and a task is announced with the second of its own notifications, whoever had the tid before. -/
theorem sets_clean (p : Ptrace) (s t : TraceThread) (ws : List NotedWake) (hnew : s.newTasks = .empty)
    (hread : ∀ w ∈ ws, w.wake.Readable) (hlives : Undisturbed s.tasks ws)
    (hrun : run (step p) s (ws.map NotedWake.wake) = some t) :
    (∀ tid, ¬ (tid ∈ t.tasks ∧ tid ∈ t.newTasks)) ∧
    (∀ tid n, (notesOf tid ws).getLast? = some (n, .exited) → tid ∉ t.tasks ∧ tid ∉ t.newTasks) ∧
    ∀ before w after u v, ws = before ++ w :: after →
      run (step p) s (before.map NotedWake.wake) = some u → step p u w.wake = some v →
      ∃ new, v.emitted = u.emitted ++ new ∧ ∀ tid, .created tid ∈ new ↔
        ∃ n, ¬ BothNoted n (notesOf tid before) ∧ BothNoted n (notesOf tid (before ++ [w])) := by
  obtain ⟨lived, hlived⟩ := hlives.reach
  have ht : Tracks t lived := tracks_run (tracks_initial hnew) hread hlived hrun
  refine ⟨ht.disjoint, fun tid n hlast => ht.of_exited hlived hlast, ?_⟩
  rintro before w after u v rfl hu hv
  rw [show before ++ w :: after = before ++ ([w] ++ after) from rfl] at hlived
  obtain ⟨mid, hbefore, hrest⟩ := hlived.split
  obtain ⟨mid', hw, -⟩ := hrest.split
  have hmid : Tracks u mid :=
    tracks_run (tracks_initial hnew) (fun w hw => hread w (List.mem_append_left _ hw)) hbefore hu
  obtain ⟨-, new, hemitted, hcreated⟩ := tracks_step hmid (step_joins hv (hread w (by simp))) hw
  exact ⟨new, hemitted, fun tid => (hcreated tid).trans (completes_iff hbefore hw tid)⟩

def sole : TraceThread := { pid := 10, eventMsg := 0, tasks := .singleton 10 }

def clone (tid : Int) (n : Nat) : NotedWake := ⟨⟨10, .stopped (.sigtrap .clone (some tid)), false, false⟩, n⟩

def stop (tid : Int) (n : Nat) : NotedWake := ⟨⟨tid, .stopped .sigstop, false, false⟩, n⟩

def kill (tid : Int) (n : Nat) : NotedWake := ⟨⟨tid, .signaled, false, false⟩, n⟩

/-- Task 11 lives and dies, and another task gets its tid. -/
def reused : List NotedWake := [clone 11 0, stop 11 0, kill 11 0, stop 11 1, clone 11 1]

theorem reused_undisturbed (tid : Int) :
    (run Lived.next (.initial (.singleton 10) tid) (notesOf tid reused)).isSome := by
  by_cases h11 : tid = 11
  · subst h11
    decide
  have hnone : notesOf tid reused = [] := by
    simp [notesOf, reused, clone, stop, kill, Wake.sight, Wake.handled, Ne.symm h11]
  simp [hnone]

theorem reused_clean :
    ∃ t, run (step obliging) sole (reused.map NotedWake.wake) = some t ∧ 11 ∈ t.tasks ∧ 11 ∉ t.newTasks := by
  obtain ⟨t, ht⟩ : ∃ t, run (step obliging) sole (reused.map NotedWake.wake) = some t := ⟨_, rfl⟩
  have hdisjoint := (sets_clean obliging sole t reused rfl (by decide) reused_undisturbed ht).1 11
  have hmem : 11 ∈ t.tasks := by
    cases ht
    decide
  exact ⟨t, ht, hmem, fun hnew => hdisjoint ⟨hmem, hnew⟩⟩

/-- Task 11 is killed before its first SIGSTOP. It stays in `new_tasks`, and the next task with this tid
is announced with the first of its notifications. -/
theorem killed_not_clean :
    ∃ t u, run (step obliging) sole ([clone 11 0, kill 11 0].map NotedWake.wake) = some t ∧
      (notesOf 11 [clone 11 0, kill 11 0]).getLast? = some (0, .exited) ∧ 11 ∈ t.newTasks ∧
      step obliging t (stop 11 1).wake = some u ∧ u.emitted = t.emitted ++ [.created 11] ∧
      ¬ BothNoted 1 (notesOf 11 ([clone 11 0, kill 11 0] ++ [stop 11 1])) :=
  ⟨_, _, rfl, by decide, by decide, rfl, by decide, by decide⟩

end TraceThread

end AutopinPlus
