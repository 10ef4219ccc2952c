import AutopinPlus.CommDescriptors

/-!
# Watchdogs with one address

The address of the channel is that of the user unless it is configured, so two watchdogs can have the same. The second
one then removes the file of the first, on which its `bind` has failed. All of this is for a `remove` that succeeds.
-/
namespace AutopinPlus

namespace CommWorld

/-- The events that find the file of a socket at a path and remove it. -/
def Touches (w : CommWorld) (path : String) : CommEvent → Prop
  | .start path' _ => path' = path
  | .destroy i => ∃ s, w.service i = some s ∧ s.serverSocket.isSome = true ∧ s.socketPath = path
  | .connect _ _ => False
  | .attempt _ _ => False

theorem enqueue_file (w : CommWorld) (process : Nat) (path : String) : (w.enqueue process path).file = w.file := by
  rcases enqueue_cases w process path with heq | ⟨fd, -, heq⟩ <;> rw [heq]

/-- What an event does to a path. -/
theorem step_file {w w' : CommWorld} {e : CommEvent} (h : w.step e = some w') (path : String) :
    (¬ w.Touches path e ∧ w'.file path = w.file path) ∨
      (w.Touches path e ∧ (w'.file path = none ∨
        (w.file path = none ∧ w'.file path = some (.socket w.opened)))) := by
  rcases step_cases h with ⟨path', answers, x, rfl, houtcome, -, -, rfl⟩ | ⟨process, path', rfl, rfl⟩ |
    ⟨i, answers, s, x, rfl, -, -, rfl, rfl⟩ | ⟨i, s, rfl, hs, -, rfl⟩
  · show _ ∨ (_ ∧ (x.1.file path = none ∨ _))
    by_cases hsame : path' = path
    · subst hsame
      refine .inr ⟨rfl, ?_⟩
      cases houtcome with
      | bound server fds count free file =>
        rw [file, Function.update_self]
        exact .inr ⟨free, rfl⟩
      | removed server fds count told file =>
        rw [file, Function.update_self]
        exact .inl rfl
    · refine .inl ⟨hsame, ?_⟩
      show x.1.file path = w.file path
      cases houtcome with
      | bound server fds count free file => rw [file, Function.update_of_ne (Ne.symm hsame)]
      | removed server fds count told file => rw [file, Function.update_of_ne (Ne.symm hsame)]
  · exact .inl ⟨id, by rw [enqueue_file]⟩
  · exact .inl ⟨id, by rw [(attempt_kept answers (w, s)).file]⟩
  · have hfile := (deinit_cases w s).2.2.2
    show (_ ∧ (w.deinitCommChannel s).file path = _) ∨ (_ ∧ ((w.deinitCommChannel s).file path = none ∨ _))
    rw [hfile]
    by_cases hserver : s.serverSocket.isSome = true
    · rw [if_pos hserver]
      by_cases hpath : s.socketPath = path
      · rw [hpath, Function.update_self]
        exact .inr ⟨⟨s, hs, hserver, hpath⟩, .inl rfl⟩
      · rw [Function.update_of_ne (Ne.symm hpath)]
        refine .inl ⟨?_, rfl⟩
        rintro ⟨t, ht, -, hpath'⟩
        obtain rfl : s = t := Option.some.inj (hs.symm.trans ht)
        exact hpath hpath'
    · rw [if_neg hserver]
      refine .inl ⟨?_, rfl⟩
      rintro ⟨t, ht, hsome, -⟩
      obtain rfl : s = t := Option.some.inj (hs.symm.trans ht)
      exact hserver hsome

theorem step_opened {w w' : CommWorld} {e : CommEvent} (hsound : Sound w) (h : w.step e = some w') :
    w.opened ≤ w'.opened := by
  rcases step_cases h with ⟨path', answers, x, rfl, houtcome, -, -, rfl⟩ | ⟨process, path', rfl, rfl⟩ |
    ⟨i, answers, s, x, rfl, hs, hne, rfl, rfl⟩ | ⟨i, s, rfl, hs, -, rfl⟩
  · show w.opened ≤ x.1.opened
    cases houtcome with
    | bound server fds count free file => omega
    | removed server fds count told file => exact count
  · rcases enqueue_cases w process path' with heq | ⟨fd, -, heq⟩ <;> rw [heq]
  · obtain ⟨hclient, hpeer⟩ := hsound.waiting i s hs hne
    show w.opened ≤ (attempt answers (w, s)).1.opened
    cases attempt_cases (x := (w, s)) answers hclient hpeer with
    | nobody fds count client peer pending told => exact count
    | accepted process fds count client peer pending attempts =>
      rw [count]
      exact Nat.le_succ _
  · exact Nat.le_of_eq (deinit_cases w s).2.1.symm

/-- A socket that is not at a path any more never comes back there. -/
theorem run_lost {w w' : CommWorld} {es : List CommEvent} {path : String} {fd : Nat} (hsound : Sound w)
    (hfd : fd < w.opened) (hlost : w.file path ≠ some (.socket fd)) (hrun : PartialStep.run step w es = some w') :
    w'.file path ≠ some (.socket fd) := by
  have hkeeps : ∀ u e v, (Sound u ∧ fd < u.opened ∧ u.file path ≠ some (.socket fd)) → True → u.step e = some v →
      Sound v ∧ fd < v.opened ∧ v.file path ≠ some (.socket fd) := by
    rintro u e v ⟨hu, hfd, hlost⟩ - hstep
    refine ⟨hu.step hstep, Nat.lt_of_lt_of_le hfd (step_opened hu hstep), ?_⟩
    rcases step_file hstep path with ⟨-, hsame⟩ | ⟨-, hnone | ⟨-, hnew⟩⟩
    · rw [hsame]
      exact hlost
    · rw [hnone]
      exact nofun
    · rw [hnew]
      intro heq
      rw [Option.some.injEq, FileNode.socket.injEq] at heq
      omega
  have hinvariant := PartialStep.run_invariant _ hkeeps ⟨hsound, hfd, hlost⟩ (PartialStep.admitted_true step w es) hrun
  exact hinvariant.2.2

/-- A channel can be reached at its address exactly until another watchdog with this address is started, or one that
was bound there, itself or another, is destroyed: each of these removes the file. -/
theorem bound_iff {there : String → Bool} {before after : List CommEvent} {w w' : CommWorld} {path : String} {fd : Nat}
    (hbefore : PartialStep.run step (init there) before = some w) (hbound : w.file path = some (.socket fd))
    (hafter : PartialStep.run step w after = some w') :
    w'.file path = some (.socket fd) ↔ PartialStep.Admitted step (fun u e => ¬ u.Touches path e) w after := by
  have hsound := run_sound (init_sound there) hbefore
  clear hbefore before
  induction after generalizing w with
  | nil =>
    rw [PartialStep.run_nil, Option.some.injEq] at hafter
    subst hafter
    exact iff_of_true hbound trivial
  | cons e after ih =>
    rw [PartialStep.run_cons] at hafter
    obtain ⟨u, hu, hrest⟩ := Option.bind_eq_some_iff.mp hafter
    have hunique : ∀ t, w.step e = some t → t = u := fun t ht => Option.some.inj (ht.symm.trans hu)
    rcases step_file hu path with ⟨hkept, hsame⟩ | ⟨htouched, hlost⟩
    · refine (ih (hsame.trans hbound) hrest (hsound.step hu)).trans ?_
      constructor
      · exact fun h => ⟨hkept, fun t ht => hunique t ht ▸ h⟩
      · exact fun h => h.2 u hu
    · refine iff_of_false ?_ fun h => h.1 htouched
      obtain ⟨i, s, hs, hserver, -⟩ := hsound.bound path fd hbound
      have hold : fd < w.opened := by
        apply hsound.old
        rw [hsound.fds.mem_iff]
        exact List.mem_flatMap.mpr ⟨some s, List.mem_of_getElem? (Option.join_eq_some_iff.mp hs),
          List.mem_append_left _ (by rw [hserver]; exact List.mem_singleton_self fd)⟩
      refine run_lost (hsound.step hu) (Nat.lt_of_lt_of_le hold (step_opened hsound hu)) ?_ hrest
      rcases hlost with hnone | ⟨hfree, -⟩
      · rw [hnone]
        exact nofun
      · rw [hbound] at hfree
        cases hfree

theorem two_addresses : ((PartialStep.run step nothingThere [.start "a" succeeding]).any fun w =>
    decide (w.file "a" = some (.socket 0)) && (PartialStep.run step w [.start "b" succeeding]).isSome) = true := by
  decide +kernel

/-- Another address does not matter. -/
theorem bound_iff_other :
    ∃ w w', PartialStep.run step nothingThere [.start "a" succeeding] = some w ∧
      PartialStep.run step w [.start "b" succeeding] = some w' ∧ w'.file "a" = some (.socket 0) := by
  obtain ⟨w, hw, hall⟩ := (Option.any_eq_true _ _).mp two_addresses
  simp only [Bool.and_eq_true, decide_eq_true_eq] at hall
  obtain ⟨hbound, hsome⟩ := hall
  obtain ⟨w', hw'⟩ := Option.isSome_iff_exists.mp hsome
  have hother : ¬ w.Touches "a" (.start "b" succeeding) := by
    show ¬ "b" = "a"
    decide
  exact ⟨w, w', hw, hw', (bound_iff hw hbound hw').mpr ⟨hother, fun _ _ => trivial⟩⟩

/-- Channels that nobody waits for, at a path where there is nothing. -/
structure Deaf (w : CommWorld) (path : String) (js : List Nat) : Prop where
  file : w.file path = none
  known : ∀ j ∈ js, j < w.services.length
  alone : ∀ j ∈ js, ∀ t, w.service j = some t → t.socketPath = path ∧ t.clientSocket = none ∧ t.pending = []

theorem service_lt {w : CommWorld} {i : Nat} {s : CommService} (h : w.service i = some s) : i < w.services.length :=
  (List.getElem?_eq_some_iff.mp (Option.join_eq_some_iff.mp h)).1

theorem Deaf.connect {w : CommWorld} {path : String} {js : List Nat} (h : Deaf w path js) (hsound : Sound w)
    (process : Nat) (path' : String) : Deaf (w.enqueue process path') path js := by
  rcases enqueue_cases w process path' with heq | ⟨fd, hat, heq⟩
  · rw [heq]
    exact h
  · rw [heq]
    have hservice := service_enqueued w fd process
    refine ⟨h.file, ?_, ?_⟩
    · intro j hj
      rw [List.length_map]
      exact h.known j hj
    · intro j hj t ht
      rw [hservice] at ht
      obtain ⟨s, hs, rfl⟩ := Option.map_eq_some_iff.mp ht
      obtain ⟨hpath, hclient, hpending⟩ := h.alone j hj s hs
      -- the socket at the other path belongs to another channel
      have hother : s.serverSocket ≠ some fd := by
        intro hserver
        rw [← hsound.socketPath hs hserver hat, hpath, h.file] at hat
        cases hat
      rw [CommService.enqueue, if_neg hother]
      exact ⟨hpath, hclient, hpending⟩

theorem Deaf.step {w w' : CommWorld} {e : CommEvent} {path : String} {js : List Nat} (h : Deaf w path js)
    (hsound : Sound w) (hother : ∀ answers, e ≠ .start path answers) (hstep : w.step e = some w') :
    Deaf w' path js := by
  have hfile : w'.file path = none := by
    rcases step_file hstep path with ⟨-, hsame⟩ | ⟨htouched, hnone | ⟨-, hnew⟩⟩
    · rw [hsame, h.file]
    · exact hnone
    · rcases step_cases hstep with ⟨path', answers, x, rfl, -⟩ | ⟨process, path', rfl, rfl⟩ |
        ⟨i, answers, s, x, rfl, -⟩ | ⟨i, s, rfl, hs, -, rfl⟩
      · exact absurd (htouched ▸ rfl) (hother answers)
      · rw [enqueue_file]
        exact h.file
      · exact absurd htouched id
      · have hdestroyed : (w.deinitCommChannel s).file path = some (.socket w.opened) := hnew
        rw [(deinit_cases w s).2.2.2] at hdestroyed
        split_ifs at hdestroyed with hserver
        · by_cases hpath : path = s.socketPath
          · rw [hpath, Function.update_self] at hdestroyed
            cases hdestroyed
          · rw [Function.update_of_ne hpath, h.file] at hdestroyed
            cases hdestroyed
        · rw [h.file] at hdestroyed
          cases hdestroyed
  rcases step_cases hstep with ⟨path', answers, x, rfl, -, hframe, -, rfl⟩ | ⟨process, path', rfl, rfl⟩ |
    ⟨i, answers, s, x, rfl, hs, hne, rfl, rfl⟩ | ⟨i, s, rfl, hs, -, rfl⟩
  · refine ⟨hfile, ?_, ?_⟩
    · intro j hj
      show j < (x.1.services ++ [some (x.2.connectCommChannel 60)]).length
      rw [List.length_append, show x.1.services = w.services from hframe.services]
      exact Nat.lt_add_right _ (h.known j hj)
    · intro j hj t ht
      rcases (service_started hframe).mp ht with ht | ⟨rfl, -⟩
      · exact h.alone j hj t ht
      · exact absurd (h.known _ hj) (Nat.lt_irrefl _)
  · exact h.connect hsound process path'
  · have hkept := attempt_kept answers (w, s)
    refine ⟨hfile, ?_, ?_⟩
    · intro j hj
      show j < ((attempt answers (w, s)).1.services.set i (some (attempt answers (w, s)).2)).length
      rw [List.length_set, hkept.services]
      exact h.known j hj
    · intro j hj t ht
      rcases (service_turned hkept hs).mp ht with ⟨rfl, heq⟩ | ⟨-, ht⟩
      · cases heq
        obtain ⟨hpath, hclient, hpending⟩ := h.alone j hj s hs
        refine ⟨hkept.socketPath.trans hpath, ?_⟩
        cases attempt_cases (x := (w, s)) answers hclient (hsound.waiting j s hs hne).2 with
        | nobody fds count client peer pending told =>
          refine ⟨client, List.eq_nil_of_subset_nil ?_⟩
          rw [← hpending]
          exact pending
        | accepted process fds count client peer pending attempts =>
          have hqueue : s.pending = process :: (attempt answers (w, s)).2.pending := pending
          rw [hpending] at hqueue
          cases hqueue
      · exact h.alone j hj t ht
  · refine ⟨hfile, ?_, ?_⟩
    · intro j hj
      show j < (w.services.set i none).length
      rw [List.length_set]
      exact h.known j hj
    · intro j hj t ht
      exact h.alone j hj t ((service_destroyed hs).mp ht).2

/-- A watchdog that is started where another one waits for its process leaves both without an address. -/
theorem deaf_start {w w' : CommWorld} {path : String} {answers : InitAnswers} {i fd : Nat} {s : CommService}
    (hsound : Sound w) (hs : w.service i = some s) (hserver : s.serverSocket = some fd)
    (hbound : w.file path = some (.socket fd)) (hwaits : s.attempts ≠ 0) (halone : s.pending = [])
    (hstart : w.step (.start path answers) = some w') : Deaf w' path [i, w.services.length] := by
  have hpath := hsound.socketPath hs hserver hbound
  rcases step_cases hstart with ⟨path', answers', x, heq, houtcome, hframe, hpath', rfl⟩ | ⟨process, path', heq, -⟩ |
    ⟨j, answers', t, x, heq, -⟩ | ⟨j, t, heq, -⟩
  · cases heq
    refine ⟨?_, ?_, ?_⟩
    · show x.1.file path = none
      cases houtcome with
      | bound server fds count free file =>
        rw [hbound] at free
        cases free
      | removed server fds count told file => rw [file, Function.update_self]
    · intro j hj
      have hlt := service_lt hs
      show j < (x.1.services ++ [some (x.2.connectCommChannel 60)]).length
      rw [List.length_append, List.length_singleton, show x.1.services = w.services from hframe.services]
      rcases List.mem_pair.mp hj with rfl | rfl <;> omega
    · intro j _ t ht
      rcases (service_started hframe).mp ht with ht | ⟨-, rfl⟩
      · have hj : j = i := by
          have hlt := service_lt ht
          rcases List.mem_pair.mp ‹j ∈ _› with heq | heq
          · exact heq
          · omega
        subst hj
        obtain rfl : s = t := Option.some.inj (hs.symm.trans ht)
        exact ⟨hpath, (hsound.waiting j s hs hwaits).1, halone⟩
      · obtain ⟨-, hsame, hclient, hpending, -⟩ := connectCommChannel_members x.2 60
        exact ⟨hsame.trans hpath', hclient.trans hframe.clientSocket, hpending.trans hframe.pending⟩
  · cases heq
  · cases heq
  · cases heq

/-- If a watchdog is started with the address of one that still waits for its process, then, unless a third one is
started there, no process is ever connected to either, and the wait of both ends with an error. -/
theorem shared_address {there : String → Bool} {before after : List CommEvent} {w u w' : CommWorld} {path : String}
    {answers : InitAnswers} {i fd : Nat} {s : CommService}
    (hbefore : PartialStep.run step (init there) before = some w) (hs : w.service i = some s)
    (hserver : s.serverSocket = some fd) (hbound : w.file path = some (.socket fd)) (hwaits : s.attempts ≠ 0)
    (halone : s.pending = []) (hstart : w.step (.start path answers) = some u)
    (hafter : PartialStep.run step u after = some w') (hnobody : ∀ e ∈ after, ∀ answers, e ≠ .start path answers) :
    w'.file path = none ∧ ∀ j, j = i ∨ j = w.services.length → ∀ t, w'.service j = some t →
      t.clientSocket = none ∧ (t.attempts = 0 → t.context.isError = true) := by
  have hsound := run_sound (init_sound there) hbefore
  have hdeaf := deaf_start hsound hs hserver hbound hwaits halone hstart
  obtain ⟨hsound', hdeaf'⟩ := PartialStep.run_invariant (fun v => Sound v ∧ Deaf v path [i, w.services.length])
    (fun v e v' h hok hstep => ⟨h.1.step hstep, h.2.step h.1 hok hstep⟩) ⟨hsound.step hstart, hdeaf⟩
    (PartialStep.admitted_of_forall step u hnobody) hafter
  refine ⟨hdeaf'.file, ?_⟩
  intro j hj t ht
  obtain ⟨-, hclient, -⟩ := hdeaf'.alone j (List.mem_pair.mpr hj) t ht
  exact ⟨hclient, fun hzero => hsound'.told j t ht hzero hclient⟩

/-- Two processes connect to the address, and the two loops take all their turns. -/
def bothWait : List CommEvent :=
  .connect 7 "a" :: List.replicate 60 (.attempt 1 accepting) ++
    .connect 8 "a" :: List.replicate 60 (.attempt 0 accepting)

theorem one_address : ((PartialStep.run step nothingThere [.start "a" succeeding]).any fun w =>
    decide (w.file "a" = some (.socket 0) ∧ w.services.length = 1) &&
      (w.service 0).any (fun s => decide (s.serverSocket = some 0 ∧ s.attempts ≠ 0 ∧ s.pending = [])) &&
      (w.step (.start "a" succeeding)).any fun u => (PartialStep.run step u bothWait).any fun w' =>
        (w'.service 0).any (fun s => decide (s.attempts = 0)) &&
          (w'.service 1).any (fun s => decide (s.attempts = 0))) = true := by
  decide +kernel

/-- Nobody is at the address, and both watchdogs have given up. -/
theorem shared_address_two :
    ∃ w u w', PartialStep.run step nothingThere [.start "a" succeeding] = some w ∧
      w.step (.start "a" succeeding) = some u ∧ PartialStep.run step u bothWait = some w' ∧ w'.file "a" = none ∧
      ∃ s t, w'.service 0 = some s ∧ w'.service 1 = some t ∧ (s.clientSocket = none ∧ s.context.isError = true) ∧
        t.clientSocket = none ∧ t.context.isError = true := by
  obtain ⟨w, hw, hall⟩ := (Option.any_eq_true _ _).mp one_address
  simp only [Bool.and_eq_true, decide_eq_true_eq] at hall
  obtain ⟨⟨⟨hbound, hlength⟩, hservice⟩, hstart⟩ := hall
  obtain ⟨s, hs, hall⟩ := (Option.any_eq_true _ _).mp hservice
  obtain ⟨hserver, hwaits, halone⟩ := of_decide_eq_true hall
  obtain ⟨u, hu, hrun⟩ := (Option.any_eq_true _ _).mp hstart
  obtain ⟨w', hw', hall⟩ := (Option.any_eq_true _ _).mp hrun
  obtain ⟨hfirst, hsecond⟩ := Bool.and_eq_true_iff.mp hall
  obtain ⟨first, hfirst, hzero⟩ := (Option.any_eq_true _ _).mp hfirst
  obtain ⟨second, hsecond, hzero'⟩ := (Option.any_eq_true _ _).mp hsecond
  obtain ⟨hfile, hboth⟩ := shared_address hw hs hserver hbound hwaits halone hu hw' (by simp [bothWait])
  obtain ⟨hclient, htold⟩ := hboth 0 (.inl rfl) first hfirst
  obtain ⟨hclient', htold'⟩ := hboth 1 (.inr hlength.symm) second hsecond
  exact ⟨w, u, w', hw, hu, hw', hfile, first, second, hfirst, hsecond, ⟨hclient, htold (of_decide_eq_true hzero)⟩,
    hclient', htold' (of_decide_eq_true hzero')⟩

end CommWorld

end AutopinPlus
