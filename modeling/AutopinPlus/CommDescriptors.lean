import AutopinPlus.CommSockets

/-!
# The descriptors of the communication channels

Watchdogs come and go, their loops that wait for a process nest, and `socket`, `fcntl`, `bind`, `listen`, `accept` and
`send` may fail. What is open in the end, and bound to a path, is known to a watchdog that is there.
-/
namespace AutopinPlus

namespace CommWorld

/-- The channel of a watchdog that was not destroyed. -/
def service (w : CommWorld) (i : Nat) : Option CommService := w.services[i]?.join

/-- The descriptors that the channels know of. -/
def held (services : List (Option CommService)) : List Nat :=
  services.flatMap fun s => s.elim [] CommService.descriptors

/-- What holds of the descriptors and the paths in every reachable state. -/
structure Sound (w : CommWorld) : Prop where
  fds : w.fds.Perm (held w.services)
  nodup : w.fds.Nodup
  old : ∀ fd ∈ w.fds, fd < w.opened
  bound : ∀ path fd, w.file path = some (.socket fd) →
    ∃ i s, w.service i = some s ∧ s.serverSocket = some fd ∧ s.socketPath = path
  waiting : ∀ i s, w.service i = some s → s.attempts ≠ 0 → s.clientSocket = none ∧ s.peer = none
  told : ∀ i s, w.service i = some s → s.attempts = 0 → s.clientSocket = none → s.context.isError = true

theorem init_sound (there : String → Bool) : Sound (init there) where
  fds := List.Perm.refl _
  nodup := List.nodup_nil
  old := fun _ h => absurd h List.not_mem_nil
  bound := by
    intro path fd h
    simp only [init] at h
    split_ifs at h
    cases h
  waiting := fun _ _ h => nomatch h
  told := fun _ _ h => nomatch h

/-- Two channels have no descriptor in common. -/
theorem Sound.descriptor_once {w : CommWorld} (h : Sound w) {i j : Nat} {s t : CommService} {fd : Nat}
    (hs : w.service i = some s) (ht : w.service j = some t) (hfd : fd ∈ s.descriptors) (hfd' : fd ∈ t.descriptors) :
    i = j := by
  have hnodup := h.fds.nodup_iff.mp h.nodup
  rw [held, List.nodup_flatMap] at hnodup
  have hpairwise := List.pairwise_iff_getElem.mp hnodup.2
  have hs : w.services[i]? = some (some s) := Option.join_eq_some_iff.mp hs
  have ht : w.services[j]? = some (some t) := Option.join_eq_some_iff.mp ht
  obtain ⟨hi, hs⟩ := List.getElem?_eq_some_iff.mp hs
  obtain ⟨hj, ht⟩ := List.getElem?_eq_some_iff.mp ht
  rcases Nat.lt_trichotomy i j with hlt | heq | hlt
  · have hdisjoint : List.Disjoint (w.services[i].elim [] CommService.descriptors)
        (w.services[j].elim [] CommService.descriptors) := hpairwise i j hi hj hlt
    rw [hs, ht] at hdisjoint
    exact absurd hfd' (hdisjoint hfd)
  · exact heq
  · have hdisjoint : List.Disjoint (w.services[j].elim [] CommService.descriptors)
        (w.services[i].elim [] CommService.descriptors) := hpairwise j i hj hi hlt
    rw [hs, ht] at hdisjoint
    exact absurd hfd (hdisjoint hfd')

/-- The socket at a path is that of a channel with the path. -/
theorem Sound.socketPath {w : CommWorld} (h : Sound w) {i fd : Nat} {s : CommService} {path : String}
    (hs : w.service i = some s) (hserver : s.serverSocket = some fd) (hat : w.file path = some (.socket fd)) :
    s.socketPath = path := by
  obtain ⟨j, t, ht, hserver', hpath⟩ := h.bound path fd hat
  have hfd : fd ∈ s.descriptors := List.mem_append_left _ (by rw [hserver]; exact List.mem_singleton_self fd)
  have hfd' : fd ∈ t.descriptors := List.mem_append_left _ (by rw [hserver']; exact List.mem_singleton_self fd)
  obtain rfl := h.descriptor_once hs ht hfd hfd'
  obtain rfl : s = t := Option.some.inj (hs.symm.trans ht)
  exact hpath

theorem service_append {w w' : CommWorld} {s : CommService} (h : w'.services = w.services ++ [some s]) {i : Nat}
    {t : CommService} :
    w'.service i = some t ↔ w.service i = some t ∨ (i = w.services.length ∧ t = s) := by
  unfold service
  rw [h]
  rcases Nat.lt_trichotomy i w.services.length with hlt | heq | hlt
  · rw [List.getElem?_append_left hlt]
    simp [Nat.ne_of_lt hlt]
  · subst heq
    simp [eq_comm]
  · have hnone : w.services[i]? = none := List.getElem?_eq_none (Nat.le_of_lt hlt)
    have hnone' : (w.services ++ [some s])[i]? = none := by
      apply List.getElem?_eq_none
      rw [List.length_append, List.length_singleton]
      omega
    rw [hnone, hnone']
    simp [Nat.ne_of_gt hlt]

theorem service_set {w w' : CommWorld} {i : Nat} {s : CommService} {v : Option CommService}
    (h : w'.services = w.services.set i v) (hi : w.service i = some s) {j : Nat} {t : CommService} :
    w'.service j = some t ↔ (j = i ∧ v = some t) ∨ (j ≠ i ∧ w.service j = some t) := by
  have hlt : i < w.services.length := (List.getElem?_eq_some_iff.mp (Option.join_eq_some_iff.mp hi)).1
  unfold service
  rw [h]
  by_cases hij : j = i
  · subst hij
    rw [List.getElem?_set_self hlt, Option.join_some]
    simp
  · rw [List.getElem?_set_ne (Ne.symm hij)]
    simp [hij]

/-- A new watchdog is the last one. -/
theorem service_started {w : CommWorld} {x : CommWorld × CommService} (hframe : Untouched (w, {}) x) {s : CommService}
    {i : Nat} {t : CommService} :
    ({ x.1 with services := x.1.services ++ [some s] } : CommWorld).service i = some t ↔
      w.service i = some t ∨ (i = w.services.length ∧ t = s) :=
  service_append (by rw [← show x.1.services = w.services from hframe.services])

/-- A turn of a loop changes its own watchdog. -/
theorem service_turned {w : CommWorld} {i : Nat} {s : CommService} {x : CommWorld × CommService}
    (hkept : Kept (w, s) x) (hs : w.service i = some s) {j : Nat} {t : CommService} :
    ({ x.1 with services := x.1.services.set i (some x.2) } : CommWorld).service j = some t ↔
      (j = i ∧ some x.2 = some t) ∨ (j ≠ i ∧ w.service j = some t) :=
  service_set (by rw [← show x.1.services = w.services from hkept.services]) hs

theorem service_map {w w' : CommWorld} {f : CommService → CommService}
    (h : w'.services = w.services.map (Option.map f)) (i : Nat) : w'.service i = (w.service i).map f := by
  unfold service
  rw [h, List.getElem?_map]
  cases w.services[i]? with
  | none => rfl
  | some s => cases s <;> rfl

theorem service_enqueued (w : CommWorld) (fd process i : Nat) :
    ({ w with services := w.services.map (Option.map (CommService.enqueue fd process)) } : CommWorld).service i =
      (w.service i).map (CommService.enqueue fd process) := service_map rfl i

theorem service_destroyed {w : CommWorld} {i j : Nat} {s t : CommService} (hs : w.service i = some s) :
    ({ w.deinitCommChannel s with services := w.services.set i none } : CommWorld).service j = some t ↔
      j ≠ i ∧ w.service j = some t := by
  have hset : ({ w.deinitCommChannel s with services := w.services.set i none } : CommWorld).services =
      w.services.set i none := rfl
  rw [service_set hset hs]
  simp

/-- A change of one channel in what is held. -/
theorem held_set {w : CommWorld} {i : Nat} {s : CommService} (hi : w.service i = some s) (v : Option CommService) :
    ∃ rest, (held w.services).Perm (s.descriptors ++ rest) ∧
      (held (w.services.set i v)).Perm (v.elim [] CommService.descriptors ++ rest) := by
  obtain ⟨hlt, hget⟩ := List.getElem?_eq_some_iff.mp (Option.join_eq_some_iff.mp hi)
  refine ⟨held (w.services.eraseIdx i), ?_, ?_⟩
  · have hperm := (List.getElem_cons_eraseIdx_perm hlt).flatMap_right fun s => s.elim [] CommService.descriptors
    rw [hget, List.flatMap_cons] at hperm
    exact hperm.symm
  · have hperm := (List.set_perm_cons_eraseIdx hlt v).flatMap_right fun s => s.elim [] CommService.descriptors
    rw [List.flatMap_cons] at hperm
    exact hperm

theorem held_append (services : List (Option CommService)) (s : CommService) :
    held (services ++ [some s]) = held services ++ s.descriptors := by
  simp [held]

/-- One more descriptor, or none. -/
theorem Sound.more_fds {w u : CommWorld} (h : Sound w) {fd : Option Nat} (hfds : u.fds = fd.toList ++ w.fds)
    (hnew : ∀ x ∈ fd, x = w.opened ∧ x < u.opened) (hcount : w.opened ≤ u.opened) :
    u.fds.Nodup ∧ ∀ x ∈ u.fds, x < u.opened := by
  cases fd with
  | none =>
    have hfds : u.fds = w.fds := hfds
    rw [hfds]
    exact ⟨h.nodup, fun x hx => Nat.lt_of_lt_of_le (h.old x hx) hcount⟩
  | some fd =>
    have hfds : u.fds = fd :: w.fds := hfds
    obtain ⟨rfl, hlt⟩ := hnew fd rfl
    rw [hfds, List.forall_mem_cons]
    exact ⟨List.nodup_cons.mpr ⟨fun hmem => absurd (h.old _ hmem) (Nat.lt_irrefl _), h.nodup⟩, hlt,
      fun x hx => Nat.lt_of_lt_of_le (h.old x hx) hcount⟩

/-- The new channel holds what was opened for it. -/
theorem Outcome.fds_eq {w : CommWorld} {x : CommWorld × CommService} {path : String} (h : Outcome w path x) :
    x.1.fds = x.2.serverSocket.toList ++ w.fds ∧ (∀ fd ∈ x.2.serverSocket, fd = w.opened ∧ fd < x.1.opened) ∧
      w.opened ≤ x.1.opened := by
  cases h with
  | bound server fds count free file =>
    rw [server]
    refine ⟨fds, ?_, by omega⟩
    rintro fd ⟨⟩
    exact ⟨rfl, by omega⟩
  | removed server fds count told file =>
    rw [server]
    exact ⟨fds, nofun, count⟩

/-- A start binds its own path only. -/
theorem Outcome.file_cases {w : CommWorld} {x : CommWorld × CommService} {path path' : String} {fd : Nat}
    (h : Outcome w path x) (hfile : x.1.file path' = some (.socket fd)) :
    w.file path' = some (.socket fd) ∨ path' = path ∧ x.2.serverSocket = some fd := by
  by_cases hsame : path' = path
  · subst hsame
    cases h with
    | bound server fds count free file =>
      rw [file, Function.update_self, Option.some.injEq, FileNode.socket.injEq] at hfile
      exact .inr ⟨rfl, hfile ▸ server⟩
    | removed server fds count told file =>
      rw [file, Function.update_self] at hfile
      cases hfile
  · cases h with
    | bound server fds count free file =>
      rw [file, Function.update_of_ne hsame] at hfile
      exact .inl hfile
    | removed server fds count told file =>
      rw [file, Function.update_of_ne hsame] at hfile
      exact .inl hfile

theorem connectCommChannel_members (s : CommService) (timeout : Nat) :
    (s.connectCommChannel timeout).serverSocket = s.serverSocket ∧
      (s.connectCommChannel timeout).socketPath = s.socketPath ∧
      (s.connectCommChannel timeout).clientSocket = s.clientSocket ∧
      (s.connectCommChannel timeout).pending = s.pending ∧ (s.connectCommChannel timeout).peer = s.peer ∧
      (s.connectCommChannel timeout).attempts = timeout := by
  unfold CommService.connectCommChannel
  split_ifs <;> exact ⟨rfl, rfl, rfl, rfl, rfl, rfl⟩

theorem Sound.start {w : CommWorld} {x : CommWorld × CommService} {path : String} (h : Sound w)
    (houtcome : Outcome w path x) (hframe : Untouched (w, {}) x) (hpath : x.2.socketPath = path) :
    Sound { x.1 with services := x.1.services ++ [some (x.2.connectCommChannel 60)] } := by
  obtain ⟨hserver, hpath', hclient, -, hpeer, hattempts⟩ := connectCommChannel_members x.2 60
  rw [hpath] at hpath'
  rw [hframe.clientSocket] at hclient
  rw [hframe.peer] at hpeer
  generalize x.2.connectCommChannel 60 = s at *
  have hservice {i : Nat} {t : CommService} := service_started hframe (s := s) (i := i) (t := t)
  have hdescriptors : s.descriptors = x.2.serverSocket.toList := by
    rw [CommService.descriptors, hserver, hclient]
    exact List.append_nil _
  obtain ⟨hfds, hnew, hcount⟩ := houtcome.fds_eq
  obtain ⟨hnodup, hold⟩ := h.more_fds hfds hnew hcount
  refine ⟨?_, hnodup, hold, ?_, ?_, ?_⟩
  · show x.1.fds.Perm (held (x.1.services ++ [some s]))
    rw [held_append, hdescriptors, hfds, show x.1.services = w.services from hframe.services]
    exact (h.fds.append_left _).trans List.perm_append_comm
  · intro path' fd hfile
    rcases houtcome.file_cases hfile with hfile | ⟨rfl, hbound⟩
    · obtain ⟨i, t, ht, hfd, hat⟩ := h.bound path' fd hfile
      exact ⟨i, t, hservice.mpr (.inl ht), hfd, hat⟩
    · exact ⟨_, s, hservice.mpr (.inr ⟨rfl, rfl⟩), hserver.trans hbound, hpath'⟩
  · intro i t ht hne
    rcases hservice.mp ht with ht | ⟨-, rfl⟩
    · exact h.waiting i t ht hne
    · exact ⟨hclient, hpeer⟩
  · intro i t ht hzero hnone
    rcases hservice.mp ht with ht | ⟨-, rfl⟩
    · exact h.told i t ht hzero hnone
    · omega

/-- What a connection changes, which is no descriptor. -/
theorem enqueue_cases (w : CommWorld) (process : Nat) (path : String) :
    w.enqueue process path = w ∨ ∃ fd, w.file path = some (.socket fd) ∧
      w.enqueue process path = { w with services := w.services.map (Option.map (CommService.enqueue fd process)) } := by
  unfold enqueue
  split
  · rename_i fd hfile
    exact .inr ⟨fd, hfile, rfl⟩
  · exact .inl rfl

theorem enqueue_members (s : CommService) (fd process : Nat) :
    (s.enqueue fd process).serverSocket = s.serverSocket ∧ (s.enqueue fd process).clientSocket = s.clientSocket ∧
      (s.enqueue fd process).socketPath = s.socketPath ∧ (s.enqueue fd process).attempts = s.attempts ∧
      (s.enqueue fd process).peer = s.peer ∧ (s.enqueue fd process).context = s.context := by
  unfold CommService.enqueue
  split_ifs <;> exact ⟨rfl, rfl, rfl, rfl, rfl, rfl⟩

theorem Sound.connect {w : CommWorld} (h : Sound w) (process : Nat) (path : String) :
    Sound (w.enqueue process path) := by
  rcases enqueue_cases w process path with heq | ⟨fd, -, heq⟩
  · rw [heq]
    exact h
  · rw [heq]
    have hservice := service_enqueued w fd process
    refine ⟨?_, h.nodup, h.old, ?_, ?_, ?_⟩
    · have hheld : held (w.services.map (Option.map (CommService.enqueue fd process))) = held w.services := by
        rw [held, List.flatMap_map]
        apply List.flatMap_congr
        intro s _
        cases s with
        | none => rfl
        | some s =>
          obtain ⟨hserver, hclient, -⟩ := enqueue_members s fd process
          rw [Option.map_some, Option.elim_some, Option.elim_some, CommService.descriptors, hserver, hclient]
          rfl
      rw [hheld]
      exact h.fds
    · intro path' fd' hfile
      obtain ⟨i, s, hs, hserver, hpath⟩ := h.bound path' fd' hfile
      obtain ⟨hserver', -, hpath', -⟩ := enqueue_members s fd process
      exact ⟨i, _, by rw [hservice, hs, Option.map_some], hserver'.trans hserver, hpath'.trans hpath⟩
    · intro i t ht hne
      rw [hservice] at ht
      obtain ⟨s, hs, rfl⟩ := Option.map_eq_some_iff.mp ht
      obtain ⟨-, hclient, -, hattempts, hpeer, -⟩ := enqueue_members s fd process
      rw [hclient, hpeer]
      exact h.waiting i s hs (by rwa [hattempts] at hne)
    · intro i t ht hzero hnone
      rw [hservice] at ht
      obtain ⟨s, hs, rfl⟩ := Option.map_eq_some_iff.mp ht
      obtain ⟨-, hclient, -, hattempts, -, hcontext⟩ := enqueue_members s fd process
      rw [hcontext]
      exact h.told i s hs (by rwa [hattempts] at hzero) (by rwa [hclient] at hnone)

/-- A turn of the loop opens a descriptor for whom it accepts. -/
theorem Attempted.fds_eq {x y : CommWorld × CommService} (h : Attempted x y) :
    y.1.fds = y.2.clientSocket.toList ++ x.1.fds ∧ (∀ fd ∈ y.2.clientSocket, fd = x.1.opened ∧ fd < y.1.opened) ∧
      x.1.opened ≤ y.1.opened := by
  cases h with
  | nobody fds count client peer pending told =>
    rw [client]
    exact ⟨fds, nofun, count⟩
  | accepted process fds count client peer pending attempts =>
    rw [client]
    refine ⟨fds, ?_, by omega⟩
    rintro fd ⟨⟩
    exact ⟨rfl, by omega⟩

/-- A loop that goes on has accepted nobody, and one that ends without anybody has told its context. -/
theorem Attempted.members {x y : CommWorld × CommService} (h : Attempted x y) :
    (y.2.attempts ≠ 0 → y.2.clientSocket = none ∧ y.2.peer = none) ∧
      (y.2.attempts = 0 → y.2.clientSocket = none → y.2.context.isError = true) := by
  cases h with
  | nobody fds count client peer pending told => exact ⟨fun _ => ⟨client, peer⟩, fun hzero _ => told hzero⟩
  | accepted process fds count client peer pending attempts =>
    refine ⟨fun hne => absurd attempts hne, fun _ hnone => ?_⟩
    rw [client] at hnone
    cases hnone

theorem Sound.turn {w : CommWorld} {i : Nat} {s : CommService} {x : CommWorld × CommService} (h : Sound w)
    (hs : w.service i = some s) (hclient : s.clientSocket = none) (hkept : Kept (w, s) x)
    (hcases : Attempted (w, s) x) : Sound { x.1 with services := x.1.services.set i (some x.2) } := by
  have hservice {j : Nat} {t : CommService} := service_turned hkept hs (j := j) (t := t)
  have hserver : x.2.serverSocket = s.serverSocket := hkept.serverSocket
  obtain ⟨hfds, hnew, hcount⟩ := hcases.fds_eq
  obtain ⟨hnodup, hold⟩ := h.more_fds hfds hnew hcount
  obtain ⟨hwaits, htold⟩ := hcases.members
  refine ⟨?_, hnodup, hold, ?_, ?_, ?_⟩
  · obtain ⟨rest, hheld, hheld'⟩ := held_set hs (some x.2)
    rw [CommService.descriptors, hclient, Option.toList_none, List.append_nil] at hheld
    rw [Option.elim_some, CommService.descriptors, hserver] at hheld'
    have hbefore : w.fds.Perm (s.serverSocket.toList ++ rest) := h.fds.trans hheld
    show x.1.fds.Perm (held (x.1.services.set i (some x.2)))
    rw [hfds, show x.1.services = w.services from hkept.services]
    refine ((hbefore.append_left _).trans ?_).trans hheld'.symm
    rw [List.append_assoc]
    exact List.perm_append_comm_assoc _ _ _
  · intro path fd hfile
    have hfile : x.1.file path = some (.socket fd) := hfile
    rw [hkept.file] at hfile
    obtain ⟨j, t, ht, hfd, hpath⟩ := h.bound path fd hfile
    by_cases hij : j = i
    · subst hij
      obtain rfl : s = t := Option.some.inj (hs.symm.trans ht)
      exact ⟨j, x.2, hservice.mpr (.inl ⟨rfl, rfl⟩), hserver.trans hfd, hkept.socketPath.trans hpath⟩
    · exact ⟨j, t, hservice.mpr (.inr ⟨hij, ht⟩), hfd, hpath⟩
  · intro j t ht hne
    rcases hservice.mp ht with ⟨-, heq⟩ | ⟨-, ht⟩
    · cases heq
      exact hwaits hne
    · exact h.waiting j t ht hne
  · intro j t ht hzero hnone
    rcases hservice.mp ht with ⟨-, heq⟩ | ⟨-, ht⟩
    · cases heq
      exact htold hzero hnone
    · exact h.told j t ht hzero hnone

/-- A descriptor that is closed is not left. -/
theorem close_perm {w : CommWorld} {fd : Option Nat} {rest : List Nat} (h : w.fds.Perm (fd.toList ++ rest)) :
    (w.close fd).fds.Perm rest := by
  cases fd with
  | none => exact h
  | some fd =>
    have herase := h.erase fd
    rw [Option.toList_some, List.singleton_append, List.erase_cons_head] at herase
    exact herase

theorem deinit_cases (w : CommWorld) (s : CommService) :
    (w.deinitCommChannel s).fds = ((w.close s.clientSocket).close s.serverSocket).fds ∧
      (w.deinitCommChannel s).opened = w.opened ∧ (w.deinitCommChannel s).services = w.services ∧
      (w.deinitCommChannel s).file =
        if s.serverSocket.isSome then Function.update w.file s.socketPath none else w.file := by
  unfold deinitCommChannel
  by_cases hserver : s.serverSocket.isSome = true
  · simp only [hserver, if_true]
    exact ⟨rfl, rfl, rfl, rfl⟩
  · have hnone : s.serverSocket = none := by simpa using hserver
    simp only [hnone, Option.isSome_none, Bool.false_eq_true, if_false]
    exact ⟨rfl, rfl, rfl, rfl⟩

theorem Sound.destroy {w : CommWorld} {i : Nat} {s : CommService} (h : Sound w) (hs : w.service i = some s) :
    Sound { w.deinitCommChannel s with services := w.services.set i none } := by
  obtain ⟨hfds, hopened, -, hfile⟩ := deinit_cases w s
  obtain ⟨rest, hheld, hheld'⟩ := held_set hs none
  have hrest : (w.deinitCommChannel s).fds.Perm rest := by
    have hperm : w.fds.Perm (s.clientSocket.toList ++ (s.serverSocket.toList ++ rest)) := by
      have hall := h.fds.trans hheld
      rw [CommService.descriptors, List.append_assoc] at hall
      exact hall.trans (List.perm_append_comm_assoc _ _ _)
    rw [hfds]
    exact close_perm (close_perm hperm)
  have hsub : ∀ fd ∈ (w.deinitCommChannel s).fds, fd ∈ w.fds := by
    intro fd hfd
    exact (h.fds.trans hheld).mem_iff.mpr (List.mem_append_right _ (hrest.mem_iff.mp hfd))
  refine ⟨?_, ?_, ?_, ?_, ?_, ?_⟩
  · exact hrest.trans hheld'.symm
  · have hnodup := (h.fds.trans hheld).nodup_iff.mp h.nodup
    exact hrest.nodup_iff.mpr (List.nodup_append.mp hnodup).2.1
  · show ∀ fd ∈ (w.deinitCommChannel s).fds, fd < (w.deinitCommChannel s).opened
    rw [hopened]
    exact fun fd hfd => h.old fd (hsub fd hfd)
  · intro path fd hat
    have hat : (w.deinitCommChannel s).file path = some (.socket fd) := hat
    rw [hfile] at hat
    have hother : w.file path = some (.socket fd) ∧ (s.serverSocket.isSome = true → path ≠ s.socketPath) := by
      by_cases hserver : s.serverSocket.isSome = true
      · rw [if_pos hserver] at hat
        by_cases hpath : path = s.socketPath
        · rw [hpath, Function.update_self] at hat
          cases hat
        · rw [Function.update_of_ne hpath] at hat
          exact ⟨hat, fun _ => hpath⟩
      · rw [if_neg hserver] at hat
        exact ⟨hat, fun hsome => absurd hsome hserver⟩
    obtain ⟨j, t, ht, hfd, hpath⟩ := h.bound path fd hother.1
    have hij : j ≠ i := by
      rintro rfl
      obtain rfl : s = t := Option.some.inj (hs.symm.trans ht)
      exact hother.2 (by rw [hfd]; rfl) hpath.symm
    exact ⟨j, t, (service_destroyed hs).mpr ⟨hij, ht⟩, hfd, hpath⟩
  · intro j t ht hne
    exact h.waiting j t ((service_destroyed hs).mp ht).2 hne
  · intro j t ht hzero hnone
    exact h.told j t ((service_destroyed hs).mp ht).2 hzero hnone

theorem step_cases {w w' : CommWorld} {e : CommEvent} (h : step w e = some w') :
    (∃ path answers x, e = .start path answers ∧ Outcome w path x ∧ Untouched (w, {}) x ∧ x.2.socketPath = path ∧
        w' = { x.1 with services := x.1.services ++ [some (x.2.connectCommChannel 60)] }) ∨
      (∃ process path, e = .connect process path ∧ w' = w.enqueue process path) ∨
      (∃ i answers s x, e = .attempt i answers ∧ w.service i = some s ∧ s.attempts ≠ 0 ∧ x = attempt answers (w, s) ∧
        w' = { x.1 with services := x.1.services.set i (some x.2) }) ∨
      ∃ i s, e = .destroy i ∧ w.service i = some s ∧ s.attempts = 0 ∧
        w' = { w.deinitCommChannel s with services := w.services.set i none } := by
  cases e with
  | start path answers =>
    obtain ⟨x, hx, rfl⟩ := Option.map_eq_some_iff.mp h
    obtain ⟨houtcome, hframe, hpath⟩ := initCommChannel_outcome hx
    exact .inl ⟨path, answers, x, rfl, houtcome, hframe, hpath, rfl⟩
  | connect process path => exact .inr (.inl ⟨process, path, rfl, (Option.some.inj h).symm⟩)
  | attempt i answers =>
    obtain ⟨s, hs, h⟩ := Option.bind_eq_some_iff.mp h
    split_ifs at h with hattempts
    exact .inr (.inr (.inl ⟨i, answers, s, _, rfl, hs, hattempts, rfl, (Option.some.inj h).symm⟩))
  | destroy i =>
    obtain ⟨s, hs, h⟩ := Option.bind_eq_some_iff.mp h
    split_ifs at h with hattempts
    have hattempts : s.attempts = 0 := not_not.mp hattempts
    have hservices := (deinit_cases w s).2.2.1
    rw [Option.some.injEq, hservices] at h
    exact .inr (.inr (.inr ⟨i, s, rfl, hs, hattempts, h.symm⟩))

theorem Sound.step {w w' : CommWorld} {e : CommEvent} (h : Sound w) (hstep : w.step e = some w') : Sound w' := by
  rcases step_cases hstep with ⟨path, answers, x, -, houtcome, hframe, hpath, rfl⟩ | ⟨process, path, -, rfl⟩ |
    ⟨i, answers, s, x, -, hs, hne, rfl, rfl⟩ | ⟨i, s, -, hs, -, rfl⟩
  · exact h.start houtcome hframe hpath
  · exact h.connect process path
  · obtain ⟨hclient, hpeer⟩ := h.waiting i s hs hne
    exact h.turn hs hclient (attempt_kept answers (w, s)) (attempt_cases answers hclient hpeer)
  · exact h.destroy hs

theorem run_sound {w w' : CommWorld} {es : List CommEvent} (h : Sound w) (hrun : PartialStep.run step w es = some w') :
    Sound w' :=
  PartialStep.run_invariant Sound (fun _ _ _ h _ hstep => h.step hstep) h (PartialStep.admitted_true step w es) hrun

/-! ## Who is connected -/

/-- Whoever waits for a channel or was accepted by it has connected to its address. -/
def Own (es : List CommEvent) (w : CommWorld) : Prop :=
  ∀ i s, w.service i = some s → ∀ process, process ∈ s.pending ∨ s.peer = some process →
    .connect process s.socketPath ∈ es

theorem own_step {w w' : CommWorld} {e : CommEvent} {es : List CommEvent} (hsound : Sound w) (h : Own es w)
    (he : e ∈ es) (hstep : w.step e = some w') : Own es w' := by
  intro i t ht process hprocess
  rcases step_cases hstep with ⟨path', answers, x, rfl, -, hframe, -, rfl⟩ | ⟨process', path', rfl, rfl⟩ |
    ⟨j, answers, s, x, rfl, hs, hne, rfl, rfl⟩ | ⟨j, s, rfl, hs, -, rfl⟩
  · rcases (service_started hframe).mp ht with ht | ⟨-, rfl⟩
    · exact h i t ht process hprocess
    · -- nobody can have connected yet
      obtain ⟨-, -, -, hpending, hpeer, -⟩ := connectCommChannel_members x.2 60
      rw [hpending, hpeer, show x.2.pending = [] from hframe.pending, show x.2.peer = none from hframe.peer] at hprocess
      simp at hprocess
  · rcases enqueue_cases w process' path' with heq | ⟨fd, hat, heq⟩
    · rw [heq] at ht
      exact h i t ht process hprocess
    · rw [heq, service_enqueued] at ht
      obtain ⟨s, hs, rfl⟩ := Option.map_eq_some_iff.mp ht
      by_cases hserver : s.serverSocket = some fd
      · rw [CommService.enqueue, if_pos hserver] at hprocess ⊢
        simp only [List.mem_append, List.mem_singleton] at hprocess
        rcases hprocess with (hold | rfl) | hpeer
        · exact h i s hs process (.inl hold)
        · rw [hsound.socketPath hs hserver hat]
          exact he
        · exact h i s hs process (.inr hpeer)
      · rw [CommService.enqueue, if_neg hserver] at hprocess ⊢
        exact h i s hs process hprocess
  · have hkept := attempt_kept answers (w, s)
    rcases (service_turned hkept hs).mp ht with ⟨rfl, heq⟩ | ⟨-, ht⟩
    · cases heq
      obtain ⟨hclient, hpeer⟩ := hsound.waiting i s hs hne
      rw [hkept.socketPath]
      apply h i s hs process
      cases attempt_cases (x := (w, s)) answers hclient hpeer with
      | nobody fds count client peer pending told =>
        rcases hprocess with hprocess | hprocess
        · exact .inl (pending hprocess)
        · rw [peer] at hprocess
          cases hprocess
      | accepted first fds count client peer pending attempts =>
        have hqueue : s.pending = first :: (attempt answers (w, s)).2.pending := pending
        rw [hqueue]
        rcases hprocess with hprocess | hprocess
        · exact .inl (List.mem_cons_of_mem _ hprocess)
        · rw [peer, Option.some.injEq] at hprocess
          exact .inl (hprocess ▸ List.mem_cons_self)
    · exact h i t ht process hprocess
  · exact h i t ((service_destroyed hs).mp ht).2 process hprocess

/-- However many watchdogs come and go with whatever addresses, and whichever of the calls that may fail do: the open
descriptors are those of the watchdogs that are there, each of one of them; a socket at a path belongs to one of them;
and each is connected only to a process that connected to its own address. -/
theorem descriptors_of_services {there : String → Bool} {es : List CommEvent} {w : CommWorld}
    (hrun : PartialStep.run step (init there) es = some w) :
    w.fds.Nodup ∧ (∀ fd, fd ∈ w.fds ↔ ∃ i s, w.service i = some s ∧ fd ∈ s.descriptors) ∧
      (∀ i j s t fd, w.service i = some s → w.service j = some t → fd ∈ s.descriptors → fd ∈ t.descriptors → i = j) ∧
      (∀ path fd, w.file path = some (.socket fd) →
        ∃ i s, w.service i = some s ∧ s.serverSocket = some fd ∧ s.socketPath = path) ∧
      ∀ i s process, w.service i = some s → s.peer = some process → .connect process s.socketPath ∈ es := by
  have hsound := run_sound (init_sound there) hrun
  obtain ⟨-, hown⟩ := PartialStep.run_invariant (fun v => Sound v ∧ Own es v)
    (fun v e v' h hok hstep => ⟨h.1.step hstep, own_step h.1 h.2 hok hstep⟩)
    ⟨init_sound there, fun _ _ h => nomatch h⟩ (PartialStep.admitted_of_forall step _ fun e he => he) hrun
  refine ⟨hsound.nodup, ?_, fun i j s t fd => hsound.descriptor_once, hsound.bound, ?_⟩
  · intro fd
    rw [hsound.fds.mem_iff, held, List.mem_flatMap]
    constructor
    · rintro ⟨s, hs, hfd⟩
      cases s with
      | none => cases hfd
      | some s =>
        obtain ⟨i, hi⟩ := List.mem_iff_getElem?.mp hs
        exact ⟨i, s, Option.join_eq_some_iff.mpr hi, hfd⟩
    · rintro ⟨i, s, hs, hfd⟩
      exact ⟨some s, List.mem_of_getElem? (Option.join_eq_some_iff.mp hs), hfd⟩
  · exact fun i s process hs hpeer => hown i s hs process (.inr hpeer)

def succeeding : InitAnswers := ⟨true, true, true, true, true⟩

def accepting : ConnectAnswers := ⟨true, true, true, true⟩

def nothingThere : CommWorld := init fun _ => false

/-- Three watchdogs, the last of which cannot listen. Two processes are accepted, one at the second attempt, and the
second watchdog is destroyed. -/
def threeWatchdogs : List CommEvent :=
  [.start "a" succeeding, .start "b" succeeding, .connect 7 "a", .attempt 0 accepting,
    .start "c" { succeeding with listen := false }, .connect 8 "b", .attempt 1 { accepting with accept := false },
    .attempt 1 accepting, .destroy 1]

theorem run_threeWatchdogs : ((PartialStep.run step nothingThere threeWatchdogs).any fun w =>
    decide (w.fds = [2, 0] ∧ w.file "a" = some (.socket 0) ∧ w.file "b" = none ∧ w.file "c" = none) &&
      (w.service 0).any fun s => decide (s.descriptors = [0, 2] ∧ s.peer = some 7)) = true := by
  decide +kernel

theorem descriptors_of_services_three :
    ∃ w, PartialStep.run step nothingThere threeWatchdogs = some w ∧ w.fds.Nodup ∧
      (∀ fd, fd = 2 ∨ fd = 0 ↔ ∃ i s, w.service i = some s ∧ fd ∈ s.descriptors) ∧
      (∃ i s, w.service i = some s ∧ s.serverSocket = some 0 ∧ s.socketPath = "a") ∧
      ∃ s, w.service 0 = some s ∧ .connect 7 s.socketPath ∈ threeWatchdogs := by
  obtain ⟨w, hw, hall⟩ := (Option.any_eq_true _ _).mp run_threeWatchdogs
  obtain ⟨hworld, hservice⟩ := Bool.and_eq_true_iff.mp hall
  obtain ⟨hfds, hfile, -, -⟩ := of_decide_eq_true hworld
  obtain ⟨s, hs, hmembers⟩ := (Option.any_eq_true _ _).mp hservice
  obtain ⟨-, hpeer⟩ := of_decide_eq_true hmembers
  obtain ⟨hnodup, hheld, -, hbound, hconnected⟩ := descriptors_of_services hw
  refine ⟨w, hw, hnodup, ?_, hbound "a" 0 hfile, s, hs, hconnected 0 s 7 hs hpeer⟩
  intro fd
  rw [← hheld fd, hfds, List.mem_pair]

end CommWorld

end AutopinPlus
