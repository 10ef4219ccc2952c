import Mathlib.Data.List.Induction
import AutopinPlus.Autopin1Round

/-!
# Pinning at once and one by one

`applyPinning` goes through the tasks it finds with its own two counters, and `slot_TaskCreated`
takes the lengths of the two lists for them. Both send a task to the core that is next for its
position, so it does not matter how many of the tasks are there when the pinning is applied.
-/
namespace AutopinPlus

namespace Autopin1

open PartialStep

variable {M D : Type} {u : Setup M D} {pinning tasks : List Int} {base : List (Int × Int)} {s t : State M D}

/-- The requests so far, the latest first. -/
def sent (s : State M D) : List (Int × Int) := s.probe.session.host.affinity.map (fun c => (c.tid, c.cpu))

/-- The core for the task at position `j` when `i` cores are taken: none if the task is passed over or
no core is left. -/
def coreFor (u : Setup M D) (pinning : List Int) (i j : Nat) : Option Int :=
  if (j : Int) ∈ u.skip ∨ (j = 1 ∧ u.openmpIcc) then none else pinning[i]?

def place (u : Setup M D) (pinning : List Int) (acc : Nat × List (Int × Int)) (tid : Int) :
    Nat × List (Int × Int) :=
  (acc.1 + 1, acc.2 ++ (coreFor u pinning acc.2.length acc.1).toList.map (fun cpu => (tid, cpu)))

/-- Which task is sent to which core, for a list of tasks in their order. -/
def placements (u : Setup M D) (pinning tasks : List Int) : List (Int × Int) :=
  (tasks.foldl (place u pinning) (0, [])).2

theorem place_fst (u : Setup M D) (pinning tasks : List Int) (acc : Nat × List (Int × Int)) :
    (tasks.foldl (place u pinning) acc).1 = acc.1 + tasks.length := by
  induction tasks generalizing acc with
  | nil => rfl
  | cons tid tasks ih =>
    rw [List.foldl_cons, ih, List.length_cons, place]
    omega

theorem placements_append (tid : Int) :
    placements u pinning (tasks ++ [tid]) = placements u pinning tasks ++
      (coreFor u pinning (placements u pinning tasks).length tasks.length).toList.map
        (fun cpu => (tid, cpu)) := by
  have hfst := place_fst u pinning tasks (0, [])
  simp only [placements, List.foldl_append, List.foldl_cons, List.foldl_nil, place]
  rw [hfst, Nat.zero_add]

theorem placements_tids : ∀ tid ∈ (placements u pinning tasks).map Prod.fst, tid ∈ tasks := by
  induction tasks using List.reverseRecOn with
  | nil => simp [placements]
  | append_singleton tasks new ih =>
    intro tid hmem
    rw [placements_append, List.map_append, List.mem_append] at hmem
    rcases hmem with hmem | hmem
    · exact List.mem_append_left _ (ih tid hmem)
    · obtain ⟨⟨x, cpu⟩, hx, rfl⟩ := List.mem_map.mp hmem
      obtain ⟨cpu', -, he⟩ := List.mem_map.mp hx
      cases he
      simp

/-- The pinned tasks and the requests are those of `placements`, after the requests there were before. -/
structure Sent (u : Setup M D) (pinning : List Int) (base : List (Int × Int)) (tasks : List Int)
    (s : State M D) : Prop where
  pinned : pinnedTids s = (placements u pinning tasks).map Prod.fst
  sent : Autopin1.sent s = (placements u pinning tasks).reverse ++ base

theorem Sent.count (h : Sent u pinning base tasks s) :
    s.pinnedTasks.length = (placements u pinning tasks).length := by
  have hlen := congrArg List.length h.pinned
  simpa [pinnedTids] using hlen

/-- One more task, which gets no core. -/
theorem Sent.pass (h : Sent u pinning base tasks s) {tid : Int}
    (hcore : coreFor u pinning (placements u pinning tasks).length tasks.length = none)
    (hpinned : pinnedTids t = pinnedTids s) (hsent : Autopin1.sent t = Autopin1.sent s) :
    Sent u pinning base (tasks ++ [tid]) t := by
  have hsame : placements u pinning (tasks ++ [tid]) = placements u pinning tasks := by
    rw [placements_append, hcore]
    simp
  exact ⟨by rw [hsame, hpinned, h.pinned], by rw [hsame, hsent, h.sent]⟩

/-- One more task, which is sent to the next core. -/
theorem Sent.send (h : Sent u pinning base tasks s) {tid cpu : Int}
    (hcore : coreFor u pinning (placements u pinning tasks).length tasks.length = some cpu)
    (hpinned : pinnedTids t = pinnedTids s ++ [tid])
    (hsent : Autopin1.sent t = (tid, cpu) :: Autopin1.sent s) : Sent u pinning base (tasks ++ [tid]) t := by
  have hmore : placements u pinning (tasks ++ [tid]) = placements u pinning tasks ++ [(tid, cpu)] := by
    rw [placements_append, hcore]
    rfl
  exact ⟨by rw [hmore, hpinned, h.pinned, List.map_append]; rfl,
    by rw [hmore, hsent, h.sent, List.reverse_append]; rfl⟩

/-! ## Both ways -/

theorem coreFor_none_of_passed {i j : Nat} (h : (j : Int) ∈ u.skip ∨ (j = 1 ∧ u.openmpIcc)) :
    coreFor u pinning i j = none := if_pos h

theorem coreFor_of_not_passed {i j : Nat} (h : ¬ ((j : Int) ∈ u.skip ∨ (j = 1 ∧ u.openmpIcc))) :
    coreFor u pinning i j = pinning[i]? := if_neg h

theorem coreFor_none_of_exhausted {i : Nat} (h : pinning.length ≤ i) (j : Nat) :
    coreFor u pinning i j = none := by
  unfold coreFor
  split
  · rfl
  · exact List.getElem?_eq_none h

/-- The loop of `applyPinning` before the task `j`. -/
structure Looped (u : Setup M D) (pinning : List Int) (base : List (Int × Int)) (tasks : List Int) (j : Nat)
    (acc : Nat × State M D) : Prop extends Sent u pinning base (tasks.take j) acc.2 where
  same : acc.2.tasks = tasks
  counter : acc.1 = (placements u pinning (tasks.take j)).length

theorem pinNext_looped {j : Nat} {acc : Nat × State M D} (hj : j < tasks.length)
    (h : Looped u pinning base tasks j acc) :
    ∃ acc', pinNext u pinning acc j = some acc' ∧ Looped u pinning base tasks (j + 1) acc' := by
  obtain ⟨hsent, hsame, hcounter⟩ := h
  have htake : tasks.take (j + 1) = tasks.take j ++ [tasks[j]] := List.take_succ_eq_append_getElem hj
  have hlen : (tasks.take j).length = j := List.length_take_of_le (Nat.le_of_lt hj)
  have hpass : coreFor u pinning acc.1 j = none → Looped u pinning base tasks (j + 1) acc := by
    intro hcore
    have hnone : coreFor u pinning (placements u pinning (tasks.take j)).length (tasks.take j).length =
        none := by
      rw [hlen, ← hcounter, hcore]
    have hmore : placements u pinning (tasks.take (j + 1)) = placements u pinning (tasks.take j) := by
      rw [htake, placements_append, hnone]
      simp
    exact ⟨htake ▸ hsent.pass hnone rfl rfl, hsame, by rw [hmore, hcounter]⟩
  unfold pinNext
  split
  · rename_i hexhausted
    exact ⟨acc, rfl, hpass (coreFor_none_of_exhausted hexhausted j)⟩
  · rename_i hleft
    split
    · rename_i hskip
      exact ⟨acc, rfl, hpass (coreFor_none_of_passed (.inl hskip))⟩
    · rename_i hskip
      split
      · rename_i hicc
        exact ⟨acc, rfl, hpass (coreFor_none_of_passed (.inr hicc))⟩
      · rename_i hicc
        have htid : tasks[j]? = some tasks[j] := List.getElem?_eq_getElem hj
        obtain ⟨cpu, hcpu⟩ : ∃ cpu, pinning[acc.1]? = some cpu := ⟨_, List.getElem?_eq_getElem (by omega)⟩
        have hcore : coreFor u pinning (placements u pinning (tasks.take j)).length (tasks.take j).length =
            some cpu := by
          rw [hlen, ← hcounter, coreFor_of_not_passed (not_or.mpr ⟨hskip, hicc⟩), hcpu]
        have hmore : (placements u pinning (tasks.take (j + 1))).length = acc.1 + 1 := by
          rw [htake, placements_append, hcore, hcounter]
          simp
        refine ⟨(acc.1 + 1, pin u tasks[j] cpu acc.2), ?_, htake ▸ hsent.send hcore ?_ ?_, hsame, hmore.symm⟩
        · simp only [hsame, htid, hcpu, Option.bind_eq_bind, Option.bind_some]
        · simp [pinnedTids, pin]
        · simp [Autopin1.sent, pin, Probe.setAffinity]

/-- `applyPinning` makes the requests of `placements` for its tasks. -/
theorem applyPinning_sent (u : Setup M D) (pinning : List Int) (hnil : s.pinnedTasks = []) :
    ∃ t, applyPinning u pinning s = some t ∧ Sent u pinning (sent s) s.tasks t ∧ t.tasks = s.tasks ∧
      t.notifications = s.notifications ∧ t.currentPinning = s.currentPinning := by
  have hfirst : Looped u pinning (sent s) s.tasks 0 (0, { s with applied := s.applied ++ [pinning] }) := by
    refine ⟨⟨?_, rfl⟩, rfl, rfl⟩
    simp [pinnedTids, hnil, placements]
  obtain ⟨⟨i, t⟩, hrun, hlooped⟩ := foldlM_range_isSome (Looped u pinning (sent s) s.tasks) s.tasks.length
    (fun j acc hj hacc => pinNext_looped hj hacc) hfirst
  have happly : applyPinning u pinning s = some t := by
    rw [applyPinning, hrun]
    rfl
  have hsent : Sent u pinning (sent s) s.tasks t := by
    have := hlooped.toSent
    rwa [List.take_length] at this
  obtain ⟨host, tids, hspec, -⟩ := applyPinning_spec u pinning s
  obtain rfl := Option.some.inj (hspec.symm.trans happly)
  exact ⟨_, happly, hsent, rfl, rfl, rfl⟩

/-- So does `slot_TaskCreated` for a task that comes later. -/
theorem slotTaskCreated_sent (hu : u.monitor.Pinless) (h : Sent u pinning base s.tasks s)
    (hn : s.notifications = true) (hp : subscript u.pinnings s.currentPinning = some pinning) {tid : Int}
    (htid : tid ∉ s.tasks) :
    ∃ t, slotTaskCreated u tid s = some t ∧ Sent u pinning base t.tasks t ∧ t.tasks = s.tasks ++ [tid] ∧
      t.notifications = s.notifications ∧ t.currentPinning = s.currentPinning := by
  have hnew : s.pinnedTasks.any (fun t => t.tid = tid) = false := by
    have hout : tid ∉ pinnedTids s := by
      rw [h.pinned]
      exact fun hmem => htid (placements_tids tid hmem)
    simpa [pinnedTids] using hout
  rw [slotTaskCreated, if_pos hn, if_neg (by simp [hnew]), hp, Option.bind_eq_bind, Option.bind_some]
  simp only [pinCreated]
  split
  · rename_i hroom
    obtain ⟨cpu, hcpu⟩ : ∃ cpu, pinning[s.pinnedTasks.length]? = some cpu :=
      ⟨_, List.getElem?_eq_getElem hroom.1⟩
    have hcore : coreFor u pinning (placements u pinning s.tasks).length s.tasks.length = some cpu := by
      rw [coreFor_of_not_passed hroom.2, ← h.count, hcpu]
    have hreq : ∀ probe : Probe M,
        probe.session.host.affinity = (s.probe.setAffinity u tid cpu).session.host.affinity →
        probe.session.host.affinity.map (fun c => (c.tid, c.cpu)) = (tid, cpu) :: sent s := by
      intro probe hprobe
      rw [hprobe]
      rfl
    simp only [hcpu, Option.bind_eq_bind, Option.bind_some]
    split
    · refine ⟨_, rfl, h.send hcore (by simp [pinnedTids]) (hreq _ ?_), rfl, rfl, rfl⟩
      exact hu.start tid _
    · exact ⟨_, rfl, h.send hcore (by simp [pinnedTids]) (hreq _ rfl), rfl, rfl, rfl⟩
  · rename_i hroom
    have hcore : coreFor u pinning (placements u pinning s.tasks).length s.tasks.length = none := by
      rw [not_and_or, not_not] at hroom
      rcases hroom with hexhausted | hpassed
      · exact coreFor_none_of_exhausted (by rw [← h.count]; omega) _
      · exact coreFor_none_of_passed hpassed
    exact ⟨_, rfl, h.pass hcore rfl rfl, rfl, rfl, rfl⟩

theorem slotTaskCreated_all_sent (hu : u.monitor.Pinless) {new : List Int} (h : Sent u pinning base s.tasks s)
    (hn : s.notifications = true) (hp : subscript u.pinnings s.currentPinning = some pinning)
    (hnodup : (s.tasks ++ new).Nodup) :
    ∃ t, new.foldlM (fun s tid => slotTaskCreated u tid s) s = some t ∧ Sent u pinning base t.tasks t ∧
      t.tasks = s.tasks ++ new := by
  induction new generalizing s with
  | nil => exact ⟨s, rfl, h, (List.append_nil _).symm⟩
  | cons tid new ih =>
    have htid : tid ∉ s.tasks := by
      intro hmem
      exact List.disjoint_of_nodup_append hnodup hmem List.mem_cons_self
    obtain ⟨mid, hmid, hsent, htasks, hn', hcur⟩ := slotTaskCreated_sent hu h hn hp htid
    have hall : mid.tasks ++ new = s.tasks ++ tid :: new := by rw [htasks, List.append_assoc]; rfl
    obtain ⟨t, ht, hsent', htasks'⟩ := ih hsent (hn'.trans hn) (by rw [hcur]; exact hp) (hall ▸ hnodup)
    refine ⟨t, ?_, hsent', htasks'.trans hall⟩
    rw [List.foldlM_cons, hmid, Option.bind_eq_bind, Option.bind_some, ht]

/-- Pinning some tasks at once and the others as they are created leaves the same tasks, the same pinned
tasks and the same requests as pinning all of them at once. -/
theorem incremental_eq_batch (u : Setup M D) (s : State M D) (pinning tasks new : List Int)
    (hu : u.monitor.Pinless) (hn : s.notifications = true)
    (hp : subscript u.pinnings s.currentPinning = some pinning) (hnil : s.pinnedTasks = [])
    (hnodup : (tasks ++ new).Nodup) :
    ∃ t b : State M D,
      ((applyPinning u pinning { s with tasks := tasks }).bind
        (fun t => new.foldlM (fun s tid => slotTaskCreated u tid s) t)) = some t ∧
      applyPinning u pinning { s with tasks := tasks ++ new } = some b ∧
      t.tasks = b.tasks ∧ pinnedTids t = pinnedTids b ∧ sent t = sent b := by
  obtain ⟨mid, hmid, hsent, htasks, hn', hcur⟩ :=
    applyPinning_sent (s := { s with tasks := tasks }) u pinning hnil
  obtain ⟨b, hb, hbatch, hbtasks, -⟩ :=
    applyPinning_sent (s := { s with tasks := tasks ++ new }) u pinning hnil
  have hmidNodup : (mid.tasks ++ new).Nodup := by
    rw [htasks]
    exact hnodup
  obtain ⟨t, ht, hincremental, hall⟩ := slotTaskCreated_all_sent hu (htasks ▸ hsent) (hn'.trans hn)
    (by rw [hcur]; exact hp) hmidNodup
  have hsame : t.tasks = b.tasks := by rw [hall, htasks, hbtasks]
  have hbase : Sent u pinning (sent s) b.tasks b := hbtasks ▸ hbatch
  refine ⟨t, b, ?_, hb, hsame, ?_, ?_⟩
  · rw [hmid, Option.bind_some, ht]
  · rw [hincremental.pinned, hbase.pinned, hsame]
  · rw [hincremental.sent, hbase.sent, hsame]
    rfl

/-- The second task is passed over, and the last one finds no core. -/
theorem incremental_eq_batch_skip :
    let u : Setup (PageMigrate Int) Int := { tracedSampling with skip := .singleton 1, pinnings := [[4, 5]] }
    let s : State (PageMigrate Int) Int := { probe := ⟨⟨{}, {}, {}⟩, []⟩, notifications := true }
    ∃ t b : State (PageMigrate Int) Int,
      ((applyPinning u [4, 5] { s with tasks := [10] }).bind
        (fun t => [11, 12, 13].foldlM (fun s tid => slotTaskCreated u tid s) t)) = some t ∧
      applyPinning u [4, 5] { s with tasks := [10] ++ [11, 12, 13] } = some b ∧
      t.tasks = b.tasks ∧ pinnedTids t = pinnedTids b ∧ sent t = sent b ∧ sent b = [(12, 5), (10, 4)] := by
  intro u s
  obtain ⟨t, b, ht, hb, htasks, hpinned, hsent⟩ := incremental_eq_batch u s [4, 5] [10] [11, 12, 13]
    (PageMigrate.monitor_pinless id) rfl rfl rfl (by decide)
  refine ⟨t, b, ht, hb, htasks, hpinned, hsent, ?_⟩
  cases hb
  rfl

end Autopin1

end AutopinPlus
