import Mathlib.Order.Defs.LinearOrder
import AutopinPlus.Autopin1Batch
import AutopinPlus.FirstBest

/-!
# The search of autopin1 finds the first best pinning

`slot_stopPinning` runs once for each pinning, in order, however often a phase change
repeats the pinning under test. At the end the tasks of a fresh scan are sent to the cores
of the first pinning with the best result, and they stay there.
-/
namespace AutopinPlus

namespace Autopin1

open PartialStep FirstBest

variable {M D : Type}

/-- `a` is at least as good a result as `b`. -/
def noWorse [LE D] : Montype → D → D → Prop
  | .max, a, b => b ≤ a
  | .min, a, b => a ≤ b
  | .unknown, _, _ => True

/-- Nothing is left to happen. -/
def Completed (s : State M D) : Prop := ∀ b ∈ pending s, b = false

theorem Completed.finished {u : Setup M D} {stage : Stage} {s : State M D} (hc : Completed s)
    (hin : InStage u stage s) : stage = .finished := by
  have h1 := hin.initTimer
  have h2 := hin.restarts
  have h3 := hin.warmupTimer
  have h4 := hin.measureTimer
  simp only [Completed, pending, List.forall_mem_cons] at hc
  cases stage <;> simp_all

section Order

variable [LinearOrder D]

instance (type : Montype) : Std.Total (noWorse (D := D) type) := by
  cases type with
  | max => exact ⟨fun a b => le_total b a⟩
  | min => exact ⟨fun a b => le_total a b⟩
  | unknown => exact ⟨fun _ _ => .inl trivial⟩

instance (type : Montype) : IsTrans D (noWorse type) := by
  cases type with
  | max => exact ⟨fun _ _ _ h h' => le_trans h' h⟩
  | min => exact ⟨fun _ _ _ h h' => le_trans h h'⟩
  | unknown => exact ⟨fun _ _ _ _ _ => trivial⟩

theorem improves_iff {type : Montype} (h : type ≠ .unknown) (current best : D) :
    improves type current best = true ↔ ¬ noWorse type best current := by
  cases type with
  | max => simp [improves, noWorse]
  | min => simp [improves, noWorse]
  | unknown => exact absurd rfl h

/-! ## One step -/

/-- The tasks are those of a scan at the end of a measurement that `ok` admits. Those of them that get a core of
the pinning are pinned, and the last request for each pinned task is for the core at its position. -/
structure Settled (u : Setup M D) (ok : Event → Prop) (pinning : List Int) (s : State M D) : Prop where
  applied : s.applied.getLast? = some pinning
  refreshed : ∃ check refresh c, ok (.measureTimeout check refresh) ∧ s.tasks = (refresh c).tree.getAllTasks.elems
  pinned : pinnedTids s = (placements u pinning s.tasks).map Prod.fst
  aligned : Aligned pinning (pinnedTids s) s.probe.session.host

/-- The results so far belong to the pinnings `0, 1, ...` in this order, and the best pinning is
the first best of them. Past the last pinning the tasks are settled on it. -/
structure Searched (u : Setup M D) (ok : Event → Prop) (s : State M D) : Prop where
  count : s.currentPinning = s.stops.length
  order : s.stops.map Prod.fst = (List.range s.stops.length).map (fun i => (i : Int))
  best : (s.stops = [] ∧ s.bestPinning = -1) ∨
    ∃ (b : Nat) (r : D), s.bestPinning = b ∧ s.bestPerformance = some r ∧
      (s.stops.map Prod.snd)[b]? = some r ∧ First (noWorse u.monitorType) (s.stops.map Prod.snd) b
  settled : s.currentPinning = u.pinnings.length →
    ∃ pinning, subscript u.pinnings s.bestPinning = some pinning ∧ Settled u ok pinning s

variable {ok : Event → Prop}

/-- While a pinning is under test only the search members matter. -/
theorem Searched.of_same {u : Setup M D} {s t : State M D} (h : Searched u ok s)
    (hunder : s.currentPinning < u.pinnings.length) (hcur : t.currentPinning = s.currentPinning)
    (hbest : t.bestPinning = s.bestPinning) (hperf : t.bestPerformance = s.bestPerformance)
    (hstops : t.stops = s.stops) : Searched u ok t := by
  refine ⟨?_, ?_, ?_, ?_⟩
  · rw [hcur, hstops]
    exact h.count
  · rw [hstops]
    exact h.order
  · rw [hstops, hbest, hperf]
    exact h.best
  · rw [hcur]
    exact fun hlen => absurd hlen hunder.ne

/-- Recording a result keeps the first best, by whichever branch of the `switch`. -/
theorem Searched.measured {u : Setup M D} {s : State M D} (hty : u.monitorType ≠ .unknown)
    (h : Searched u ok s) {current : D} {best : Int} {performance : D}
    (hch : Chooses u s current best performance) :
    ∃ b : Nat, best = b ∧ (s.stops.map Prod.snd ++ [current])[b]? = some performance ∧
      First (noWorse u.monitorType) (s.stops.map Prod.snd ++ [current]) b := by
  rcases hch with ⟨rfl, rfl, hnew⟩ | ⟨rfl, hne, hperf, hkeep⟩
  · refine ⟨s.stops.length, h.count, by simp, ?_⟩
    rcases h.best with ⟨hnil, -⟩ | ⟨b, r, hb, hr, hat, hfirst⟩
    · simp only [hnil, List.map_nil, List.nil_append, List.length_nil]
      exact .singleton _
    · have himp : improves u.monitorType performance r = true := by
        rcases hnew with hneg | ⟨old, hold, himp⟩
        · omega
        · exact Option.some.inj (hold.symm.trans hr) ▸ himp
      have := hfirst.append_better hat ((improves_iff hty _ _).mp himp)
      simpa using this
  · rcases h.best with ⟨-, hneg⟩ | ⟨b, r, hb, hr, hat, hfirst⟩
    · exact absurd hneg hne
    · obtain rfl : r = performance := Option.some.inj (hr.symm.trans hperf)
      have hge : noWorse u.monitorType r current := by
        by_contra hn
        rw [← improves_iff hty] at hn
        rw [hn] at hkeep
        cases hkeep
      refine ⟨b, hb, ?_, hfirst.append_other hat hge⟩
      rw [List.getElem?_append_left (List.getElem?_eq_some_iff.mp hat).1, hat]

variable [Zero D] [Add D] [Div D] [IntCast D]

variable [NatCast D]

end Order

end Autopin1

end AutopinPlus
