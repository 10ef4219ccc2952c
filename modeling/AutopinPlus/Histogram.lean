import AutopinPlus.PartialStep
import Mathlib.Algebra.Order.BigOperators.Group.List
import Mathlib.Algebra.Order.Ring.Int
import Mathlib.Algebra.Order.Ring.Nat
import Mathlib.Algebra.GroupWithZero.Nat

/-!
# Histograms

An array of counters, one of which is incremented for every key. An increment is undefined outside the array, so
keys need not be indices.
-/
namespace Histogram

open PartialStep (subscript assign)

def bump (v : List Nat) (i : Int) : Option (List Nat) := do
  let n ← subscript v i
  assign v i (n + 1)

theorem bump_isSome_iff (v : List Nat) (i : Int) : (bump v i).isSome ↔ 0 ≤ i ∧ i < v.length := by
  rw [← PartialStep.subscript_isSome_iff]
  unfold bump
  cases h : subscript v i with
  | none => simp
  | some n =>
    have hin := (PartialStep.subscript_isSome_iff v i).mp (by rw [h]; rfl)
    simpa using (PartialStep.assign_isSome_iff v i (n + 1)).mpr hin

theorem bump_eq_some {v w : List Nat} {i : Int} (h : bump v i = some w) :
    ∃ n, subscript v i = some n ∧ assign v i (n + 1) = some w := Option.bind_eq_some_iff.mp h

theorem length_bump {v w : List Nat} {i : Int} (h : bump v i = some w) : w.length = v.length := by
  obtain ⟨n, -, hassign⟩ := bump_eq_some h
  exact PartialStep.length_assign hassign

/-- One entry is exchanged for another. -/
theorem sum_map_set {α : Type} (f : α → Nat) {l : List α} {i : Nat} {a : α} (h : l[i]? = some a) (b : α) :
    ((l.set i b).map f).sum + f a = (l.map f).sum + f b := by
  induction l generalizing i with
  | nil => simp at h
  | cons c l ih =>
    cases i with
    | zero =>
      obtain rfl : c = a := by simpa using h
      simp only [List.set_cons_zero, List.map_cons, List.sum_cons]
      omega
    | succ i =>
      have hrest := ih (i := i) (by simpa using h)
      simp only [List.set_cons_succ, List.map_cons, List.sum_cons]
      omega

theorem sum_bump {v w : List Nat} {i : Int} (h : bump v i = some w) : w.sum = v.sum + 1 := by
  obtain ⟨n, hn, hassign⟩ := bump_eq_some h
  unfold assign at hassign
  split_ifs at hassign
  cases hassign
  obtain ⟨-, -, hcell⟩ := PartialStep.subscript_eq_some hn
  have hset := sum_map_set id hcell (n + 1)
  simp only [List.map_id, id] at hset
  omega

/-- Of `n` counters each has the number of its key, and together they have all of them. -/
structure Counts (n : Nat) (v : List Nat) (keys : List Int) : Prop where
  length : v.length = n
  count : ∀ j : Int, 0 ≤ j → j < n → subscript v j = some (keys.count j)
  sum : v.sum = keys.length

theorem Counts.replicate (n : Nat) : Counts n (List.replicate n 0) [] where
  length := List.length_replicate
  count := by
    intro j hj hlt
    simp [subscript, hj, show j.toNat < n by omega]
  sum := by simp

variable {n : Nat} {v w : List Nat} {keys : List Int}

theorem Counts.bump_isSome_iff (h : Counts n v keys) (i : Int) : (bump v i).isSome ↔ 0 ≤ i ∧ i < n := by
  rw [Histogram.bump_isSome_iff, h.length]

theorem Counts.bump (h : Counts n v keys) {i : Int} (hbump : bump v i = some w) : Counts n w (i :: keys) where
  length := by rw [length_bump hbump, h.length]
  count := by
    intro j hj hlt
    obtain ⟨m, hm, hassign⟩ := bump_eq_some hbump
    have hold := h.count j hj hlt
    rw [PartialStep.subscript_assign hassign]
    by_cases hji : j = i
    · subst hji
      rw [hm, Option.some.injEq] at hold
      rw [if_pos rfl, hold, List.count_cons_self]
    · rw [if_neg hji, hold, List.count_cons_of_ne (Ne.symm hji)]
  sum := by rw [sum_bump hbump, h.sum, List.length_cons]

/-- No counter is above the number of keys. -/
theorem Counts.le_length (h : Counts n v keys) {m : Nat} (hm : m ∈ v) : m ≤ keys.length := by
  rw [← h.sum]
  exact List.le_sum_of_mem hm

theorem count_map {α : Type} (key : α → Int) (l : List α) (k : Int) :
    (l.map key).count k = l.countP fun a => key a = k := by
  induction l with
  | nil => rfl
  | cons a l ih =>
    rw [List.map_cons, List.count_cons, List.countP_cons, ih]
    by_cases ha : key a = k <;> simp [ha]

end Histogram
