import Mathlib.Data.List.Basic

/-!
# Ring buffers

A stream is written into a fixed number of cells, each entry at its position in the stream modulo that number.
The cells hold the end of the stream, as far back as there are cells, and a reader that knows a position finds
the entries from there on again.
-/
namespace RingBuffer

variable {α : Type}

def put (cells : List α) (position : Nat) (x : α) : List α := cells.set (position % cells.length) x

def putAll (cells : List α) (position : Nat) : List α → List α
  | [] => cells
  | x :: xs => putAll (put cells position x) (position + 1) xs

@[simp] theorem length_put (cells : List α) (position : Nat) (x : α) :
    (put cells position x).length = cells.length := List.length_set

@[simp] theorem length_putAll (cells : List α) (position : Nat) (xs : List α) :
    (putAll cells position xs).length = cells.length := by
  induction xs generalizing cells position with
  | nil => rfl
  | cons x xs ih => rw [putAll, ih, length_put]

/-- Every entry of the stream that was written no longer ago than there are cells stands in its cell. -/
def Holds (cells stream : List α) : Prop :=
  ∀ p, p < stream.length → stream.length ≤ p + cells.length → cells[p % cells.length]? = stream[p]?

theorem Holds.nil (cells : List α) : Holds cells [] := by
  intro p hp
  simp at hp

/-- Cells that all got the same entry. -/
theorem Holds.replicate (n k : Nat) (x : α) : Holds (List.replicate n x) (List.replicate k x) := by
  intro p hp hback
  rw [List.length_replicate] at hp hback
  rw [List.length_replicate] at hback ⊢
  have hcell : p % n < n := Nat.mod_lt _ (by omega)
  rw [List.getElem?_replicate_of_lt hcell, List.getElem?_replicate_of_lt hp]

/-- Two positions that share a cell are at least a whole ring apart. -/
theorem le_sub_of_mod_eq {p q n : Nat} (hpq : p < q) (h : p % n = q % n) : n ≤ q - p := by
  have hdvd : n ∣ q - p := Nat.dvd_of_mod_eq_zero (Nat.sub_mod_eq_zero_of_mod_eq h.symm)
  exact Nat.le_of_dvd (by omega) hdvd

theorem Holds.put {cells stream : List α} (h : Holds cells stream) (x : α) :
    Holds (put cells stream.length x) (stream ++ [x]) := by
  intro p hp hback
  rw [List.length_append, List.length_singleton] at hp hback
  rw [length_put] at hback ⊢
  by_cases hlast : p = stream.length
  · subst hlast
    have hcell : stream.length % cells.length < cells.length := Nat.mod_lt _ (by omega)
    rw [RingBuffer.put, List.getElem?_set_self hcell]
    simp
  · have hne : p % cells.length ≠ stream.length % cells.length := by
      intro heq
      have := le_sub_of_mod_eq (by omega) heq
      omega
    rw [RingBuffer.put, List.getElem?_set_ne hne.symm, List.getElem?_append_left (by omega)]
    exact h p (by omega) (by omega)

theorem Holds.putAll {cells stream : List α} (h : Holds cells stream) (xs : List α) :
    Holds (putAll cells stream.length xs) (stream ++ xs) := by
  induction xs generalizing cells stream with
  | nil => simpa [RingBuffer.putAll] using h
  | cons x xs ih =>
    have hnext := ih (h.put x)
    rw [List.length_append, List.length_singleton, List.append_assoc, List.singleton_append] at hnext
    exact hnext

/-- Entries that do not run over the end of the cells stand there one after the other. -/
theorem Holds.window {cells stream : List α} (h : Holds cells stream) {p n : Nat} (hn : p + n ≤ stream.length)
    (hback : stream.length ≤ p + cells.length) (hend : p % cells.length + n ≤ cells.length) :
    (cells.drop (p % cells.length)).take n = (stream.drop p).take n := by
  apply List.ext_getElem?
  intro i
  rw [List.getElem?_take, List.getElem?_take]
  by_cases hi : i < n
  · rw [if_pos hi, if_pos hi, List.getElem?_drop, List.getElem?_drop]
    have hcell : (p + i) % cells.length = p % cells.length + i := by
      rw [Nat.add_mod, Nat.mod_eq_of_lt (b := cells.length) (a := i) (by omega), Nat.mod_eq_of_lt (by omega)]
    rw [← hcell]
    exact h (p + i) (by omega) (by omega)
  · rw [if_neg hi, if_neg hi]

end RingBuffer
