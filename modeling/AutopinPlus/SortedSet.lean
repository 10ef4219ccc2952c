import Mathlib.Data.List.Sort

/-!
# Finite sets as strictly increasing lists

A set of a linear order is stored as the list an in-order traversal visits, so
iterating over it has a definite order and every operation evaluates. Sortedness
is a field: no operation can return a list with a repeated or misplaced element.
-/

variable {α : Type} [LinearOrder α]

/-- Insert into an increasing list, leaving it alone when the element is there. -/
def insertSorted (x : α) : List α → List α
  | [] => [x]
  | y :: ys => if x < y then x :: y :: ys else if x = y then y :: ys else y :: insertSorted x ys

@[simp] theorem mem_insertSorted (x z : α) (l : List α) :
    z ∈ insertSorted x l ↔ z = x ∨ z ∈ l := by
  induction l with
  | nil => simp [insertSorted]
  | cons y ys ih =>
    rw [insertSorted]
    split_ifs with hlt heq
    · simp
    · subst heq; simp
    · simp only [List.mem_cons, ih]
      tauto

theorem insertSorted_pairwise (x : α) (l : List α) (h : l.Pairwise (· < ·)) :
    (insertSorted x l).Pairwise (· < ·) := by
  induction l with
  | nil => simp [insertSorted]
  | cons y ys ih =>
    obtain ⟨hy, hys⟩ := List.pairwise_cons.mp h
    rw [insertSorted]
    split_ifs with hlt heq
    · refine List.pairwise_cons.mpr ⟨?_, h⟩
      intro z hz
      rcases List.mem_cons.mp hz with rfl | hz
      · exact hlt
      · exact hlt.trans (hy z hz)
    · exact h
    · refine List.pairwise_cons.mpr ⟨?_, ih hys⟩
      intro z hz
      rcases (mem_insertSorted x z ys).mp hz with rfl | hz
      · exact lt_of_le_of_ne (not_lt.mp hlt) (Ne.symm heq)
      · exact hy z hz

structure SortedSet (α : Type) [LinearOrder α] where
  elems : List α
  sorted : elems.Pairwise (· < ·)
  deriving DecidableEq

namespace SortedSet

instance : Membership α (SortedSet α) := ⟨fun s x => x ∈ s.elems⟩

instance (x : α) (s : SortedSet α) : Decidable (x ∈ s) :=
  inferInstanceAs (Decidable (x ∈ s.elems))

@[simp] theorem mem_elems (x : α) (s : SortedSet α) : x ∈ s.elems ↔ x ∈ s := Iff.rfl

theorem ext_mem {s t : SortedSet α} (h : ∀ x, x ∈ s ↔ x ∈ t) : s = t := by
  have he : s.elems = t.elems := s.sorted.eq_of_mem_iff t.sorted h
  cases s
  cases t
  simp_all

theorem elems_nodup (s : SortedSet α) : s.elems.Nodup :=
  s.sorted.imp (fun h => ne_of_lt h)

def empty : SortedSet α := ⟨[], List.Pairwise.nil⟩

def singleton (x : α) : SortedSet α := ⟨[x], List.pairwise_singleton _ x⟩

def insert (x : α) (s : SortedSet α) : SortedSet α :=
  ⟨insertSorted x s.elems, insertSorted_pairwise x s.elems s.sorted⟩

def erase (s : SortedSet α) (x : α) : SortedSet α :=
  ⟨s.elems.filter (fun y => y ≠ x), s.sorted.filter _⟩

/-- Range insertion: every element of the list, one after another. -/
def insertAll (s : SortedSet α) : List α → SortedSet α
  | [] => s
  | x :: xs => (s.insert x).insertAll xs

def ofList (l : List α) : SortedSet α := empty.insertAll l

def union (s t : SortedSet α) : SortedSet α := s.insertAll t.elems

def diff (s t : SortedSet α) : SortedSet α :=
  ⟨s.elems.filter (fun x => x ∉ t), s.sorted.filter _⟩

@[simp] theorem not_mem_empty (x : α) : x ∉ (empty : SortedSet α) := by
  change x ∉ []
  simp

@[simp] theorem mem_singleton (x y : α) : x ∈ singleton y ↔ x = y := by
  change x ∈ [y] ↔ x = y
  simp

@[simp] theorem mem_insert (x y : α) (s : SortedSet α) : x ∈ s.insert y ↔ x = y ∨ x ∈ s :=
  mem_insertSorted y x s.elems

@[simp] theorem mem_erase (x y : α) (s : SortedSet α) : x ∈ s.erase y ↔ x ∈ s ∧ x ≠ y := by
  change x ∈ s.elems.filter _ ↔ _
  simp [List.mem_filter]

@[simp] theorem mem_insertAll (x : α) (s : SortedSet α) (l : List α) :
    x ∈ s.insertAll l ↔ x ∈ s ∨ x ∈ l := by
  induction l generalizing s with
  | nil => simp [insertAll]
  | cons y ys ih =>
    rw [insertAll, ih, mem_insert, List.mem_cons]
    tauto

@[simp] theorem mem_ofList (x : α) (l : List α) : x ∈ ofList l ↔ x ∈ l := by simp [ofList]

@[simp] theorem ofList_elems (s : SortedSet α) : ofList s.elems = s :=
  ext_mem (fun x => mem_ofList x s.elems)

@[simp] theorem mem_union (x : α) (s t : SortedSet α) : x ∈ s.union t ↔ x ∈ s ∨ x ∈ t := by
  simp [union]

@[simp] theorem mem_diff (x : α) (s t : SortedSet α) : x ∈ s.diff t ↔ x ∈ s ∧ x ∉ t := by
  change x ∈ s.elems.filter _ ↔ _
  simp [List.mem_filter]

end SortedSet
