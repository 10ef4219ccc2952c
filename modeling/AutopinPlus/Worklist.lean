import Mathlib.Data.List.Nodup
import Mathlib.Data.List.Perm.Subperm
import Mathlib.Logic.Relation

/-!
# Exploring a forest with a worklist

A worklist holds edges whose source has been visited and whose target has not. In a
relation in which every node has one parent and the root has none below itself,
each node is put on the list at most once, so the exploration visits exactly the
nodes below the root, and no more of them than there are.
-/
namespace Worklist

open Relation

variable {α : Type} {children : α → List α} {root : α}

/-- `b` is below `a`. -/
def Below (children : α → List α) (a b : α) : Prop := ReflTransGen (fun x y => y ∈ children x) a b

/-- Every node has one parent, and nothing below the root leads back to it. -/
structure Forest (children : α → List α) (root : α) : Prop where
  nodup : ∀ a, (children a).Nodup
  parent : ∀ a a' b, b ∈ children a → b ∈ children a' → a = a'
  top : ∀ a, Below children root a → root ∉ children a

/-- The state of an exploration: visited nodes, and edges still to follow. -/
structure Explored (children : α → List α) (root : α) (done : List α) (pending : List (α × α)) :
    Prop where
  nodup : (done ++ pending.map Prod.snd).Nodup
  start : root ∈ done
  below : ∀ a ∈ done ++ pending.map Prod.snd, Below children root a
  closed : ∀ a ∈ done, ∀ b ∈ children a, b ∈ done ++ pending.map Prod.snd
  edge : ∀ e ∈ pending, e.1 ∈ done ∧ e.2 ∈ children e.1
  origin : ∀ b ∈ done, b ≠ root → ∃ a ∈ done, b ∈ children a

/-- The edges out of a node, in order. -/
def edgesOf (children : α → List α) (a : α) : List (α × α) := (children a).map (fun b => (a, b))

@[simp] theorem edgesOf_snd (a : α) : (edgesOf children a).map Prod.snd = children a := by
  simp [edgesOf, Function.comp_def]

theorem Explored.init (hf : Forest children root) :
    Explored children root [root] (edgesOf children root) where
  nodup := by
    rw [edgesOf_snd, List.singleton_append, List.nodup_cons]
    exact ⟨hf.top root .refl, hf.nodup root⟩
  start := by simp
  below := by
    intro a ha
    rw [edgesOf_snd, List.singleton_append, List.mem_cons] at ha
    rcases ha with rfl | ha
    · exact .refl
    · exact .single ha
  closed := by
    intro a ha b hb
    rw [List.mem_singleton] at ha
    subst ha
    simp [hb]
  edge := by
    intro e he
    obtain ⟨b, hb, rfl⟩ := List.mem_map.mp he
    exact ⟨by simp, hb⟩
  origin := by
    intro b hb hne
    exact absurd (List.mem_singleton.mp hb) hne

/-- A child of the node just visited is new: its parent was not visited before. -/
theorem Explored.fresh {done : List α} {a b : α} {rest : List (α × α)} (hf : Forest children root)
    (h : Explored children root done ((a, b) :: rest)) {x : α} (hx : x ∈ children b) :
    x ∉ done ++ ((a, b) :: rest).map Prod.snd := by
  have hb : b ∉ done := by
    intro hb
    exact List.disjoint_of_nodup_append h.nodup hb (by simp)
  have hbelow : Below children root b := h.below b (by simp)
  intro hmem
  rcases List.mem_append.mp hmem with hmem | hmem
  · by_cases hr : x = root
    · exact hf.top b hbelow (hr ▸ hx)
    · obtain ⟨p, hp, hpx⟩ := h.origin x hmem hr
      exact hb (hf.parent p b x hpx hx ▸ hp)
  · obtain ⟨e, he, rfl⟩ := List.mem_map.mp hmem
    obtain ⟨hp, hpe⟩ := h.edge e he
    exact hb (hf.parent e.1 b e.2 hpe hx ▸ hp)

/-- Take the first edge off the list, visit its target and append the edges out of it. -/
theorem Explored.step {done : List α} {a b : α} {rest : List (α × α)} (hf : Forest children root)
    (h : Explored children root done ((a, b) :: rest)) :
    Explored children root (done ++ [b]) (rest ++ edgesOf children b) := by
  have hsplit : (done ++ [b]) ++ (rest ++ edgesOf children b).map Prod.snd =
      (done ++ ((a, b) :: rest).map Prod.snd) ++ children b := by
    simp
  have hab := h.edge (a, b) (by simp)
  have hbelow : Below children root b := h.below b (by simp)
  refine ⟨?_, List.mem_append_left _ h.start, ?_, ?_, ?_, ?_⟩
  · rw [hsplit]
    refine List.Nodup.append h.nodup (hf.nodup b) ?_
    intro x hx hxb
    exact h.fresh hf hxb hx
  · rw [hsplit]
    intro x hx
    rcases List.mem_append.mp hx with hx | hx
    · exact h.below x hx
    · exact hbelow.tail hx
  · rw [hsplit]
    intro x hx y hy
    rcases List.mem_append.mp hx with hx | hx
    · exact List.mem_append_left _ (h.closed x hx y hy)
    · rw [List.mem_singleton] at hx
      exact List.mem_append_right _ (hx ▸ hy)
  · intro e he
    rcases List.mem_append.mp he with he | he
    · obtain ⟨h1, h2⟩ := h.edge e (List.mem_cons_of_mem _ he)
      exact ⟨List.mem_append_left _ h1, h2⟩
    · obtain ⟨y, hy, rfl⟩ := List.mem_map.mp he
      exact ⟨by simp, hy⟩
  · intro x hx hne
    rcases List.mem_append.mp hx with hx | hx
    · obtain ⟨p, hp, hpx⟩ := h.origin x hx hne
      exact ⟨p, List.mem_append_left _ hp, hpx⟩
    · rw [List.mem_singleton] at hx
      exact ⟨a, List.mem_append_left _ hab.1, hx ▸ hab.2⟩

/-- When the list is empty, the visited nodes are those below the root. -/
theorem Explored.complete {done : List α} (h : Explored children root done []) (a : α) :
    a ∈ done ↔ Below children root a := by
  constructor
  · intro ha
    exact h.below a (by simpa using ha)
  · intro ha
    induction ha with
    | refl => exact h.start
    | tail _ hbc ih => simpa using h.closed _ ih _ hbc

/-- The exploration is no larger than any set that holds everything below the root. -/
theorem Explored.length_le {done : List α} {pending : List (α × α)}
    (h : Explored children root done pending) (all : List α) (hall : ∀ a, Below children root a → a ∈ all) :
    done.length + pending.length ≤ all.length := by
  have hsub : done ++ pending.map Prod.snd ⊆ all := fun a ha => hall a (h.below a ha)
  simpa using (h.nodup.subperm hsub).length_le

end Worklist
