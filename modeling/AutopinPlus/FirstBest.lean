import Mathlib.Order.Defs.Unbundled
import Mathlib.Data.List.Basic

/-!
# The first best entry of a list

`ge a b` says that `a` is at least as good as `b`. A search that keeps an index and
replaces it only by a strictly better entry keeps the least index of a best one.
-/
namespace FirstBest

variable {α : Type} {ge : α → α → Prop} {rs : List α} {b : Nat} {r v : α}

/-- The entry at `i` is at least as good as every entry. -/
def Optimal (ge : α → α → Prop) (rs : List α) (i : Nat) : Prop :=
  ∃ r, rs[i]? = some r ∧ ∀ x ∈ rs, ge r x

/-- `b` is the least optimal index. -/
def First (ge : α → α → Prop) (rs : List α) (b : Nat) : Prop :=
  Optimal ge rs b ∧ ∀ i, i < b → ¬ Optimal ge rs i

theorem refl_of_total [Std.Total ge] (v : α) : ge v v := (Std.Total.total (r := ge) v v).elim id id

theorem First.singleton [Std.Total ge] (v : α) : First ge [v] 0 := by
  refine ⟨⟨v, rfl, ?_⟩, fun i hi => absurd hi (Nat.not_lt_zero i)⟩
  intro x hx
  rw [List.mem_singleton] at hx
  rw [hx]
  exact refl_of_total v

/-- A strictly better entry becomes the first best. -/
theorem First.append_better [Std.Total ge] [IsTrans α ge] (h : First ge rs b)
    (hb : rs[b]? = some r) (hv : ¬ ge r v) : First ge (rs ++ [v]) rs.length := by
  obtain ⟨⟨r', hr', hall⟩, -⟩ := h
  obtain rfl : r' = r := Option.some.inj (hr'.symm.trans hb)
  have hvr : ge v r' := (Std.Total.total v r').resolve_right hv
  refine ⟨⟨v, by simp, ?_⟩, ?_⟩
  · intro x hx
    rcases List.mem_append.mp hx with hx | hx
    · exact IsTrans.trans v r' x hvr (hall x hx)
    · rw [List.mem_singleton] at hx
      rw [hx]
      exact refl_of_total v
  · rintro i hi ⟨x, hx, hopt⟩
    rw [List.getElem?_append_left hi] at hx
    have hrx : ge r' x := hall x (List.mem_of_getElem? hx)
    exact hv (IsTrans.trans r' x v hrx (hopt v (by simp)))

/-- An entry that is not strictly better leaves the first best where it is. -/
theorem First.append_other (h : First ge rs b) (hb : rs[b]? = some r) (hv : ge r v) :
    First ge (rs ++ [v]) b := by
  obtain ⟨⟨r', hr', hall⟩, hleast⟩ := h
  obtain rfl : r' = r := Option.some.inj (hr'.symm.trans hb)
  have hlt : b < rs.length := (List.getElem?_eq_some_iff.mp hb).1
  refine ⟨⟨r', by rw [List.getElem?_append_left hlt, hb], ?_⟩, ?_⟩
  · intro x hx
    rcases List.mem_append.mp hx with hx | hx
    · exact hall x hx
    · rw [List.mem_singleton] at hx
      exact hx ▸ hv
  · rintro i hi ⟨x, hx, hopt⟩
    rw [List.getElem?_append_left (Nat.lt_trans hi hlt)] at hx
    exact hleast i hi ⟨x, hx, fun y hy => hopt y (List.mem_append_left _ hy)⟩

/-! ## A bound that is only lowered -/

variable {β : Type}

/-- A candidate below the bound takes its place. -/
def improve (acc candidate : Nat × β) : Nat × β := if candidate.1 < acc.1 then candidate else acc

/-- What is left is the start, if no candidate is below its bound, or else a least candidate. -/
theorem foldl_improve (candidates : List (Nat × β)) (acc : Nat × β) :
    (candidates.foldl improve acc = acc ∧ ∀ x ∈ candidates, acc.1 ≤ x.1) ∨
    (candidates.foldl improve acc ∈ candidates ∧ (candidates.foldl improve acc).1 < acc.1 ∧
      ∀ x ∈ candidates, (candidates.foldl improve acc).1 ≤ x.1) := by
  induction candidates generalizing acc with
  | nil => exact .inl ⟨rfl, by simp⟩
  | cons y rest ih =>
    rw [List.foldl_cons]
    by_cases hy : y.1 < acc.1
    · rw [improve, if_pos hy]
      refine .inr ?_
      rcases ih y with ⟨hsame, hle⟩ | ⟨hmem, hlt, hle⟩
      · rw [hsame, List.forall_mem_cons]
        exact ⟨List.mem_cons_self, hy, Nat.le_refl _, hle⟩
      · rw [List.forall_mem_cons]
        exact ⟨List.mem_cons_of_mem y hmem, Nat.lt_trans hlt hy, Nat.le_of_lt hlt, hle⟩
    · rw [improve, if_neg hy]
      rcases ih acc with ⟨hsame, hle⟩ | ⟨hmem, hlt, hle⟩
      · exact .inl ⟨hsame, List.forall_mem_cons.mpr ⟨Nat.not_lt.mp hy, hle⟩⟩
      · have hley := Nat.le_trans (Nat.le_of_lt hlt) (Nat.not_lt.mp hy)
        exact .inr ⟨List.mem_cons_of_mem y hmem, hlt, List.forall_mem_cons.mpr ⟨hley, hle⟩⟩

end FirstBest
