import Mathlib.Algebra.BigOperators.Group.List.Basic
import Mathlib.Algebra.Order.Ring.Nat
import Mathlib.Data.List.AList

/-!
# Tallies

A table from keys to numbers, where a key that is not in it has the number 0. A key keeps its place in the table when
it is counted again. What is counted under all keys together is everything, as every element has one key.
-/
namespace Tally

variable {α β : Type} [DecidableEq α]

def get (t : AList (fun _ : α => Nat)) (k : α) : Nat := (t.lookup k).getD 0

def bump (t : AList (fun _ : α => Nat)) (k : α) : AList (fun _ : α => Nat) :=
  if k ∈ t then t.replace k (get t k + 1) else t.insert k 1

theorem dlookup_kreplace_self {k : α} {l : List (Sigma fun _ : α => Nat)} (h : k ∈ l.keys) (n : Nat) :
    List.dlookup k (List.kreplace k n l) = some n := by
  induction l with
  | nil => cases h
  | cons e l ih =>
    rw [List.kreplace, List.lookmap_cons]
    by_cases hk : k = e.1
    · rw [if_pos hk, List.dlookup_cons_eq]
    · have hrest : k ∈ l.keys := by simpa [hk] using h
      rw [if_neg hk, List.dlookup_cons_ne _ _ hk]
      exact ih hrest

theorem dlookup_kreplace_ne {j k : α} (hjk : j ≠ k) (l : List (Sigma fun _ : α => Nat)) (n : Nat) :
    List.dlookup j (List.kreplace k n l) = List.dlookup j l := by
  induction l with
  | nil => rfl
  | cons e l ih =>
    rw [List.kreplace, List.lookmap_cons]
    by_cases hk : k = e.1
    · rw [if_pos hk, List.dlookup_cons_ne _ _ hjk, List.dlookup_cons_ne _ _ (hk ▸ hjk)]
    · rw [if_neg hk]
      by_cases hj : j = e.1
      · obtain ⟨a, b⟩ := e
        obtain rfl : j = a := hj
        rw [List.dlookup_cons_eq, List.dlookup_cons_eq]
      · rw [List.dlookup_cons_ne _ _ hj, List.dlookup_cons_ne _ _ hj]
        exact ih

theorem get_bump (t : AList (fun _ : α => Nat)) (j k : α) :
    get (bump t k) j = if j = k then get t j + 1 else get t j := by
  unfold bump
  by_cases hmem : k ∈ t
  · rw [if_pos hmem]
    by_cases hjk : j = k
    · subst hjk
      have hlookup : (t.replace j (get t j + 1)).lookup j = some (get t j + 1) := dlookup_kreplace_self hmem _
      rw [if_pos rfl, get, hlookup, Option.getD_some]
    · have hlookup : (t.replace k (get t k + 1)).lookup j = t.lookup j := dlookup_kreplace_ne hjk t.entries _
      rw [if_neg hjk, get, hlookup, get]
  · rw [if_neg hmem]
    by_cases hjk : j = k
    · subst hjk
      rw [if_pos rfl, get, AList.lookup_insert, get, AList.lookup_eq_none.mpr hmem]
      rfl
    · rw [if_neg hjk, get, AList.lookup_insert_ne hjk, get]

theorem mem_bump (t : AList (fun _ : α => Nat)) (j k : α) : j ∈ bump t k ↔ j = k ∨ j ∈ t := by
  unfold bump
  by_cases hmem : k ∈ t
  · rw [if_pos hmem, AList.mem_replace]
    exact ⟨.inr, fun h => h.elim (fun hjk => hjk ▸ hmem) id⟩
  · rw [if_neg hmem, AList.mem_insert]

theorem mem_foldl_bump {t : AList (fun _ : α => Nat)} {keys : List α} {j : α} (h : j ∈ keys.foldl bump t) :
    j ∈ keys ∨ j ∈ t := by
  induction keys generalizing t with
  | nil => exact .inr h
  | cons k keys ih =>
    rcases ih h with hlater | hnow
    · exact .inl (List.mem_cons_of_mem k hlater)
    · rcases (mem_bump t j k).mp hnow with rfl | hbefore
      · exact .inl List.mem_cons_self
      · exact .inr hbefore

/-- Each key has the number of its occurrences. -/
def Counts (t : AList (fun _ : α => Nat)) (keys : List α) : Prop := ∀ k, get t k = keys.count k

theorem Counts.empty : Counts (∅ : AList (fun _ : α => Nat)) [] := fun _ => rfl

theorem Counts.bump {t : AList (fun _ : α => Nat)} {keys : List α} (h : Counts t keys) (k : α) :
    Counts (bump t k) (k :: keys) := by
  intro j
  rw [get_bump]
  by_cases hjk : j = k
  · subst hjk
    rw [if_pos rfl, h j, List.count_cons_self]
  · rw [if_neg hjk, List.count_cons_of_ne (Ne.symm hjk)]
    exact h j

theorem Counts.foldl_bump {t : AList (fun _ : α => Nat)} {keys : List α} (h : Counts t keys) (more : List α) :
    Counts (more.foldl Tally.bump t) (more.reverse ++ keys) := by
  induction more generalizing t keys with
  | nil => exact h
  | cons k more ih =>
    rw [List.foldl_cons, List.reverse_cons, List.append_assoc]
    exact ih (h.bump k)

theorem sum_ite_eq {ks : List α} (hnodup : ks.Nodup) {a : α} (ha : a ∈ ks) (n : Nat) :
    (ks.map fun k => if a = k then n else 0).sum = n := by
  induction ks with
  | nil => cases ha
  | cons k ks ih =>
    obtain ⟨hk, hnodup⟩ := List.nodup_cons.mp hnodup
    rw [List.map_cons, List.sum_cons]
    by_cases hak : a = k
    · subst hak
      have hrest : ks.map (fun k => if a = k then n else 0) = ks.map fun _ => 0 := by
        apply List.map_congr_left
        intro k hmem
        apply if_neg
        rintro rfl
        exact hk hmem
      rw [hrest]
      simp
    · have hmem : a ∈ ks := (List.mem_cons.mp ha).resolve_left hak
      rw [if_neg hak, ih hnodup hmem, Nat.zero_add]

/-- The sums of the groups by key are the sum of all. -/
theorem sum_groups (key : β → α) (weight : β → Nat) {ks : List α} (hnodup : ks.Nodup) {l : List β}
    (hcover : ∀ b ∈ l, key b ∈ ks) :
    (ks.map fun k => ((l.filter fun b => key b = k).map weight).sum).sum = (l.map weight).sum := by
  induction l with
  | nil => simp
  | cons b l ih =>
    obtain ⟨hb, hcover⟩ := List.forall_mem_cons.mp hcover
    have hgroup (k : α) : (((b :: l).filter fun b => key b = k).map weight).sum =
        (if key b = k then weight b else 0) + ((l.filter fun b => key b = k).map weight).sum := by
      by_cases hk : key b = k <;> simp [hk]
    simp only [hgroup]
    rw [List.sum_map_add, sum_ite_eq hnodup hb, ih hcover, List.map_cons, List.sum_cons]

theorem sum_countP_groups (key : β → α) {ks : List α} (hnodup : ks.Nodup) {l : List β}
    (hcover : ∀ b ∈ l, key b ∈ ks) : (ks.map fun k => l.countP fun b => key b = k).sum = l.length := by
  have hsum := sum_groups key (fun _ => 1) hnodup hcover
  simpa [List.countP_eq_length_filter, Nat.cast_id] using hsum

/-- What a tally has of its own keys. -/
theorem map_entries (t : AList (fun _ : α => Nat)) : t.entries.map (fun e => (e.1, e.2)) =
    t.keys.map fun k => (k, get t k) := by
  unfold AList.keys List.keys
  rw [List.map_map]
  apply List.map_congr_left
  intro e he
  have hlookup : t.lookup e.1 = some e.2 := AList.mem_lookup_iff.mpr he
  rw [Function.comp_apply, get, hlookup, Option.getD_some]

theorem Counts.mem_keys {t : AList (fun _ : α => Nat)} {keys : List α} (h : Counts t keys) {k : α} (hk : k ∈ keys) :
    k ∈ t.keys := by
  rw [← AList.mem_keys]
  by_contra hnone
  have hzero := h k
  rw [get, AList.lookup_eq_none.mpr hnone, Option.getD_none] at hzero
  exact absurd (List.count_pos_iff.mpr hk) (by omega)

theorem sum_filter_eq (weight : α → Nat) (keys : List α) (k : α) :
    ((keys.filter fun a => a = k).map weight).sum = weight k * keys.count k := by
  have hconst : (keys.filter fun a => a = k).map weight = (keys.filter fun a => a = k).map fun _ => weight k := by
    apply List.map_congr_left
    intro a ha
    rw [of_decide_eq_true (List.mem_filter.mp ha).2]
  have hcount : (keys.filter fun a => a = k).length = keys.count k := by
    rw [List.count, List.countP_eq_length_filter]
    rfl
  rw [hconst, List.map_const', List.sum_replicate_nat, hcount, Nat.mul_comm]

/-- The sum over the table is that over what was counted. -/
theorem Counts.sum_mul {t : AList (fun _ : α => Nat)} {keys : List α} (h : Counts t keys) (weight : α → Nat) :
    (t.entries.map fun e => weight e.1 * e.2).sum = (keys.map weight).sum := by
  have hmap : t.entries.map (fun e => weight e.1 * e.2) =
      t.keys.map fun k => ((keys.filter fun a => a = k).map weight).sum := by
    have hentries := congrArg (List.map fun e : α × Nat => weight e.1 * e.2) (map_entries t)
    rw [List.map_map, List.map_map] at hentries
    refine hentries.trans (List.map_congr_left fun k _ => ?_)
    rw [sum_filter_eq, ← h k]
    rfl
  rw [hmap]
  exact sum_groups id weight t.keys_nodup fun k hk => h.mem_keys hk

theorem Counts.sum {t : AList (fun _ : α => Nat)} {keys : List α} (h : Counts t keys) :
    (t.entries.map Sigma.snd).sum = keys.length := by
  have hsum := h.sum_mul fun _ => 1
  simpa [Nat.cast_id] using hsum

end Tally
