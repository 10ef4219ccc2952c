import Mathlib.Data.List.Basic

/-!
# The first occurrences in a list

`eraseDups` keeps of equal elements the first. The order of two elements is then the order of
their first occurrences, and only elements that were not there before are appended to the result.
-/
namespace FirstOccurrences

variable {α : Type} [DecidableEq α]

theorem nodup_eraseDups (l : List α) : l.eraseDups.Nodup := by
  induction hn : l.length using Nat.strongRecOn generalizing l with
  | ind n ih =>
    cases l with
    | nil => simp
    | cons a l =>
      have hshort := List.length_filter_le (fun b => !b == a) l
      rw [List.eraseDups_cons, List.nodup_cons]
      refine ⟨by simp, ih _ ?_ _ rfl⟩
      rw [← hn, List.length_cons]
      omega

theorem eraseDups_of_nodup {l : List α} (h : l.Nodup) : l.eraseDups = l := by
  induction l with
  | nil => rfl
  | cons a l ih =>
    obtain ⟨ha, hl⟩ := List.nodup_cons.mp h
    have hkept : l.filter (fun b => !b == a) = l := by
      rw [List.filter_eq_self]
      intro b hb
      simpa using fun he : b = a => ha (he ▸ hb)
    rw [List.eraseDups_cons, hkept, ih hl]

/-- What is there already is not appended again. -/
theorem eraseDups_append_of_subset {l m : List α} (h : ∀ a ∈ m, a ∈ l) : (l ++ m).eraseDups = l.eraseDups := by
  have hnone : m.removeAll l = [] := by
    rw [List.eq_nil_iff_forall_not_mem]
    intro a ha
    obtain ⟨hm, hl⟩ := List.mem_filter.mp ha
    simp [h a hm] at hl
  rw [List.eraseDups_append, hnone, List.eraseDups_nil, List.append_nil]

/-- A second time changes nothing. -/
theorem eraseDups_append_again (l m : List α) : ((l ++ m).eraseDups ++ m).eraseDups = (l ++ m).eraseDups := by
  rw [eraseDups_append_of_subset (by simp +contextual), eraseDups_of_nodup (nodup_eraseDups _)]

/-- Elements that are kept keep their order. -/
theorem idxOf_filter_lt {p : α → Bool} {a b : α} (ha : p a = true) (hb : p b = true) (l : List α) :
    (l.filter p).idxOf a < (l.filter p).idxOf b ↔ l.idxOf a < l.idxOf b := by
  induction l with
  | nil => simp
  | cons c l ih =>
    by_cases hc : p c = true
    · rw [List.filter_cons_of_pos hc]
      by_cases hca : c = a <;> by_cases hcb : c = b
      · subst hca hcb
        simp
      · subst hca
        simp [List.idxOf_cons_ne _ hcb]
      · subst hcb
        simp
      · rw [List.idxOf_cons_ne _ hca, List.idxOf_cons_ne _ hcb, List.idxOf_cons_ne _ hca,
          List.idxOf_cons_ne _ hcb, Nat.succ_lt_succ_iff, Nat.succ_lt_succ_iff, ih]
    · have hca : c ≠ a := fun he => hc (he ▸ ha)
      have hcb : c ≠ b := fun he => hc (he ▸ hb)
      rw [List.filter_cons_of_neg hc, ih, List.idxOf_cons_ne _ hca, List.idxOf_cons_ne _ hcb, Nat.succ_lt_succ_iff]

/-- The elements stand in the order of their first occurrences. -/
theorem idxOf_eraseDups_lt (l : List α) (a b : α) :
    l.eraseDups.idxOf a < l.eraseDups.idxOf b ↔ l.idxOf a < l.idxOf b := by
  induction hn : l.length using Nat.strongRecOn generalizing l with
  | ind n ih =>
    cases l with
    | nil => simp
    | cons c l =>
      have hshort := List.length_filter_le (fun d => !d == c) l
      rw [List.eraseDups_cons]
      by_cases hca : c = a <;> by_cases hcb : c = b
      · subst hca hcb
        simp
      · subst hca
        simp [List.idxOf_cons_ne _ hcb]
      · subst hcb
        simp
      · have hkept := idxOf_filter_lt (p := fun d => !d == c) (a := a) (b := b) (by simpa using Ne.symm hca)
          (by simpa using Ne.symm hcb) l
        rw [List.idxOf_cons_ne _ hca, List.idxOf_cons_ne _ hcb, List.idxOf_cons_ne _ hca, List.idxOf_cons_ne _ hcb,
          Nat.succ_lt_succ_iff, Nat.succ_lt_succ_iff, ih _ ?_ _ rfl, hkept]
        rw [← hn, List.length_cons]
        omega

/-- Appending elements that are new, each once, and removing them again. -/
theorem filter_eraseDups_append {l m : List α} (hl : l.Nodup) (hdisjoint : ∀ a ∈ m, a ∉ l) :
    (l ++ m).eraseDups.filter (· ∉ m) = l := by
  have hkept : l.filter (· ∉ m) = l := by
    rw [List.filter_eq_self]
    intro a ha
    simpa using fun hm => hdisjoint a hm ha
  have hgone : (m.removeAll l).eraseDups.filter (· ∉ m) = [] := by
    rw [List.filter_eq_nil_iff]
    intro a ha
    have hm := (List.mem_filter.mp (List.mem_eraseDups.mp ha)).1
    simpa using hm
  rw [List.eraseDups_append, List.filter_append, eraseDups_of_nodup hl, hkept, hgone, List.append_nil]

end FirstOccurrences
