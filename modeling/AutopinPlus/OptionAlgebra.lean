import AutopinPlus.ConfigurationLines
import AutopinPlus.FirstOccurrences

/-!
# The algebra of `+=` and `-=`

Adding values to an option appends what is new, and removing values filters them out. Both can be
done twice with the same result, and removing undoes adding where nothing was there before.
-/
namespace AutopinPlus

namespace StandardConfiguration

open FirstOccurrences

variable (c : StandardConfiguration) (o : String) {values : List String}

theorem addOption_own (hne : values ≠ []) :
    (addOption (o, values) c).getConfigOptionList o = (c.getConfigOptionList o ++ values).eraseDups := by
  have hown := execute_own ⟨.add, o, values⟩ c
  rwa [Statement.apply, if_neg (by simpa using hne)] at hown

theorem delOption_own (hne : values ≠ []) :
    (delOption (o, values) c).getConfigOptionList o = (c.getConfigOptionList o).filter (· ∉ values) := by
  have hown := execute_own ⟨.del, o, values⟩ c
  rwa [Statement.apply, if_neg (by simpa using hne)] at hown

theorem addOption_addOption (values : List String) :
    addOption (o, values) (addOption (o, values) c) = addOption (o, values) c := by
  by_cases h : values.isEmpty = true
  · simp [addOption, h]
  · simp [addOption, h, removeDuplicates, eraseDups_append_again]

theorem delOption_of_lookup {c : StandardConfiguration} {o : String} {old : List String} (hne : values ≠ [])
    (hl : c.options.lookup o = some old) :
    delOption (o, values) c = { c with options := c.options.insert o (old.filter (· ∉ values)) } := by
  rw [delOption, if_neg (by simpa using hne)]
  simp only [hl]
  rw [foldl_filter_ne]

theorem delOption_delOption (values : List String) :
    delOption (o, values) (delOption (o, values) c) = delOption (o, values) c := by
  by_cases h : values = []
  · simp [delOption, h]
  · cases hl : c.options.lookup o with
    | none => simp [delOption, hl]
    | some old =>
      rw [delOption_of_lookup h hl, delOption_of_lookup h (AList.lookup_insert _), AList.insert_insert,
        List.filter_filter]
      simp

/-- The laws of `addOption` and `delOption`, for the list of an option and any values. -/
theorem addOption_delOption_laws (hne : values ≠ []) :
    let list := c.getConfigOptionList o
    let added := (addOption (o, values) c).getConfigOptionList o
    let deleted := (delOption (o, values) c).getConfigOptionList o
    (added.Nodup ∧ (∀ v, v ∈ added ↔ v ∈ list ∨ v ∈ values) ∧
      ∀ v w, added.idxOf v < added.idxOf w ↔ (list ++ values).idxOf v < (list ++ values).idxOf w) ∧
    addOption (o, values) (addOption (o, values) c) = addOption (o, values) c ∧
    delOption (o, values) (delOption (o, values) c) = delOption (o, values) c ∧
    ((∀ v ∈ values, v ∉ deleted) ∧ deleted.Sublist list ∧ ∀ v, v ∉ values → deleted.count v = list.count v) ∧
    (list.Nodup → (∀ v ∈ values, v ∉ list) →
      (delOption (o, values) (addOption (o, values) c)).getConfigOptionList o = list) := by
  intro list added deleted
  have hadded : added = (list ++ values).eraseDups := addOption_own c o hne
  have hdeleted : deleted = list.filter (· ∉ values) := delOption_own c o hne
  refine ⟨⟨?_, ?_, ?_⟩, addOption_addOption c o values, delOption_delOption c o values, ⟨?_, ?_, ?_⟩, ?_⟩
  · rw [hadded]
    exact nodup_eraseDups _
  · intro v
    rw [hadded, List.mem_eraseDups, List.mem_append]
  · intro v w
    rw [hadded, idxOf_eraseDups_lt]
  · intro v hv
    simp [hdeleted, hv]
  · rw [hdeleted]
    exact List.filter_sublist
  · intro v hv
    rw [hdeleted, List.count_filter (by simpa using hv)]
  · intro hnodup hdisjoint
    rw [delOption_own _ _ hne, addOption_own c o hne]
    exact filter_eraseDups_append hnodup hdisjoint

/-- `opt = b a b`, then `opt += c b c`, or `opt -= c b c`. -/
theorem addOption_delOption_laws_overlap :
    let c : StandardConfiguration := { options := AList.insert "opt" ["b", "a", "b"] ∅ }
    (addOption ("opt", ["c", "b", "c"]) c).getConfigOptionList "opt" = ["b", "a", "c"] ∧
      (delOption ("opt", ["c", "b", "c"]) c).getConfigOptionList "opt" = ["a"] ∧
      ((addOption ("opt", ["c", "b", "c"]) c).getConfigOptionList "opt").Nodup := by
  intro c
  have hne : ["c", "b", "c"] ≠ [] := by decide
  exact ⟨by decide, by decide, (addOption_delOption_laws c "opt" hne).1.1⟩

end StandardConfiguration

end AutopinPlus
