import AutopinPlus.WatchdogReady

/-!
# The names of the monitors

`createPerformanceMonitors` makes one monitor of every entry that has one type it supports, and
reports every other entry as a fatal error. An entry is never found among those before it.
-/
namespace AutopinPlus

namespace Watchdog

variable {config : StandardConfiguration}

/-- The option names one type, and this is supported. -/
def TypeOf (config : StandardConfiguration) (name : String) (type : MonitorType) : Prop :=
  ∃ text, config.getConfigOptionList (name ++ ".type") = [text] ∧ MonitorType.ofName text = some type

/-- The monitor an entry asks for. -/
def MonitorOf (config : StandardConfiguration) (name : String) (m : MonitorObject) : Prop :=
  ∃ type, TypeOf config name type ∧ m = .create name type

/-- One monitor for each entry, in the order of the entries, and no name twice. -/
structure OnePerEntry (config : StandardConfiguration) (monitors : List MonitorObject) : Prop where
  entries : List.Forall₂ (MonitorOf config) (config.getConfigOptionList "PerformanceMonitors") monitors
  distinct : (monitors.map MonitorObject.name).Nodup

theorem createMonitor_typed {name : String} {type : MonitorType} (h : TypeOf config name type)
    (ms : List MonitorObject) (b : Boot) : createMonitor config (ms, b) name = (ms ++ [.create name type], b) := by
  obtain ⟨text, hlist, hname⟩ := h
  have hcount : config.configOptionExists (name ++ ".type") = 1 := by
    rw [StandardConfiguration.configOptionExists, hlist, List.length_singleton]
  have hvalue : config.getConfigOption (name ++ ".type") = text := by
    rw [StandardConfiguration.getConfigOption, hlist]
    rfl
  simp [createMonitor, hcount, hvalue, hname]

/-- An entry without a type, with several or with an unknown one. -/
theorem createMonitor_untyped {name : String} (h : ∀ type, ¬ TypeOf config name type)
    (ms : List MonitorObject) (b : Boot) : (createMonitor config (ms, b) name).2.isError = true := by
  by_cases hnone : config.configOptionExists (name ++ ".type") = 0
  · simp only [createMonitor, hnone, if_true]
    split <;> simp [setsError]
  · by_cases hmany : 1 < config.configOptionExists (name ++ ".type")
    · simp only [createMonitor, hnone, hmany, if_true, if_false]
      split <;> simp [setsError]
    · have hone : (config.getConfigOptionList (name ++ ".type")).length = 1 := by
        unfold StandardConfiguration.configOptionExists at hnone hmany
        omega
      obtain ⟨text, hlist⟩ := List.length_eq_one_iff.mp hone
      have hvalue : config.getConfigOption (name ++ ".type") = text := by
        rw [StandardConfiguration.getConfigOption, hlist]
        rfl
      cases htype : MonitorType.ofName text with
      | none => simp [createMonitor, hvalue, htype, setsError]
      | some type => exact absurd ⟨text, hlist, htype⟩ (h type)

/-- Entries that all have a type are created one after the other, and nothing is reported. -/
theorem createMonitors_typed {names : List String} (h : ∀ name ∈ names, ∃ type, TypeOf config name type)
    (ms : List MonitorObject) (b : Boot) :
    ∃ created, names.foldl (createMonitor config) (ms, b) = (ms ++ created, b) ∧
      List.Forall₂ (MonitorOf config) names created := by
  induction names generalizing ms with
  | nil => exact ⟨[], by simp, .nil⟩
  | cons name names ih =>
    obtain ⟨type, htype⟩ := h name List.mem_cons_self
    obtain ⟨created, hrun, hcreated⟩ :=
      ih (fun n hn => h n (List.mem_cons_of_mem name hn)) (ms ++ [.create name type])
    refine ⟨.create name type :: created, ?_, .cons ⟨type, htype, rfl⟩ hcreated⟩
    rw [List.foldl_cons, createMonitor_typed htype, hrun, List.append_assoc, List.singleton_append]

theorem createMonitors_untyped {names : List String} {name : String} (hmem : name ∈ names)
    (h : ∀ type, ¬ TypeOf config name type) (ms : List MonitorObject) (b : Boot) :
    (names.foldl (createMonitor config) (ms, b)).2.isError = true := by
  obtain ⟨before, behind, rfl⟩ := List.append_of_mem hmem
  rw [List.foldl_append, List.foldl_cons]
  exact createMonitors_keeps config behind _ _ (createMonitor_untyped h _ _)

theorem map_name_of_entries {names : List String} {monitors : List MonitorObject}
    (h : List.Forall₂ (MonitorOf config) names monitors) : monitors.map MonitorObject.name = names := by
  induction h with
  | nil => rfl
  | @cons name m names monitors hm _ ih =>
    obtain ⟨type, -, rfl⟩ := hm
    rw [List.map_cons, (MonitorObject.create_identity name type).1, ih]

/-- Monitors that were created without a fatal report have distinct names exactly if the entries are
distinct, or an entry has not one supported type, which is reported. -/
theorem monitors_onePerEntry_iff (config : StandardConfiguration) :
    ((createPerformanceMonitors config {}).2.isError = false →
      OnePerEntry config (createPerformanceMonitors config {}).1) ↔
    (config.getConfigOptionList "PerformanceMonitors").Nodup ∨
      ∃ name ∈ config.getConfigOptionList "PerformanceMonitors", ∀ type, ¬ TypeOf config name type := by
  unfold createPerformanceMonitors
  cases hlist : config.getConfigOptionList "PerformanceMonitors" with
  | nil => simp [setsError]
  | cons first rest =>
    simp only [List.isEmpty_cons, Bool.false_eq_true, if_false]
    by_cases htyped : ∀ name ∈ first :: rest, ∃ type, TypeOf config name type
    · obtain ⟨created, hrun, hcreated⟩ := createMonitors_typed htyped [] {}
      have hnames := map_name_of_entries hcreated
      have hok : Boot.isError {} = false := rfl
      rw [hrun, List.nil_append]
      constructor
      · intro h
        have hone := h hok
        rw [← hnames]
        exact .inl hone.distinct
      · rintro (hnodup | ⟨name, hmem, hnone⟩) _
        · refine ⟨?_, ?_⟩
          · rw [hlist]
            exact hcreated
          · rw [hnames]
            exact hnodup
        · obtain ⟨type, htype⟩ := htyped name hmem
          exact absurd htype (hnone type)
    · have huntyped : ∃ name ∈ first :: rest, ∀ type, ¬ TypeOf config name type := by
        simpa only [not_forall, not_exists, exists_prop] using htyped
      obtain ⟨name, hmem, hnone⟩ := huntyped
      constructor
      · exact fun _ => .inr ⟨name, hmem, hnone⟩
      · intro _ hok
        rw [createMonitors_untyped hmem hnone] at hok
        cases hok

/-- `PerformanceMonitors = r r`, and `r` is a random monitor. -/
theorem monitors_of_one_name :
    let config := StandardConfiguration.ofText "PerformanceMonitors = r r\nr.type = random\n" {}
    (createPerformanceMonitors config {}).2.isError = false ∧
      (createPerformanceMonitors config {}).1 = [.create "r" .random, .create "r" .random] ∧
      ¬ OnePerEntry config (createPerformanceMonitors config {}).1 := by
  intro config
  have hcreated : (createPerformanceMonitors config {}).1 = [.create "r" .random, .create "r" .random] := by
    decide +kernel
  refine ⟨by decide +kernel, hcreated, ?_⟩
  intro h
  have hnodup := h.distinct
  rw [hcreated] at hnodup
  revert hnodup
  decide

end Watchdog

end AutopinPlus
