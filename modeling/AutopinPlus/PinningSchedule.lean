import AutopinPlus.ConfigurationTexts
import AutopinPlus.SysFiles
import AutopinPlus.WatchdogRun

/-!
# Schedules of pinnings

`autopin1.schedule` holds pinnings separated by blanks, each of them cores separated by colons. A schedule
that is written down so is read as it was meant.
-/
namespace AutopinPlus

namespace Autopin1

open StandardConfiguration (OptionLine LineEnd)

/-- Pinnings of at least one core each, and at least one of them. -/
structure Schedule where
  pinnings : List (List Nat)
  nonempty : pinnings ≠ []
  cores : ∀ pinning ∈ pinnings, pinning ≠ []
  fits : ∀ pinning ∈ pinnings, ∀ cpu ∈ pinning, cpu < 2 ^ 31

/-- `3:0:12`. -/
def writePinning (pinning : List Nat) : List Char := [':'].intercalate (pinning.map SysText.number)

theorem mem_writePinning {pinning : List Nat} {c : Char} (hc : c ∈ writePinning pinning) :
    c.isDigit = true ∨ c = ':' := by
  rcases ListWords.mem_intercalate hc with rfl | ⟨w, hw, hc⟩
  · exact .inr rfl
  · obtain ⟨n, _, rfl⟩ := List.mem_map.mp hw
    exact .inl (SysText.isDigit_of_mem_number hc)

theorem not_mem_writePinning (pinning : List Nat) {c : Char} (hdigit : c.isDigit = false) (hc : c ≠ ':') :
    c ∉ writePinning pinning := by
  intro h
  rcases mem_writePinning h with hd | he
  · rw [hd] at hdigit
    cases hdigit
  · exact hc he

theorem writePinning_ne_nil {pinning : List Nat} (h : pinning ≠ []) : writePinning pinning ≠ [] := by
  obtain ⟨cpu, pinning, rfl⟩ := List.exists_cons_of_ne_nil h
  have hnumber : SysText.number cpu ≠ [] := Nat.toDigits_ne_nil
  cases pinning with
  | nil => simpa [writePinning] using hnumber
  | cons next pinning => simp [writePinning, List.intercalate_cons_cons]

namespace Schedule

/-- `autopin1.schedule = 0:1 2:3`. -/
def line (s : Schedule) : OptionLine where
  name := "autopin1.schedule".toList
  op := .set
  values := s.pinnings.map writePinning
  trimmed := by decide
  noComment := by decide
  noOperator := by decide
  hasValues := by simpa using s.nonempty
  wellFormed := by
    intro v hv
    obtain ⟨pinning, hpinning, rfl⟩ := List.mem_map.mp hv
    exact ⟨writePinning_ne_nil (s.cores pinning hpinning), not_mem_writePinning pinning (by decide) (by decide)⟩

/-- A pinning has no character of an operator. -/
theorem line_unambiguous (s : Schedule) : s.line.Unambiguous := by
  have hoperator : ∀ (op : StandardConfiguration.Operator) (pinning : List Nat),
      ¬ op.text <:+: writePinning pinning := by
    intro op pinning h
    have hmem : '=' ∈ op.text := by simp [StandardConfiguration.Operator.text]
    exact not_mem_writePinning pinning (by decide) (by decide) (h.subset hmem)
  intro v hv
  obtain ⟨pinning, _, rfl⟩ := List.mem_map.mp hv
  exact ⟨hoperator .add pinning, hoperator .del pinning⟩

theorem not_mem_line (s : Schedule) {c : Char} (hname : c ∉ "autopin1.schedule = ".toList) (hdigit : c.isDigit = false)
    (hcolon : c ≠ ':') : c ∉ s.line.text := by
  have hright : c ∉ s.line.right := by
    intro h
    rcases ListWords.mem_intercalate h with rfl | ⟨w, hw, h⟩
    · exact hname (by decide)
    · obtain ⟨pinning, _, rfl⟩ := List.mem_map.mp hw
      exact not_mem_writePinning pinning hdigit hcolon h
  have htext : s.line.text = "autopin1.schedule = ".toList ++ s.line.right := rfl
  rw [htext, List.mem_append, not_or]
  exact ⟨hname, hright⟩

end Schedule

/-! ## What is read -/

theorem readPinning_writePinning {pinning : List Nat} (hfits : ∀ cpu ∈ pinning, cpu < 2 ^ 31) :
    readPinning (String.ofList (writePinning pinning)) = some (pinning.map Int.ofNat) := by
  have hsplit : QString.split ':' (writePinning pinning) = pinning.map SysText.number := by
    rw [QString.split_eq_words]
    apply ListWords.words_intercalate
    · intro w hw
      obtain ⟨n, _, rfl⟩ := List.mem_map.mp hw
      exact Nat.toDigits_ne_nil
    · intro w hw
      obtain ⟨n, _, rfl⟩ := List.mem_map.mp hw
      exact SysText.not_mem_number (by decide) n
  rw [readPinning, String.toList_ofList, hsplit]
  clear hsplit
  induction pinning with
  | nil => rfl
  | cons cpu pinning ih =>
    have hcpu : QString.toInt (String.ofList (SysText.number cpu)) = some (cpu : Int) := by
      have h := QString.toInt_number (hfits cpu List.mem_cons_self) (w := []) (by simp)
      rwa [List.append_nil] at h
    rw [List.map_cons, List.mapM_cons, ih (fun c hc => hfits c (List.mem_cons_of_mem cpu hc)), hcpu,
      Option.filter_some, if_pos (by simp)]
    rfl

theorem readEntries_writePinning {pinnings : List (List Nat)} (hfits : ∀ p ∈ pinnings, ∀ cpu ∈ p, cpu < 2 ^ 31) :
    readEntries ((pinnings.map writePinning).map String.ofList) = (pinnings.map fun p => p.map Int.ofNat, none) := by
  induction pinnings with
  | nil => rfl
  | cons pinning pinnings ih =>
    obtain ⟨hpinning, hrest⟩ := List.forall_mem_cons.mp hfits
    simp only [List.map_cons, readEntries, readPinning_writePinning hpinning, ih hrest]

/-- A schedule is read as it was written, without a report. -/
theorem readPinnings_schedule (s : Schedule) (e : LineEnd) (context : AutopinContext) (b : Boot) :
    (StandardConfiguration.ofText (String.ofList (s.line.text ++ e.text)) context).context = context ∧
    readPinnings (StandardConfiguration.ofText (String.ofList (s.line.text ++ e.text)) context) "autopin1.schedule" b =
      (s.pinnings.map fun pinning => pinning.map Int.ofNat, b) := by
  have hfeed : '\n' ∉ s.line.text := s.not_mem_line (by decide) (by decide) (by decide)
  have hreturn : '\r' ∉ s.line.text := s.not_mem_line (by decide) (by decide) (by decide)
  rw [StandardConfiguration.ofText_line s.line_unambiguous hfeed hreturn e context]
  refine ⟨StandardConfiguration.execute_context _ _, ?_⟩
  have hname : s.line.meant.name = "autopin1.schedule" := String.ofList_toList
  have hset : s.line.meant.values.isEmpty = false := by
    simpa [OptionLine.meant] using s.line.hasValues
  have hvalues : (s.line.meant.execute { context := context }).getConfigOptionList "autopin1.schedule" =
      (s.pinnings.map writePinning).map String.ofList := by
    rw [← hname, StandardConfiguration.execute_own, StandardConfiguration.Statement.apply, hset,
      if_neg Bool.false_ne_true]
    rfl
  have hexists : ¬ (s.line.meant.execute { context := context }).configOptionExists "autopin1.schedule" = 0 := by
    rw [StandardConfiguration.configOptionExists, hvalues]
    simpa using s.nonempty
  simp only [readPinnings, if_neg hexists, hvalues, readEntries_writePinning s.fits]

/-- Two threads on the cores 3 and 0, then one on core 12. -/
def twoThenOne : Schedule where
  pinnings := [[3, 0], [12]]
  nonempty := by decide
  cores := by decide
  fits := by decide

theorem readPinnings_schedule_twoThenOne :
    (StandardConfiguration.ofText "autopin1.schedule = 3:0 12\n" {}).context = {} ∧
      readPinnings (StandardConfiguration.ofText "autopin1.schedule = 3:0 12\n" {}) "autopin1.schedule" {} =
        ([[3, 0], [12]], {}) :=
  have htext : String.ofList (twoThenOne.line.text ++ LineEnd.lineFeed.text) = "autopin1.schedule = 3:0 12\n" := by
    decide
  htext ▸ readPinnings_schedule twoThenOne .lineFeed {} {}

end Autopin1

end AutopinPlus
