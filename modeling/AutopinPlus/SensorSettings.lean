import AutopinPlus.ListWords
import AutopinPlus.Sensor

/-!
# Attributes that are set by hand

A text `perf_event_attr/key1=value1,key2=value2` assigns one field after the other. Two keys are
compared with a text that is not the name of their field, and five fields are not compared at all.
-/
namespace AutopinPlus

namespace Sensor

open QString

variable {D : Type}

/-- A setting `key=value`. -/
structure Setting where
  field : PerfField
  value : Numeral

def Setting.chars (s : Setting) : List Char := s.field.name.toList ++ '=' :: s.value.text

def settingsText (ss : List Setting) : String :=
  "perf_event_attr/" ++ String.ofList ([','].intercalate (ss.map Setting.chars))

/-- The last value that is assigned to the storage of a field. -/
def lastAssigned (ss : List Setting) (f : PerfField) : Option (BitVec 64) :=
  (ss.filter fun s => s.field.storage = f.storage).getLast?.map (fun s => s.value.word)

/-- The value without an assignment. -/
def standard (f : PerfField) : BitVec 64 :=
  if f = .disabled then 1 else if f = .size then PerfEventAttr.sizeof else 0

/-- A sensor comes back, and every field has the value of its last assignment. -/
def Applied (ss : List Setting) (result : Option (Except String (Sensor D))) : Prop :=
  ∃ sensor, result = some (.ok sensor) ∧
    ∀ f, sensor.attr.get f = (lastAssigned ss f).elim (standard f) f.cut

/-- The fields that no key is compared with under their name. -/
def missed : List PerfField :=
  [.readFormat, .mmap2, .commExec, .useClockid, .clockid, .sampleRegsIntr, .auxWatermark]

/-! ## One setting -/

theorem keys_lookup (f : PerfField) : keys.lookup f.name = if f ∈ missed then none else some f := by
  cases f <;> decide +kernel

/-- No name holds a separator. -/
theorem not_mem_name (f : PerfField) : ∀ c ∈ ['=', ',', '/'], c ∉ f.name.toList := by
  cases f <;> decide +kernel

theorem Setting.not_mem_chars {c : Char} (hc : c = ',' ∨ c = '/') (s : Setting) : c ∉ s.chars := by
  have hname : c ∉ s.field.name.toList := not_mem_name s.field c (by simp [hc])
  have htext : c ∉ s.value.text := s.value.not_mem (by rcases hc with rfl | rfl <;> decide)
  have hsign : c ≠ '=' := by rcases hc with rfl | rfl <;> decide
  simp [Setting.chars, hname, htext, hsign]

theorem applySetting_eq (name input : String) (attr : PerfEventAttr) (s : Setting) :
    applySetting name input attr (String.ofList s.chars) =
      if s.field ∈ missed then .error (notSupported name input s.field.name)
      else .ok (attr.assign s.field s.value.word) := by
  have hpair : Tools.readPair (String.ofList s.chars) '=' = .ok (s.field.name, String.ofList s.value.text) := by
    rw [Setting.chars, Tools.readPair_ok (not_mem_name s.field '=' (by simp)) (s.value.not_mem (by decide)),
      String.ofList_toList]
  simp only [applySetting, hpair, s.value.readULong_eq, ok_bind, keys_lookup]
  by_cases hm : s.field ∈ missed
  · simp only [hm, if_true]
  · simp only [hm, if_false]

/-! ## All settings -/

theorem readPair_settings (ss : List Setting) :
    Tools.readPair (settingsText ss) '/' =
      .ok ("perf_event_attr", String.ofList ([','].intercalate (ss.map Setting.chars))) := by
  have hrest : '/' ∉ [','].intercalate (ss.map Setting.chars) := by
    intro h
    rcases ListWords.mem_intercalate h with h | ⟨part, hpart, h⟩
    · exact absurd h (by decide)
    · obtain ⟨s, -, rfl⟩ := List.mem_map.mp hpart
      exact s.not_mem_chars (.inr rfl) h
  have hslash : "perf_event_attr/".toList = "perf_event_attr".toList ++ ['/'] := by simp
  have htext : settingsText ss =
      String.ofList ("perf_event_attr".toList ++ '/' :: [','].intercalate (ss.map Setting.chars)) := by
    unfold settingsText
    rw [List.append_cons, ← hslash, String.ofList_append, String.ofList_toList]
  have hfirst : '/' ∉ "perf_event_attr".toList := by simp
  rw [htext, Tools.readPair_ok hfirst hrest, String.ofList_toList]

theorem splitAll_settings {ss : List Setting} (hne : ss ≠ []) :
    splitAll ',' (String.ofList ([','].intercalate (ss.map Setting.chars))) =
      ss.map fun s => String.ofList s.chars := by
  have hparts : ∀ part ∈ ss.map Setting.chars, ',' ∉ part := by
    intro part hpart
    obtain ⟨s, -, rfl⟩ := List.mem_map.mp hpart
    exact s.not_mem_chars (.inl rfl)
  rw [splitAll_join (by simpa using hne) hparts, List.map_map]
  rfl

variable [One D] (name : String) {ss : List Setting}

/-- Settings of fields that are compared are applied one after the other. -/
theorem readSettings_ok (hne : ss ≠ []) (h : ∀ s ∈ ss, s.field ∉ missed) :
    readSettings name (settingsText ss) = .ok { (ofInput (settingsText ss) : Sensor D) with
      attr := ss.foldl (fun attr s => attr.assign s.field s.value.word) .initial } := by
  have hloop : ((ss.map fun s => String.ofList s.chars).foldlM (applySetting name (settingsText ss))
      PerfEventAttr.initial) = .ok (ss.foldl (fun attr s => attr.assign s.field s.value.word) .initial) := by
    rw [List.foldlM_map]
    apply foldlM_ok
    intro s hs attr
    rw [applySetting_eq, if_neg (h s hs)]
  simp only [readSettings, readPair_settings, ok_bind, splitAll_settings hne, hloop]

theorem readSettings_error (hne : ss ≠ []) {s : Setting} (hs : s ∈ ss) (hm : s.field ∈ missed) :
    ∃ what, readSettings (D := D) name (settingsText ss) = .error what := by
  have hloop : ∃ what, (ss.map fun s => String.ofList s.chars).foldlM (applySetting name (settingsText ss))
      PerfEventAttr.initial = .error what := by
    rw [List.foldlM_map]
    apply foldlM_error hs
    intro attr
    rw [applySetting_eq, if_pos hm]
    exact ⟨_, rfl⟩
  obtain ⟨what, hwhat⟩ := hloop
  simp only [readSettings, readPair_settings, ok_bind, splitAll_settings hne, hwhat, error_bind]
  exact ⟨what, rfl⟩

/-- After assignments a field has the last value that is assigned to its storage. -/
theorem get_foldl_assign (ss : List Setting) (attr : PerfEventAttr) (f : PerfField) :
    (ss.foldl (fun attr s => attr.assign s.field s.value.word) attr).get f =
      (lastAssigned ss f).elim (attr.get f) f.cut := by
  induction ss using List.reverseRecOn with
  | nil => rfl
  | append_singleton ss s ih =>
    rw [List.foldl_append, List.foldl_cons, List.foldl_nil, PerfEventAttr.get_assign]
    by_cases hs : f.storage = s.field.storage
    · simp [lastAssigned, hs]
    · rw [if_neg hs, ih, lastAssigned, lastAssigned, List.filter_append]
      simp [Ne.symm hs]

/-- The settings are applied exactly if each is for a field that is compared under its name. -/
theorem settings_applied_iff (h : SensorHost D) (calls : Nat) (hne : ss ≠ []) :
    Applied ss (readSensor h name (calls + 1) (settingsText ss)) ↔ ∀ s ∈ ss, s.field ∉ missed := by
  have htext : startsWith (settingsText ss) "perf_event_attr/" = true := startsWith_append _ _
  rw [readSensor_settings h name htext]
  constructor
  · rintro ⟨sensor, hsensor, -⟩ s hs hm
    obtain ⟨what, hwhat⟩ := readSettings_error (D := D) name hne hs hm
    rw [hwhat] at hsensor
    cases hsensor
  · intro hall
    refine ⟨_, congrArg some (readSettings_ok name hne hall), ?_⟩
    intro f
    rw [get_foldl_assign, PerfEventAttr.get_initial]
    rfl

def rawEvent : List Setting :=
  [⟨.config, ⟨['0', 'x', '1', 'F'], 31, .hexadecimal (.inl rfl) (by decide), by decide⟩⟩,
   ⟨.sampleFreq, ⟨['0', '1', '7'], 15, .octal (by decide), by decide⟩⟩,
   ⟨.preciseIp, ⟨['6'], 6, .decimal (by decide) (by decide), by decide⟩⟩]

theorem settings_applied_rawEvent :
    settingsText rawEvent = "perf_event_attr/config=0x1F,sample_freq=017,precise_ip=6" ∧
      Applied rawEvent (readSensor emptyHost "gperf" 1 (settingsText rawEvent)) :=
  ⟨by decide +kernel, (settings_applied_iff "gperf" emptyHost 0 (by decide)).mpr (by decide)⟩

def readFormat : List Setting := [⟨.readFormat, ⟨['1'], 1, .decimal (by decide) (by decide), by decide⟩⟩]

theorem settings_readFormat :
    settingsText readFormat = "perf_event_attr/read_format=1" ∧
      ¬ Applied readFormat (readSensor emptyHost "gperf" 1 (settingsText readFormat)) := by
  refine ⟨by decide +kernel, ?_⟩
  rintro ⟨sensor, hsensor, -⟩
  have htext : startsWith (settingsText readFormat) "perf_event_attr/" = true := startsWith_append _ _
  have hne : readFormat ≠ [] := by decide
  obtain ⟨what, hwhat⟩ := readSettings_error (D := Nat) "gperf" hne List.mem_cons_self (by decide)
  rw [readSensor_settings emptyHost "gperf" htext, hwhat] at hsensor
  cases hsensor

end Sensor

end AutopinPlus
