import AutopinPlus.SensorSelectors

/-!
# Ranges of all widths

The check that a value fits its range compares it with a power of two, made by a shift of one machine word. It
is right for all ranges of fewer bits than the word has. For the whole word the shift is by 64, which does not
give 2^64 on any machine.
-/
namespace AutopinPlus

namespace Sensor

open QString BitFields

variable {D : Type}

namespace RangeSelector

/-- The event that has this selector alone. -/
structure Alone (h : SensorHost D) (input : String) (s : RangeSelector) : Prop where
  sysfs : startsWith input "/" = true
  type : ∃ text, ∃ n : Numeral, h.file (h.absolutePath input ++ "/../type") = some text ∧
    firstLine text = String.ofList n.text
  event : ∃ text, h.file input = some text ∧ firstLine text = String.ofList s.chars

/-- The condition under which the check is exact: the range is not the whole word, or the value is below what the
machine makes of a shift by 64. -/
def Checked (h : SensorHost D) (s : RangeSelector) : Prop :=
  s.bits.width < 64 ∨ s.bits.value < h.wideShift 1 64

variable {h : SensorHost D} {input : String} {s : RangeSelector}

theorem shiftLeft_count_full (h : SensorHost D) (hwidth : ¬ s.bits.width < 64) :
    h.shiftLeft 1 s.count = h.wideShift 1 64 := by
  have hordered := s.bits.ordered
  have hinside := s.bits.inside
  have hcount := s.toNat_count
  have hfull : s.count = 64 := by
    apply BitVec.eq_of_toNat_eq
    rw [hcount]
    rw [Field.width] at hwidth ⊢
    change s.bits.upper - s.bits.lower + 1 = 64
    omega
  rw [SensorHost.shiftLeft, hcount, if_neg hwidth, hfull]

/-- The comparison with the bound is the one with the power of two exactly under the condition. -/
theorem check_exact_iff (h : SensorHost D) (s : RangeSelector) :
    (h.shiftLeft 1 s.count ≤ s.bits.value ↔ 2 ^ s.bits.width ≤ s.bits.value.toNat) ↔ s.Checked h := by
  by_cases hwidth : s.bits.width < 64
  · rw [BitVec.le_def, shiftLeft_count h hwidth]
    simp [Checked, hwidth]
  · have hle : 64 ≤ s.bits.width := Nat.not_lt.mp hwidth
    have hpow : 2 ^ 64 ≤ 2 ^ s.bits.width := Nat.pow_le_pow_right (by decide) hle
    have hlt := s.bits.value.isLt
    have hfits : ¬ 2 ^ s.bits.width ≤ s.bits.value.toNat := by omega
    rw [shiftLeft_count_full h hwidth, Checked, BitVec.le_def, BitVec.lt_def]
    simp only [hfits, hwidth, iff_false, false_or, Nat.not_le]

/-- Whatever a shift by 64 gives, the whole word cannot take its largest value. -/
theorem not_checked_max (h : SensorHost D) (hwidth : s.bits.width = 64) (hmax : s.bits.value.toNat = 2 ^ 64 - 1) :
    ¬ s.Checked h := by
  rintro (hlt | hlt)
  · omega
  · have hword := (h.wideShift 1 64).isLt
    rw [BitVec.lt_def] at hlt
    omega

theorem applySelector_error_iff (hd : s.Described h input) (name : String) (attr : PerfEventAttr) :
    (∃ what, applySelector h name input attr (String.ofList s.chars) = .error what) ↔
      h.shiftLeft 1 s.count ≤ s.bits.value := by
  rw [applySelector_eq hd]
  by_cases hcheck : h.shiftLeft 1 s.count ≤ s.bits.value
  · rw [if_pos hcheck]
    exact ⟨fun _ => hcheck, fun _ => ⟨_, rfl⟩⟩
  · rw [if_neg hcheck]
    constructor
    · rintro ⟨what, hwhat⟩
      cases hwhat
    · exact fun hle => absurd hle hcheck

theorem readSensor_alone [One D] (hs : s.Alone h input) (name : String) (calls : Nat) :
    ∃ attr, readSensor h name (calls + 1) input =
      some ((applySelector h name input attr (String.ofList s.chars)).map (sysfsSensor h input)) := by
  obtain ⟨typeText, n, htypeFile, htype⟩ := hs.type
  obtain ⟨eventText, heventFile, hevent⟩ := hs.event
  have htypeLine : Tools.readLine h.toSysfs (h.absolutePath input ++ "/../type") = .ok (String.ofList n.text) := by
    rw [readLine_ok htypeFile, htype]
  have heventLine : Tools.readLine h.toSysfs input = .ok (String.ofList s.chars) := by
    rw [readLine_ok heventFile, hevent]
  refine ⟨PerfEventAttr.initial.assign .type n.word, ?_⟩
  rw [readSensor_sysfs h name hs.sysfs]
  simp only [readSysfs, htypeLine, heventLine, ok_bind, n.readULong_eq, splitAll_single s.not_mem_chars]
  rw [List.foldlM_cons]
  cases applySelector h name input (PerfEventAttr.initial.assign .type n.word) (String.ofList s.chars) with
  | error what => rfl
  | ok attr => rfl

theorem readSensor_error_iff [One D] (hd : s.Described h input) (hs : s.Alone h input) (name : String) (calls : Nat) :
    (∃ what, readSensor h name (calls + 1) input = some (.error what)) ↔ h.shiftLeft 1 s.count ≤ s.bits.value := by
  obtain ⟨attr, hread⟩ := readSensor_alone hs name calls
  rw [← applySelector_error_iff hd name attr, hread]
  cases applySelector h name input attr (String.ofList s.chars) with
  | error what => simp [Except.map]
  | ok attr => simp [Except.map]

/-- A selector of any range within the word is rejected exactly if its value is not below 2 to the number of bits
just where the range has fewer than 64 bits or the value is below what the machine makes of a shift by 64: in the
pass of the loop, whatever the attributes are by then, and for the event of the selector alone. -/
theorem fit_check_iff [One D] (h : SensorHost D) (name input : String) (s : RangeSelector)
    (hd : s.Described h input) :
    (∀ attr, ((∃ what, applySelector h name input attr (String.ofList s.chars) = .error what) ↔
      2 ^ (s.bits.upper - s.bits.lower + 1) ≤ s.bits.value.toNat) ↔ s.Checked h) ∧
    (s.Alone h input → ∀ calls, ((∃ what, readSensor h name (calls + 1) input = some (.error what)) ↔
      2 ^ (s.bits.upper - s.bits.lower + 1) ≤ s.bits.value.toNat) ↔ s.Checked h) := by
  have hexact := s.check_exact_iff h
  constructor
  · intro attr
    rw [applySelector_error_iff hd]
    exact hexact
  · intro hs calls
    rw [readSensor_error_iff hd hs]
    exact hexact

/-- A machine that counts shifts modulo 64, and two events for all bits of `config1`. -/
def loadHost : SensorHost Nat where
  nprocs := 1
  file path :=
    [("/cpu/events/three", "ldlat=3\n"), ("/cpu/events/zero", "ldlat=0\n"), ("/cpu/events/../type", "4\n"),
     ("/cpu/events/../format/ldlat", "config1:0-63\n")].lookup path
  absolutePath _ := "/cpu/events"
  toDouble _ := none
  wideShift value count := value <<< (count.toNat % 64)

theorem zero_numeral : CNumeral ['0'] 0 := .octal (by decide)

def zero : Numeral := ⟨['0'], 0, zero_numeral, Nat.two_pow_pos 64⟩

def loadSelector (value : Numeral) : RangeSelector where
  name := ['l', 'd', 'l', 'a', 't']
  value := some value
  word := .config1
  lower := zero
  upper := some ⟨['6', '3'], 63, .decimal (by decide) (by decide), by decide⟩
  name_ok := by decide
  ordered := by decide
  inside := by decide

def three : Numeral := ⟨['3'], 3, .decimal (by decide) (by decide), by decide⟩

theorem load_described (value : Numeral) (input : String) : (loadSelector value).Described loadHost input := by
  have hfile : loadHost.file "/cpu/events/../format/ldlat" = some "config1:0-63\n" := by decide +kernel
  have hline : firstLine "config1:0-63\n" = "config1:0-63" := by decide +kernel
  exact ⟨"config1:0-63\n", hfile, hline⟩

theorem load_type : ∃ text, ∃ n : Numeral, loadHost.file "/cpu/events/../type" = some text ∧
    firstLine text = String.ofList n.text :=
  ⟨"4\n", ⟨['4'], 4, .decimal (by decide) (by decide), by decide⟩, by decide +kernel, by decide +kernel⟩

theorem zero_alone : (loadSelector zero).Alone loadHost "/cpu/events/zero" :=
  ⟨by decide, load_type, "ldlat=0\n", by decide +kernel, by decide +kernel⟩

theorem three_alone : (loadSelector three).Alone loadHost "/cpu/events/three" :=
  ⟨by decide, load_type, "ldlat=3\n", by decide +kernel, by decide +kernel⟩

/-- The value 0 is accepted for the whole word. -/
theorem zero_accepted : ¬ ∃ what, readSensor loadHost "gperf" 1 "/cpu/events/zero" = some (.error what) := by
  have hchecked : (loadSelector zero).Checked loadHost := .inr (by decide)
  have hexact := ((fit_check_iff loadHost "gperf" "/cpu/events/zero" (loadSelector zero) (load_described ..)).2
    zero_alone 0).mpr hchecked
  rw [hexact]
  decide

/-- The value 3 is rejected for the whole word, which could hold it. -/
theorem three_rejected :
    (∃ what, readSensor loadHost "gperf" 1 "/cpu/events/three" = some (.error what)) ∧ ¬ 2 ^ (63 - 0 + 1) ≤ 3 ∧
      (loadSelector three).bits.lower = 0 ∧ (loadSelector three).bits.upper = 63 ∧
      (loadSelector three).bits.value = 3 := by
  refine ⟨?_, by decide, rfl, rfl, rfl⟩
  rw [readSensor_error_iff (load_described ..) three_alone]
  decide

end RangeSelector

end Sensor

end AutopinPlus
