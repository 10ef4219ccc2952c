import AutopinPlus.BitFields
import AutopinPlus.ListWords
import AutopinPlus.Sensor

/-!
# Selectors of a sysfs event

An event is a list of selectors, and the format directory tells the bits of each. The loop that
shifts the values into the three words packs the fields that the format describes.
-/
namespace AutopinPlus

namespace Sensor

open QString BitFields

variable {D : Type}

/-- The words a format entry can name. -/
inductive ConfigWord where
  | config | config1 | config2
  deriving DecidableEq, Repr

namespace ConfigWord

def text : ConfigWord → List Char
  | config => ['c', 'o', 'n', 'f', 'i', 'g']
  | config1 => ['c', 'o', 'n', 'f', 'i', 'g', '1']
  | config2 => ['c', 'o', 'n', 'f', 'i', 'g', '2']

def field : ConfigWord → PerfField
  | config => .config
  | config1 => .config1
  | config2 => .config2

theorem storage_eq_iff (v w : ConfigWord) : v.field.storage = w.field.storage ↔ v = w := by
  cases v <;> cases w <;> decide

theorem width_field (w : ConfigWord) : w.field.width = 64 := by cases w <;> rfl

end ConfigWord

/-- A selector `name=value`, or `name` for the value 1, and the entry `word:lower-upper` or `word:bit` of
the format directory. -/
structure RangeSelector where
  name : List Char
  value : Option Numeral
  word : ConfigWord
  lower : Numeral
  upper : Option Numeral
  name_ok : '=' ∉ name ∧ ',' ∉ name
  ordered : lower.value ≤ (upper.getD lower).value
  inside : (upper.getD lower).value < 64

namespace RangeSelector

def last (s : RangeSelector) : Numeral := s.upper.getD s.lower

def valueText (s : RangeSelector) : List Char := s.value.elim ['1'] Numeral.text

def chars (s : RangeSelector) : List Char := s.name ++ s.value.elim [] fun v => '=' :: v.text

def position (s : RangeSelector) : List Char := s.lower.text ++ s.upper.elim [] fun u => '-' :: u.text

def format (s : RangeSelector) : List Char := s.word.text ++ ':' :: s.position

/-- The bits and the value for them. -/
def bits (s : RangeSelector) : Field 64 where
  lower := s.lower.value
  upper := s.last.value
  value := s.value.elim 1 Numeral.word
  ordered := s.ordered
  inside := s.inside

/-- The number of bits as the source computes it, in machine words. -/
def count (s : RangeSelector) : BitVec 64 := s.last.word - s.lower.word + 1

end RangeSelector

/-- A selector with a bit to spare in its word. -/
structure Selector extends RangeSelector where
  narrow : (upper.getD lower).value - lower.value + 1 < 64

/-- No bit of a word belongs to both. -/
def Selector.Apart (s t : Selector) : Prop := s.word = t.word → s.bits.Apart t.bits

/-- The files of an event with these selectors. -/
structure Describes (h : SensorHost D) (input : String) (ss : List Selector) : Prop where
  sysfs : startsWith input "/" = true
  type : ∃ text, ∃ n : Numeral, h.file (h.absolutePath input ++ "/../type") = some text ∧
    firstLine text = String.ofList n.text
  event : ∃ text, h.file input = some text ∧
    firstLine text = String.ofList ([','].intercalate (ss.map fun s => s.chars))
  format : ∀ s ∈ ss, ∃ text,
    h.file (h.absolutePath input ++ "/../format/" ++ String.ofList s.name) = some text ∧
      firstLine text = String.ofList s.format

theorem readLine_ok {fs : Sysfs} {path text : String} (h : fs.file path = some text) :
    Tools.readLine fs path = .ok (firstLine text) := by
  rw [Tools.readLine, h]

theorem orElse_error {α : Type} {x : Except String α} {what : String} (h : x = .error what) (fallback : α) :
    orElse x fallback = fallback := by
  rw [h]
  rfl

/-! ## One selector -/

namespace RangeSelector

theorem readPair_selector (s : RangeSelector) :
    orElse (Tools.readPair (String.ofList s.chars) '=') (String.ofList s.chars, "1") =
      (String.ofList s.name, String.ofList s.valueText) := by
  unfold chars valueText
  cases s.value with
  | none =>
    simp only [Option.elim_none, List.append_nil]
    obtain ⟨what, hwhat⟩ := Tools.readPair_error s.name_ok.1
    rw [orElse_error hwhat]
  | some v =>
    simp only [Option.elim_some]
    rw [Tools.readPair_ok s.name_ok.1 (v.not_mem (by decide))]
    rfl

theorem readULong_value (s : RangeSelector) : Tools.readULong (String.ofList s.valueText) = .ok s.bits.value := by
  unfold valueText bits
  cases s.value with
  | none =>
    have hone : CNumeral ['1'] 1 := .decimal (by decide) (by decide)
    exact hone.readULong_eq (by decide)
  | some v => exact v.readULong_eq

theorem not_mem_position (s : RangeSelector) : ':' ∉ s.position := by
  unfold position
  cases s.upper with
  | none => simpa using s.lower.not_mem (by decide)
  | some u => simp [s.lower.not_mem (c := ':') (by decide), u.not_mem (c := ':') (by decide)]

theorem readPair_format (s : RangeSelector) :
    Tools.readPair (String.ofList s.format) ':' = .ok (String.ofList s.word.text, String.ofList s.position) :=
  Tools.readPair_ok (by cases s.word <;> decide) s.not_mem_position

theorem readPair_position (s : RangeSelector) :
    orElse (Tools.readPair (String.ofList s.position) '-') (String.ofList s.position, String.ofList s.position) =
      (String.ofList s.lower.text, String.ofList s.last.text) := by
  unfold position last
  cases s.upper with
  | none =>
    simp only [Option.elim_none, List.append_nil, Option.getD_none]
    obtain ⟨what, hwhat⟩ := Tools.readPair_error (s.lower.not_mem (c := '-') (by decide))
    rw [orElse_error hwhat]
  | some u =>
    simp only [Option.elim_some, Option.getD_some]
    rw [Tools.readPair_ok (s.lower.not_mem (by decide)) (u.not_mem (by decide))]
    rfl

theorem lookup_word (s : RangeSelector) : configFields.lookup (String.ofList s.word.text) = some s.word.field := by
  cases s.word <;> decide +kernel

theorem not_mem_chars (s : RangeSelector) : ',' ∉ s.chars := by
  unfold chars
  cases s.value with
  | none => simpa using s.name_ok.2
  | some v => simp [s.name_ok.2, v.not_mem (c := ',') (by decide)]

theorem toNat_count (s : RangeSelector) : s.count.toNat = s.bits.width := by
  have hordered := s.bits.ordered
  have hinside := s.bits.inside
  have hlower : s.lower.word.toNat = s.bits.lower := s.lower.toNat_word
  have hupper : s.last.word.toNat = s.bits.upper := s.last.toNat_word
  have hone : (1 : BitVec 64).toNat = 1 := rfl
  rw [count, BitVec.toNat_add, BitVec.toNat_sub, hlower, hupper, hone, Field.width]
  omega

/-- The bound of the source is the power of two for all but the widest range. -/
theorem shiftLeft_count (h : SensorHost D) {s : RangeSelector} (hwidth : s.bits.width < 64) :
    (h.shiftLeft 1 s.count).toNat = 2 ^ s.bits.width := by
  have hpow : 2 ^ s.bits.width < 2 ^ 64 := Nat.pow_lt_pow_right (by decide) hwidth
  rw [SensorHost.shiftLeft, s.toNat_count, if_pos hwidth, BitVec.toNat_shiftLeft, Nat.shiftLeft_eq]
  change 1 * 2 ^ s.bits.width % 2 ^ 64 = 2 ^ s.bits.width
  rw [Nat.one_mul, Nat.mod_eq_of_lt hpow]

theorem shiftLeft_value (h : SensorHost D) (s : RangeSelector) :
    h.shiftLeft s.bits.value s.lower.word = s.bits.value <<< s.bits.lower := by
  have hordered := s.bits.ordered
  have hinside := s.bits.inside
  have hlower : s.lower.word.toNat = s.bits.lower := s.lower.toNat_word
  rw [SensorHost.shiftLeft, hlower, if_pos (by omega)]

/-- The entry of the format directory tells the range. -/
def Described (h : SensorHost D) (input : String) (s : RangeSelector) : Prop :=
  ∃ text, h.file (h.absolutePath input ++ "/../format/" ++ String.ofList s.name) = some text ∧
    firstLine text = String.ofList s.format

/-- The pass of the loop, once its texts are read. -/
theorem applySelector_eq {h : SensorHost D} {input : String} {s : RangeSelector} (hd : s.Described h input)
    (name : String) (attr : PerfEventAttr) :
    applySelector h name input attr (String.ofList s.chars) =
      if h.shiftLeft 1 s.count ≤ s.bits.value then
        .error (failed name input ++ " failed: Could not fit " ++ toString s.bits.value.toNat ++ " in " ++
          toString s.count.toNat ++ " bits.")
      else .ok (attr.assign s.word.field (attr.get s.word.field ||| s.bits.value <<< s.bits.lower)) := by
  obtain ⟨text, hfile, htext⟩ := hd
  have hline : Tools.readLine h.toSysfs (h.absolutePath input ++ "/../format/" ++ String.ofList s.name) =
      .ok (String.ofList s.format) := by
    rw [readLine_ok hfile, htext]
  simp only [applySelector, s.readPair_selector, s.readULong_value, hline, s.readPair_format, s.readPair_position,
    Numeral.readULong_eq, ok_bind, s.lookup_word, s.shiftLeft_value]
  rfl

end RangeSelector

namespace Selector

/-- What a selector that fits makes of the attributes. -/
def apply (attr : PerfEventAttr) (s : Selector) : PerfEventAttr :=
  attr.assign s.word.field (attr.get s.word.field ||| s.bits.value <<< s.bits.lower)

variable {h : SensorHost D} {input : String} {ss : List Selector}

/-- The check of the source is that the value fits. -/
theorem shiftLeft_le_iff (h : SensorHost D) (s : Selector) :
    h.shiftLeft 1 s.count ≤ s.bits.value ↔ ¬ s.bits.Fits := by
  have hshift := RangeSelector.shiftLeft_count h (s := s.toRangeSelector) s.narrow
  rw [BitVec.le_def, hshift, Field.Fits, Nat.not_lt]

theorem applySelector_eq (hd : Describes h input ss) {s : Selector} (hs : s ∈ ss) (name : String)
    (attr : PerfEventAttr) :
    (s.bits.Fits → applySelector h name input attr (String.ofList s.chars) = .ok (s.apply attr)) ∧
      (¬ s.bits.Fits → ∃ what, applySelector h name input attr (String.ofList s.chars) = .error what) := by
  have heq := RangeSelector.applySelector_eq (s := s.toRangeSelector) (hd.format s hs) name attr
  constructor
  · intro hfits
    have hcheck := mt (s.shiftLeft_le_iff h).mp (not_not.mpr hfits)
    exact heq.trans (if_neg hcheck)
  · intro hfits
    have hcheck := (s.shiftLeft_le_iff h).mpr hfits
    exact ⟨_, heq.trans (if_pos hcheck)⟩

/-- A selector changes its own word only. -/
theorem get_apply (attr : PerfEventAttr) (s : Selector) (w : ConfigWord) :
    (s.apply attr).get w.field =
      if s.word = w then attr.get w.field ||| s.bits.value <<< s.bits.lower else attr.get w.field := by
  rw [apply, PerfEventAttr.get_assign, PerfField.cut_wide w.width_field]
  by_cases hw : s.word = w
  · rw [if_pos hw, hw, if_pos rfl]
  · have hstorage : ¬ w.field.storage = s.word.field.storage := by
      rw [ConfigWord.storage_eq_iff]
      exact Ne.symm hw
    rw [if_neg hw, if_neg hstorage]

/-- The fields of one word. -/
def fieldsOf (ss : List Selector) (w : ConfigWord) : List (Field 64) :=
  (ss.filter fun s => s.word = w).map fun s => s.bits

/-- The loop packs the fields of every word. -/
theorem get_foldl_apply (ss : List Selector) (attr : PerfEventAttr) (w : ConfigWord) :
    (ss.foldl apply attr).get w.field = pack (fieldsOf ss w) (attr.get w.field) := by
  induction ss generalizing attr with
  | nil => rfl
  | cons s ss ih =>
    rw [List.foldl_cons, ih, get_apply, fieldsOf, fieldsOf]
    by_cases hw : s.word = w
    · rw [if_pos hw, List.filter_cons_of_pos (by simpa using hw)]
      rfl
    · rw [if_neg hw, List.filter_cons_of_neg (by simpa using hw)]

theorem pairwise_fieldsOf {ss : List Selector} (hapart : ss.Pairwise Apart) (w : ConfigWord) :
    (fieldsOf ss w).Pairwise Field.Apart := by
  rw [fieldsOf, List.pairwise_map, List.pairwise_filter]
  refine hapart.imp ?_
  intro s t hst hs ht
  simp only [decide_eq_true_eq] at hs ht
  exact hst (hs.trans ht.symm)

theorem mem_fieldsOf {ss : List Selector} {w : ConfigWord} {f : Field 64} :
    f ∈ fieldsOf ss w ↔ ∃ s ∈ ss, s.word = w ∧ s.bits = f := by
  simp [fieldsOf, and_assoc]

end Selector

/-! ## The event -/

open Selector

variable {h : SensorHost D} {input : String} {ss : List Selector}

theorem readSysfs_eq [One D] (hne : ss ≠ []) (hd : Describes h input ss) (name : String) :
    ∃ type, readSysfs h name input =
      (ss.foldlM (fun attr s => applySelector h name input attr (String.ofList s.chars))
        (PerfEventAttr.initial.assign .type type)).map (sysfsSensor h input) := by
  obtain ⟨typeText, n, htypeFile, htype⟩ := hd.type
  obtain ⟨eventText, heventFile, hevent⟩ := hd.event
  have htypeLine : Tools.readLine h.toSysfs (h.absolutePath input ++ "/../type") = .ok (String.ofList n.text) := by
    rw [readLine_ok htypeFile, htype]
  have heventLine : Tools.readLine h.toSysfs input =
      .ok (String.ofList ([','].intercalate (ss.map fun s => s.chars))) := by
    rw [readLine_ok heventFile, hevent]
  have hparts : ∀ part ∈ ss.map fun s => s.chars, ',' ∉ part := by
    intro part hpart
    obtain ⟨s, -, rfl⟩ := List.mem_map.mp hpart
    exact s.not_mem_chars
  have hmap : ∀ result : Except String PerfEventAttr,
      (result >>= fun attr => .ok (sysfsSensor h input attr)) = result.map (sysfsSensor h input) := by
    intro result
    cases result <;> rfl
  refine ⟨n.word, ?_⟩
  simp only [readSysfs, htypeLine, heventLine, ok_bind, n.readULong_eq]
  rw [splitAll_join (by simpa using hne) hparts, List.map_map, List.foldlM_map]
  exact hmap _

/-- Selectors that all fit are packed. -/
theorem readSysfs_ok [One D] (hne : ss ≠ []) (hd : Describes h input ss) (name : String)
    (hfits : ∀ s ∈ ss, s.bits.Fits) :
    ∃ sensor, readSysfs h name input = .ok sensor ∧
      ∀ w : ConfigWord, sensor.attr.get w.field = pack (fieldsOf ss w) 0 := by
  obtain ⟨type, heq⟩ := readSysfs_eq hne hd name
  rw [foldlM_ok (fun s hs attr => (applySelector_eq hd hs name attr).1 (hfits s hs))] at heq
  refine ⟨_, heq, ?_⟩
  intro w
  have hzero : (PerfEventAttr.initial.assign .type type).get w.field = 0 := by
    cases w <;> simp [ConfigWord.field, PerfEventAttr.get_initial, PerfField.storage]
  have hpack := get_foldl_apply ss (PerfEventAttr.initial.assign .type type) w
  rwa [hzero] at hpack

theorem readSysfs_error [One D] (hne : ss ≠ []) (hd : Describes h input ss) (name : String) {s : Selector}
    (hs : s ∈ ss) (hfits : ¬ s.bits.Fits) : ∃ what, readSysfs h name input = .error what := by
  obtain ⟨type, heq⟩ := readSysfs_eq hne hd name
  have hloop : ∃ what, ss.foldlM (fun attr s => applySelector h name input attr (String.ofList s.chars))
      (PerfEventAttr.initial.assign .type type) = .error what := by
    apply foldlM_error hs
    intro attr
    exact (applySelector_eq hd hs name attr).2 hfits
  obtain ⟨what, hwhat⟩ := hloop
  rw [hwhat] at heq
  exact ⟨what, heq⟩

/-- The words of a sensor hold the values of the selectors in their bits, and no other bit. -/
structure Packed (ss : List Selector) (sensor : Sensor D) : Prop where
  extract : ∀ s ∈ ss,
    ((sensor.attr.get s.word.field).extractLsb' s.bits.lower s.bits.width).toNat = s.bits.value.toNat
  outside : ∀ (w : ConfigWord) (i : Nat), (∀ s ∈ ss, s.word = w → ¬ (s.bits.lower ≤ i ∧ i ≤ s.bits.upper)) →
    (sensor.attr.get w.field).getLsbD i = false

theorem packed_of_words {sensor : Sensor D} (hapart : ss.Pairwise Selector.Apart) (hfits : ∀ s ∈ ss, s.bits.Fits)
    (hwords : ∀ w : ConfigWord, sensor.attr.get w.field = pack (fieldsOf ss w) 0) : Packed ss sensor := by
  have hfields : ∀ w, ∀ f ∈ fieldsOf ss w, f.Fits := by
    intro w f hf
    obtain ⟨s, hs, -, rfl⟩ := mem_fieldsOf.mp hf
    exact hfits s hs
  constructor
  · intro s hs
    rw [hwords]
    exact extract_pack (hfields s.word) (pairwise_fieldsOf hapart s.word) (mem_fieldsOf.mpr ⟨s, hs, rfl, rfl⟩)
  · intro w i hout
    rw [hwords]
    apply pack_outside (hfields w)
    intro f hf
    obtain ⟨s, hs, hw, rfl⟩ := mem_fieldsOf.mp hf
    exact hout s hs hw

/-- An event is accepted exactly if every value fits its bits. Then its words hold the values and nothing
else, and they are those of every event with the same selectors in another order. -/
theorem selectors_packed [One D] (name : String) (calls : Nat) (hne : ss ≠ []) (hd : Describes h input ss)
    (hapart : ss.Pairwise Selector.Apart) :
    ((∃ sensor, readSensor h name (calls + 1) input = some (.ok sensor)) ↔ ∀ s ∈ ss, s.bits.Fits) ∧
    ∀ sensor, readSensor h name (calls + 1) input = some (.ok sensor) →
      Packed ss sensor ∧
      ∀ (h' : SensorHost D) (input' : String) (ss' : List Selector) (sensor' : Sensor D), ss'.Perm ss →
        Describes h' input' ss' → readSensor h' name (calls + 1) input' = some (.ok sensor') →
        ∀ w : ConfigWord, sensor'.attr.get w.field = sensor.attr.get w.field := by
  have hwords : ∀ (h : SensorHost D) (input : String) (ss : List Selector) (sensor : Sensor D), ss ≠ [] →
      Describes h input ss → readSensor h name (calls + 1) input = some (.ok sensor) →
      (∀ s ∈ ss, s.bits.Fits) ∧ ∀ w : ConfigWord, sensor.attr.get w.field = pack (fieldsOf ss w) 0 := by
    intro h input ss sensor hne hd hsensor
    rw [readSensor_sysfs h name hd.sysfs, Option.some.injEq] at hsensor
    have hfits : ∀ s ∈ ss, s.bits.Fits := by
      intro s hs
      by_contra hn
      obtain ⟨what, hwhat⟩ := readSysfs_error hne hd name hs hn
      rw [hwhat] at hsensor
      cases hsensor
    obtain ⟨packed, hpacked, hw⟩ := readSysfs_ok hne hd name hfits
    rw [hpacked, Except.ok.injEq] at hsensor
    subst hsensor
    exact ⟨hfits, hw⟩
  refine ⟨⟨?_, ?_⟩, ?_⟩
  · rintro ⟨sensor, hsensor⟩
    exact (hwords h input ss sensor hne hd hsensor).1
  · intro hfits
    obtain ⟨sensor, hsensor, -⟩ := readSysfs_ok hne hd name hfits
    exact ⟨sensor, by rw [readSensor_sysfs h name hd.sysfs, hsensor]⟩
  · intro sensor hsensor
    obtain ⟨hfits, hw⟩ := hwords h input ss sensor hne hd hsensor
    refine ⟨packed_of_words hapart hfits hw, ?_⟩
    intro h' input' ss' sensor' hperm hd' hsensor' w
    have hne' : ss' ≠ [] := by
      rintro rfl
      exact hne hperm.symm.eq_nil
    rw [hw, (hwords h' input' ss' sensor' hne' hd' hsensor').2]
    exact pack_perm ((hperm.filter _).map _) 0

/-- `event=0x3c` in the bits 0 to 7, and `inv` in bit 23. -/
def cycleSelectors : List Selector :=
  [{ name := ['e', 'v', 'e', 'n', 't']
     value := some ⟨['0', 'x', '3', 'c'], 60, .hexadecimal (.inl rfl) (by decide), by decide⟩
     word := .config
     lower := ⟨['0'], 0, .octal (by decide), by decide⟩
     upper := some ⟨['7'], 7, .decimal (by decide) (by decide), by decide⟩
     name_ok := by decide, ordered := by decide, inside := by decide, narrow := by decide },
   { name := ['i', 'n', 'v']
     value := none
     word := .config
     lower := ⟨['2', '3'], 23, .decimal (by decide) (by decide), by decide⟩
     upper := none
     name_ok := by decide, ordered := by decide, inside := by decide, narrow := by decide }]

def cycleHost : SensorHost Nat where
  nprocs := 1
  file path :=
    [("/cpu/events/cycles", "event=0x3c,inv\n"), ("/cpu/events/../type", "4\n"),
     ("/cpu/events/../format/event", "config:0-7\n"), ("/cpu/events/../format/inv", "config:23\n")].lookup path
  absolutePath _ := "/cpu/events"
  toDouble _ := none
  wideShift _ _ := 1

theorem cycleHost_describes : Describes cycleHost "/cpu/events/cycles" cycleSelectors where
  sysfs := by decide
  type := ⟨"4\n", ⟨['4'], 4, .decimal (by decide) (by decide), by decide⟩, by decide +kernel, by decide +kernel⟩
  event := ⟨"event=0x3c,inv\n", by decide +kernel, by decide +kernel⟩
  format := by
    rw [cycleSelectors, List.forall_mem_cons, List.forall_mem_singleton]
    exact ⟨⟨"config:0-7\n", by decide +kernel, by decide +kernel⟩,
      ⟨"config:23\n", by decide +kernel, by decide +kernel⟩⟩

theorem selectors_packed_cycles :
    ∃ sensor, readSensor cycleHost "gperf" 1 "/cpu/events/cycles" = some (.ok sensor) ∧
      Packed cycleSelectors sensor := by
  have hapart : cycleSelectors.Pairwise Selector.Apart := by
    unfold cycleSelectors Selector.Apart
    decide
  have hpacked := selectors_packed "gperf" 0 (by decide) cycleHost_describes hapart
  obtain ⟨sensor, hsensor⟩ := hpacked.1.mpr (by decide)
  exact ⟨sensor, hsensor, (hpacked.2 sensor hsensor).1⟩

end Sensor

end AutopinPlus
