import Mathlib.Data.Finset.Sort
import AutopinPlus.ListWords
import AutopinPlus.Sensor

/-!
# Lists of CPUs

`CpuInfo` counts through the ranges of a list with an `int`, and GPerf reads the numbers of a list one
by one. Both read what the kernel printed as long as no range stands in it; a range is counted through
by the first and makes the second give up its list.
-/
namespace AutopinPlus

namespace CpuInfo

open QString (splitAll toIntOrZero)

/-- The loop over a range, for at most `rounds` tests of its condition. Counting past the largest `int`
is undefined. -/
def countLoop : Nat → Int → Int → Option (List Int)
  | 0, _, _ => none
  | rounds + 1, value, stop =>
    if value ≤ stop then
      if value + 1 < 2 ^ 31 then (countLoop rounds (value + 1) stop).map (value :: ·) else none
    else some []

/-- One pass of the outer loop. -/
def appendRange (rounds : Nat) (result : List Int) (range : String) : Option (List Int) :=
  let values := splitAll '-' range
  if values.length = 2 then
    (countLoop rounds (toIntOrZero (values.getD 0 "")) (toIntOrZero (values.getD 1 ""))).map (result ++ ·)
  else some (result ++ [toIntOrZero (values.getD 0 "")])

/-- `parseSysRangeFile` with its loops. -/
def parseSysRangeFileLoop (rounds : Nat) (fs : Sysfs) (path : String) : Option (List Int) :=
  match fs.file path with
  | some text => (splitAll ',' text).foldlM (appendRange rounds) []
  | none => some []

theorem countLoop_eq {rounds : Nat} {value stop : Int} (hrounds : (stop + 1 - value).toNat < rounds)
    (hstop : value ≤ stop → stop + 1 < 2 ^ 31) : countLoop rounds value stop = some (valuesFrom value stop) := by
  induction rounds generalizing value with
  | zero => omega
  | succ rounds ih =>
    rw [countLoop]
    by_cases h : value ≤ stop
    · have hlt := hstop h
      rw [if_pos h, if_pos (by omega), ih (by omega) (fun _ => hlt), SysText.valuesFrom_cons h, Option.map_some]
    · have hnone : (stop + 1 - value).toNat = 0 := by omega
      rw [if_neg h, valuesFrom, hnone]
      rfl

theorem toIntOrZero_bounds (s : String) : -2 ^ 31 ≤ toIntOrZero s ∧ toIntOrZero s < 2 ^ 31 := by
  cases h : QString.toInt s with
  | none => simp [toIntOrZero, h]
  | some v =>
    have hrange : QString.inRange v = true := (Option.filter_eq_some_iff.mp h).2
    simp only [QString.inRange, Bool.and_eq_true, decide_eq_true_eq] at hrange
    simpa [toIntOrZero, h] using hrange

theorem mem_valuesFrom {start stop x : Int} : x ∈ valuesFrom start stop ↔ start ≤ x ∧ x ≤ stop := by
  simp only [valuesFrom, List.mem_map, List.mem_range]
  constructor
  · rintro ⟨k, hk, rfl⟩
    omega
  · rintro ⟨hstart, hstop⟩
    exact ⟨(x - start).toNat, by omega, by omega⟩

/-- A part whose numbers can be counted past. -/
theorem appendRange_eq {rounds : Nat} (hrounds : 2 ^ 32 < rounds) {range : String}
    (hrange : ∀ x ∈ parseRange range, x + 1 < 2 ^ 31) (result : List Int) :
    appendRange rounds result range = some (result ++ parseRange range) := by
  simp only [appendRange, parseRange] at hrange ⊢
  by_cases h : (splitAll '-' range).length = 2
  · simp only [h, if_true] at hrange ⊢
    have hstart := toIntOrZero_bounds ((splitAll '-' range).getD 0 "")
    have hstop := toIntOrZero_bounds ((splitAll '-' range).getD 1 "")
    rw [countLoop_eq (by omega), Option.map_some]
    intro hle
    exact hrange _ (mem_valuesFrom.mpr ⟨hle, Int.le_refl _⟩)
  · simp only [h, if_false]

theorem foldlM_appendRange {rounds : Nat} (hrounds : 2 ^ 32 < rounds) {ranges : List String}
    (h : ∀ x ∈ ranges.flatMap parseRange, x + 1 < 2 ^ 31) (result : List Int) :
    ranges.foldlM (appendRange rounds) result = some (result ++ ranges.flatMap parseRange) := by
  induction ranges generalizing result with
  | nil => simp
  | cons range ranges ih =>
    rw [List.flatMap_cons] at h ⊢
    have hfirst : ∀ x ∈ parseRange range, x + 1 < 2 ^ 31 := fun x hx => h x (List.mem_append_left _ hx)
    have hrest : ∀ x ∈ ranges.flatMap parseRange, x + 1 < 2 ^ 31 := fun x hx => h x (List.mem_append_right _ hx)
    rw [List.foldlM_cons, appendRange_eq hrounds hfirst, Option.bind_eq_bind, Option.bind_some, ih hrest,
      List.append_assoc]

/-- The loops come to an end on every file that lists numbers below the largest `int`. -/
theorem parseSysRangeFileLoop_eq {rounds : Nat} (hrounds : 2 ^ 32 < rounds) {fs : Sysfs} {path : String}
    (h : ∀ x ∈ parseSysRangeFile fs path, x + 1 < 2 ^ 31) :
    parseSysRangeFileLoop rounds fs path = some (parseSysRangeFile fs path) := by
  unfold parseSysRangeFileLoop parseSysRangeFile at *
  cases hfile : fs.file path with
  | none => rfl
  | some text =>
    simp only [hfile] at h ⊢
    rw [foldlM_appendRange hrounds h, List.nil_append]

/-- The file of a set. -/
def Lists (fs : Sysfs) (path : String) (S : Finset Nat) : Prop :=
  fs.file path = some (SysText.list (S.sort (· ≤ ·)))

variable {fs : Sysfs} {path : String} {S : Finset Nat}

/-- The members in ascending order are what is printed. -/
theorem lists_of_sorted {l : List Nat} (hS : S = l.toFinset) (hl : l.Pairwise (· < ·))
    (hfile : fs.file path = some (SysText.list l)) : Lists fs path S := by
  have hsort : S.sort (· ≤ ·) = l := by
    rw [hS, List.toFinset_sort _ (hl.imp Nat.ne_of_lt)]
    exact hl.imp Nat.le_of_lt
  rw [Lists, hsort, hfile]

theorem sort_ne_nil (hne : S.Nonempty) : S.sort (· ≤ ·) ≠ [] := by
  obtain ⟨a, ha⟩ := hne
  exact List.ne_nil_of_mem ((Finset.mem_sort _).mpr ha)

theorem parse_set (hne : S.Nonempty) (hlt : ∀ a ∈ S, a < 2 ^ 31) (hfile : Lists fs path S) :
    parseSysRangeFile fs path = (S.sort (· ≤ ·)).map Int.ofNat := by
  unfold Lists at hfile
  simp only [parseSysRangeFile, hfile]
  exact SysText.parse_list (sort_ne_nil hne) (fun a ha => hlt a ((Finset.mem_sort _).mp ha))

/-- The loops end, and the file is read as the elements of the set in ascending order, each once. -/
theorem parse_set_exact (hne : S.Nonempty) (hlt : ∀ a ∈ S, a < 2 ^ 31 - 1) (hfile : Lists fs path S) :
    (∀ rounds, 2 ^ 32 < rounds →
      parseSysRangeFileLoop rounds fs path = some (parseSysRangeFile fs path)) ∧
    (parseSysRangeFile fs path).Pairwise (· < ·) ∧
    ∀ x, x ∈ parseSysRangeFile fs path ↔ ∃ a ∈ S, x = (a : Int) := by
  have hparse := parse_set hne (fun a ha => Nat.lt_of_lt_of_le (hlt a ha) (Nat.sub_le _ _)) hfile
  have hmem : ∀ x, x ∈ parseSysRangeFile fs path ↔ ∃ a ∈ S, x = (a : Int) := by
    intro x
    rw [hparse, List.mem_map]
    simp only [Finset.mem_sort, Int.ofNat_eq_natCast, eq_comm]
  refine ⟨?_, ?_, hmem⟩
  · intro rounds hrounds
    apply parseSysRangeFileLoop_eq hrounds
    intro x hx
    obtain ⟨a, ha, rfl⟩ := (hmem x).mp hx
    have := hlt a ha
    omega
  · rw [hparse, List.pairwise_map]
    refine (Finset.sortedLT_sort S).pairwise.imp ?_
    intro a b hab
    exact Int.ofNat_lt.mpr hab

/-- `0-2,7`. -/
def someCpus : Sysfs where
  nprocs := 4
  file _ := some "0-2,7\n"

theorem someCpus_lists : Lists someCpus "online" {7, 0, 1, 2} :=
  lists_of_sorted (l := [0, 1, 2, 7]) (by decide) (by decide) (by decide +kernel)

theorem parse_set_exact_someCpus :
    (parseSysRangeFile someCpus "online").Pairwise (· < ·) ∧ 7 ∈ parseSysRangeFile someCpus "online" := by
  have h := parse_set_exact (by decide) (by decide) someCpus_lists
  exact ⟨h.2.1, (h.2.2 7).mpr ⟨7, by decide, rfl⟩⟩

end CpuInfo

/-! ## Numbers in any base -/

namespace QString

/-- The bases are told apart as in `toULong`. -/
theorem toIntAnyBase_eq (s : String) :
    toIntAnyBase s = ((digitsAnyBase (sign (trimmed s.toList)).2).map
      fun n : Nat => (sign (trimmed s.toList)).1 * (n : Int)).filter inRange := by
  unfold toIntAnyBase
  generalize sign (trimmed s.toList) = p
  obtain ⟨sgn, l⟩ := p
  have hcast : ∀ n : Option Nat, ((do let a ← n; pure (a : Int)).map fun m => sgn * m) =
      n.map fun m : Nat => sgn * (m : Int) := by
    rintro (_ | n) <;> rfl
  simp only [hcast]
  cases l with
  | nil => rfl
  | cons c l =>
    by_cases hc : c = '0'
    · subst hc
      cases l with
      | nil => rfl
      | cons d l =>
        by_cases hx : d = 'x'
        · subst hx
          rfl
        · by_cases hX : d = 'X'
          · subst hX
            rfl
          · simp [digitsAnyBase, hx, hX]
    · simp [digitsAnyBase, hc]

theorem toIntAnyBase_numeral {l : List Char} {n : Nat} (h : CNumeral l n) (hn : n < 2 ^ 31) :
    toIntAnyBase (String.ofList l) = some (n : Int) := by
  obtain ⟨hne, hchars⟩ := h.chars
  have hrange : inRange (1 * (n : Int)) = true := by
    simp only [inRange, Bool.and_eq_true, decide_eq_true_eq]
    omega
  rw [toIntAnyBase_eq, String.toList_ofList,
    trimmed_of_isSpace hne (fun c hc => CNumeral.isSpace_eq_false (hchars c hc)), CNumeral.sign_eq hchars,
    h.digitsAnyBase_eq, Option.map_some, Option.filter_some, if_pos hrange, Int.one_mul]

/-- No base has a digit for a dash. -/
theorem digitsAnyBase_dash {l : List Char} (h : '-' ∈ l) : digitsAnyBase l = none := by
  have hdigits : ∀ (base : Nat) (m : List Char), '-' ∈ m → digits base m = none := by
    intro base m hm
    cases hd : digits base m with
    | none => rfl
    | some n => exact absurd ((isNumeralChar_of_digits hd).2 '-' hm) (by decide)
  unfold digitsAnyBase
  split
  · split
    · next hzero hx =>
      apply hdigits
      cases l with
      | nil => cases h
      | cons c l =>
        cases l with
        | nil => simp at hx
        | cons d l =>
          simp only [List.head?_cons, Option.some.injEq, List.tail_cons] at hzero hx
          subst hzero
          rcases hx with rfl | rfl <;> simpa using h
    · exact hdigits _ _ h
  · exact hdigits _ _ h

end QString

namespace SysText

open QString

/-- A printed number has no leading zero. -/
theorem head?_number {n : Nat} (hn : n ≠ 0) : (number n).head? ≠ some '0' := by
  induction n using Nat.strongRecOn with
  | ind n ih =>
    rw [number, Nat.toDigits_eq_if (by decide)]
    split
    · next hlt =>
      have hdigit : ∀ d < 10, d ≠ 0 → Nat.digitChar d ≠ '0' := by decide
      simpa using hdigit n hlt hn
    · next hge =>
      rw [List.head?_append_of_ne_nil _ Nat.toDigits_ne_nil]
      exact ih (n / 10) (by omega) (by omega)

theorem cnumeral_number (n : Nat) : CNumeral (number n) n := by
  by_cases hn : n = 0
  · subst hn
    exact .octal (by decide)
  · exact .decimal (head?_number hn) (digits_ten_number n)

theorem readInt_number {n : Nat} (hn : n < 2 ^ 31) : Tools.readInt (String.ofList (number n)) = .ok (n : Int) := by
  rw [Tools.readInt, toIntAnyBase_numeral (cnumeral_number n) hn]

theorem isDigit_or_of_mem_range {r : Nat × Nat} {c : Char} (hc : c ∈ range r) : c.isDigit = true ∨ c = '-' := by
  rw [range] at hc
  split at hc
  · exact .inl (isDigit_of_mem_number hc)
  · rw [List.mem_append, List.mem_cons] at hc
    rcases hc with hc | hc | hc
    · exact .inl (isDigit_of_mem_number hc)
    · exact .inr hc
    · exact .inl (isDigit_of_mem_number hc)

/-- A range of several numbers is no number. -/
theorem readInt_range {r : Nat × Nat} (hr : r.1 ≠ r.2) :
    ∃ what, Tools.readInt (String.ofList (range r)) = .error what := by
  have hsplit : range r = number r.1 ++ '-' :: number r.2 := by rw [range, if_neg hr]
  have hspace : ∀ c ∈ range r, isSpace c = false := by
    intro c hc
    rcases isDigit_or_of_mem_range hc with hd | rfl
    · exact isSpace_of_isDigit hd
    · decide
  have hsign : sign (range r) = (1, range r) := by
    obtain ⟨c, l, hl⟩ := List.exists_cons_of_ne_nil (l := number r.1) Nat.toDigits_ne_nil
    have hc : c.isDigit = true := isDigit_of_mem_number (hl ▸ List.mem_cons_self)
    rw [hsplit, hl, List.cons_append]
    unfold sign
    split
    · next heq => cases heq; cases hc
    · next heq => cases heq; cases hc
    · rfl
  have hne : range r ≠ [] := by simp [hsplit]
  have hnone : toIntAnyBase (String.ofList (range r)) = none := by
    rw [toIntAnyBase_eq, String.toList_ofList, trimmed_of_isSpace hne hspace, hsign,
      digitsAnyBase_dash (by simp [hsplit])]
    rfl
  rw [Tools.readInt, hnone]
  exact ⟨_, rfl⟩

/-! ## Runs of one number -/

theorem head?_runs {l : List Nat} {r : Nat × Nat} {more : List (Nat × Nat)} (h : runs l = r :: more) :
    l.head? = some r.1 := by
  cases l with
  | nil => cases h
  | cons a rest =>
    simp only [runs] at h
    split at h
    · cases h
      rfl
    · split at h <;> cases h <;> rfl

/-- No range is printed exactly if no number follows another. -/
theorem runs_single_iff {l : List Nat} (hl : l.Pairwise (· < ·)) :
    (∀ r ∈ runs l, r.1 = r.2) ↔ ∀ a ∈ l, a + 1 ∉ l := by
  induction l with
  | nil => simp [runs]
  | cons a rest ih =>
    obtain ⟨hfirst, hrest⟩ := List.pairwise_cons.mp hl
    have hbehind : ∀ b ∈ rest, b + 1 ≠ a := by
      intro b hb
      have := hfirst b hb
      omega
    cases hruns : runs rest with
    | nil =>
      have hnil : rest = [] := by
        by_contra hne
        exact runs_ne_nil hne hruns
      subst hnil
      simp [runs]
    | cons r more =>
      have hhead := head?_runs hruns
      have hmem : r.1 ∈ rest := List.mem_of_head? hhead
      rw [hruns] at ih
      have hleast : ∀ b ∈ rest, r.1 ≤ b := by
        obtain ⟨b, rest', rfl⟩ := List.exists_cons_of_ne_nil (List.ne_nil_of_mem hmem)
        obtain rfl : b = r.1 := Option.some.inj hhead
        intro c hc
        rcases List.mem_cons.mp hc with rfl | hc
        · exact le_refl _
        · exact le_of_lt ((List.pairwise_cons.mp hrest).1 c hc)
      have hfollows : a + 1 ∈ rest ↔ r.1 = a + 1 := by
        constructor
        · intro h
          have hle := hleast _ h
          have hlt := hfirst _ hmem
          omega
        · intro h
          rwa [← h]
      have hsets : (∀ b ∈ a :: rest, b + 1 ∉ a :: rest) ↔ r.1 ≠ a + 1 ∧ ∀ b ∈ rest, b + 1 ∉ rest := by
        rw [List.forall_mem_cons, List.mem_cons, not_or, hfollows]
        have hself : ¬ a + 1 = a := by omega
        have hother : ∀ b ∈ rest, (b + 1 ∉ a :: rest ↔ b + 1 ∉ rest) := by
          intro b hb
          rw [List.mem_cons, not_or, and_iff_right (hbehind b hb)]
        rw [and_iff_right hself]
        exact and_congr_right fun _ => forall₂_congr hother
      rw [hsets, ← ih hrest]
      simp only [runs, hruns]
      have hle : r.1 ≤ r.2 := (mem_runs (hruns ▸ List.mem_cons_self)).1
      by_cases h : r.1 = a + 1
      · rw [if_pos h]
        constructor
        · intro hall
          have hone : a = r.2 := hall (a, r.2) List.mem_cons_self
          omega
        · intro hall
          exact absurd h hall.1
      · rw [if_neg h, List.forall_mem_cons, and_iff_right rfl, and_iff_right h]

/-! ## The line of a list -/

/-- The first line of a printed list is all of it but its end. -/
theorem firstLine_list (l : List Nat) :
    firstLine (list l) = String.ofList ([','].intercalate ((runs l).map range)) := by
  have hmem : ∀ c ∈ [','].intercalate ((runs l).map range), c ≠ '\n' ∧ c ≠ '\r' := by
    intro c hc
    rcases ListWords.mem_intercalate hc with rfl | ⟨w, hw, hc⟩
    · decide
    · obtain ⟨r, _, rfl⟩ := List.mem_map.mp hw
      rcases isDigit_or_of_mem_range hc with hd | rfl
      · constructor <;> rintro rfl <;> cases hd
      · decide
  have hline : ([','].intercalate ((runs l).map range) ++ ['\n']).takeWhile (fun c => c ≠ '\n') =
      [','].intercalate ((runs l).map range) := by
    rw [List.takeWhile_append_of_pos (fun c hc => by simpa using (hmem c hc).1)]
    simp
  have hlast : ([','].intercalate ((runs l).map range)).getLast? ≠ some '\r' := by
    intro h
    exact (hmem '\r' (List.mem_of_getLast? h)).2 rfl
  rw [firstLine, list, line, String.toList_ofList, hline, StandardConfiguration.chopReturn, if_neg hlast]

theorem splitAll_firstLine {l : List Nat} (hne : l ≠ []) :
    splitAll ',' (firstLine (list l)) = (runs l).map fun r => String.ofList (range r) := by
  rw [firstLine_list, splitAll_join (by simpa using runs_ne_nil hne), List.map_map]
  · rfl
  · intro part hpart hc
    obtain ⟨r, _, rfl⟩ := List.mem_map.mp hpart
    rcases isDigit_or_of_mem_range hc with hd | hd <;> cases hd

/-- A list without ranges is read as what was printed. -/
theorem readInts_single {l : List Nat} (hlt : ∀ a ∈ l, a < 2 ^ 31) (hsingle : ∀ r ∈ runs l, r.1 = r.2) :
    Tools.readInts ((runs l).map fun r => String.ofList (range r)) = .ok (l.map Int.ofNat) := by
  have hread : ∀ r ∈ runs l, Tools.readInt (String.ofList (range r)) = .ok (r.1 : Int) := by
    intro r hr
    have hsmall := hlt _ (mem_runs hr).2
    rw [← hsingle r hr] at hsmall
    rw [range, if_pos (hsingle r hr), readInt_number hsmall]
  have hvalues : ∀ r ∈ runs l, CpuInfo.valuesFrom r.1 r.2 = [(r.1 : Int)] := by
    intro r hr
    rw [← hsingle r hr, valuesFrom_self]
  have hlist : l.map Int.ofNat = (runs l).map fun r => (r.1 : Int) := by
    rw [← flatMap_runs, List.flatMap_congr hvalues, List.map_eq_flatMap]
  have hloop : (runs l).mapM (fun r => Tools.readInt (String.ofList (range r))) =
      .ok ((runs l).map fun r => (r.1 : Int)) := mapM_ok hread
  rw [Tools.readInts, List.mapM_map, Function.comp_def, hloop, hlist]

theorem readInts_ranges {l : List Nat} {r : Nat × Nat} (hr : r ∈ runs l) (hne : r.1 ≠ r.2) :
    ∃ what, Tools.readInts ((runs l).map fun r => String.ofList (range r)) = .error what := by
  obtain ⟨what, hwhat⟩ := readInt_range hne
  exact mapM_error (List.mem_map_of_mem hr) hwhat

end SysText

/-! ## The processors of a sensor -/

namespace Sensor

variable {D : Type} [One D] {h : SensorHost D} {name input : String}

theorem sysfsSensor_of_readSysfs {sensor : Sensor D} (hread : readSysfs h name input = .ok sensor) :
    ∃ attr, sensor = sysfsSensor h input attr := by
  obtain ⟨line, _, hread⟩ := bind_eq_ok hread
  obtain ⟨type, _, hread⟩ := bind_eq_ok hread
  obtain ⟨selectors, _, hread⟩ := bind_eq_ok hread
  obtain ⟨attr, _, hread⟩ := bind_eq_ok hread
  exact ⟨attr, (Except.ok.inj hread).symm⟩

variable {S : Finset Nat}

/-- The sensor and `CpuInfo` read the same list exactly if no two ids follow one another, so that no
range is printed. With a range the sensor has no processors at all. -/
theorem processors_eq_iff {calls : Nat} {sensor : Sensor D} (hs : QString.startsWith input "/" = true)
    (hsensor : readSensor h name (calls + 1) input = some (.ok sensor)) (hne : S.Nonempty)
    (hlt : ∀ a ∈ S, a < 2 ^ 31)
    (hfile : CpuInfo.Lists h.toSysfs (h.absolutePath input ++ "/../cpumask") S) :
    sensor.processors = CpuInfo.parseSysRangeFile h.toSysfs (h.absolutePath input ++ "/../cpumask") ↔
      ∀ a ∈ S, a + 1 ∉ S := by
  rw [readSensor_sysfs h name hs] at hsensor
  obtain ⟨attr, rfl⟩ := sysfsSensor_of_readSysfs (Option.some.inj hsensor)
  have hlist : S.sort (· ≤ ·) ≠ [] := CpuInfo.sort_ne_nil hne
  have hsmall : ∀ a ∈ S.sort (· ≤ ·), a < 2 ^ 31 := fun a ha => hlt a ((Finset.mem_sort _).mp ha)
  have hsingle := SysText.runs_single_iff (Finset.sortedLT_sort S).pairwise
  simp only [Finset.mem_sort] at hsingle
  rw [CpuInfo.parse_set hne hlt hfile, ← hsingle]
  unfold CpuInfo.Lists at hfile
  have hline : Tools.readLine h.toSysfs (h.absolutePath input ++ "/../cpumask") =
      .ok (QString.firstLine (SysText.list (S.sort (· ≤ ·)))) := by
    simp only [Tools.readLine, hfile]
  have hread : (sysfsSensor h input attr).processors =
      orElse (Tools.readInts ((SysText.runs (S.sort (· ≤ ·))).map fun r => String.ofList (SysText.range r))) [] := by
    simp only [sysfsSensor, hline, Except.bind, SysText.splitAll_firstLine hlist]
  rw [hread]
  by_cases hruns : ∀ r ∈ SysText.runs (S.sort (· ≤ ·)), r.1 = r.2
  · rw [SysText.readInts_single hsmall hruns]
    exact iff_of_true rfl hruns
  · obtain ⟨r, hr⟩ := not_forall.mp hruns
    obtain ⟨hmem, hrange⟩ := Classical.not_imp.mp hr
    obtain ⟨what, hwhat⟩ := SysText.readInts_ranges hmem hrange
    rw [hwhat]
    refine iff_of_false ?_ hruns
    intro h
    exact hlist (List.map_eq_nil_iff.mp h.symm)

/-- One event outside the cores, on the processors of `cpumask`. -/
def uncoreHost (cpumask : String) : SensorHost Nat where
  nprocs := 4
  file path :=
    [("/uncore/events/clockticks", "event=0xff\n"), ("/uncore/events/../type", "12\n"),
     ("/uncore/events/../format/event", "config:0-7\n"), ("/uncore/events/../cpumask", cpumask)].lookup path
  absolutePath _ := "/uncore/events"
  toDouble _ := none
  wideShift _ _ := 1

theorem uncoreHost_processors (cpumask : String) (processors : List Int)
    (h : ((readSensor (uncoreHost cpumask) "gperf" 1 "/uncore/events/clockticks").bind
      fun result => result.toOption.map Sensor.processors) = some processors) :
    ∃ sensor, readSensor (uncoreHost cpumask) "gperf" 1 "/uncore/events/clockticks" = some (.ok sensor) ∧
      sensor.processors = processors := by
  obtain ⟨result, hresult, h⟩ := Option.bind_eq_some_iff.mp h
  cases result with
  | error what => cases h
  | ok sensor => exact ⟨sensor, hresult, Option.some.inj h⟩

theorem processors_eq_iff_alternate :
    ∃ sensor, readSensor (uncoreHost "0,2\n") "gperf" 1 "/uncore/events/clockticks" = some (.ok sensor) ∧
      sensor.processors = CpuInfo.parseSysRangeFile (uncoreHost "0,2\n").toSysfs "/uncore/events/../cpumask" := by
  obtain ⟨sensor, hsensor, _⟩ := uncoreHost_processors "0,2\n" [0, 2] (by decide +kernel)
  have hfile : CpuInfo.Lists (uncoreHost "0,2\n").toSysfs "/uncore/events/../cpumask" {2, 0} :=
    CpuInfo.lists_of_sorted (l := [0, 2]) (by decide) (by decide) (by decide +kernel)
  exact ⟨sensor, hsensor, (processors_eq_iff (by decide) hsensor (by decide) (by decide) hfile).mpr (by decide)⟩

theorem processors_of_range :
    CpuInfo.Lists (uncoreHost "0-1\n").toSysfs "/uncore/events/../cpumask" {0, 1} ∧
    CpuInfo.parseSysRangeFile (uncoreHost "0-1\n").toSysfs "/uncore/events/../cpumask" = [0, 1] ∧
    ∃ sensor, readSensor (uncoreHost "0-1\n") "gperf" 1 "/uncore/events/clockticks" = some (.ok sensor) ∧
      sensor.processors = [] :=
  ⟨CpuInfo.lists_of_sorted (l := [0, 1]) (by decide) (by decide) (by decide +kernel), by decide +kernel,
    uncoreHost_processors "0-1\n" [] (by decide +kernel)⟩

end Sensor

end AutopinPlus
