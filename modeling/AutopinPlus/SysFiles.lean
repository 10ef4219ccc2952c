import Mathlib.Algebra.Group.Nat.Defs
import AutopinPlus.Configuration

/-!
# The files of sysfs

The kernel prints a set of CPUs or nodes as its maximal runs, such as `0-3,8`, and the distances of
a node separated by blanks. `CpuInfo` splits such a text and reads every part as a number. What it
reads is what was printed, except that an empty list is read as the number 0.
-/
namespace AutopinPlus

namespace QString

/-- `split` with `QString::KeepEmptyParts`, which is its default. -/
def splitAll (sep : Char) (s : String) : List String := (s.toList.splitOn sep).map String.ofList

/-- `toInt` of a caller that does not ask for `ok`. -/
def toIntOrZero (s : String) : Int := (toInt s).getD 0

end QString

/-- The machine `CpuInfo` looks at: `get_nprocs()`, and the files that can be opened. -/
structure Sysfs where
  nprocs : Nat
  file : String → Option String

namespace CpuInfo

open QString (splitAll toIntOrZero)

/-- The values from `start` to `stop`, both included. -/
def valuesFrom (start stop : Int) : List Int :=
  (List.range (stop + 1 - start).toNat).map (fun k : Nat => start + (k : Int))

/-- One part of a list: a range or a single number. -/
def parseRange (range : String) : List Int :=
  let values := splitAll '-' range
  if values.length = 2 then
    valuesFrom (toIntOrZero (values.getD 0 "")) (toIntOrZero (values.getD 1 ""))
  else [toIntOrZero (values.getD 0 "")]

def parseSysRangeFile (fs : Sysfs) (path : String) : List Int :=
  match fs.file path with
  | some text => (splitAll ',' text).flatMap parseRange
  | none => []

def parseSysNodeDistance (fs : Sysfs) (path : String) : List Int :=
  match fs.file path with
  | some text => (splitAll ' ' text).map toIntOrZero
  | none => []

end CpuInfo

/-! ## What the kernel prints -/

namespace SysText

/-- The maximal runs of a list, each with its first and last number. -/
def runs : List Nat → List (Nat × Nat)
  | [] => []
  | a :: rest =>
    match runs rest with
    | [] => [(a, a)]
    | (b, c) :: more => if b = a + 1 then (a, c) :: more else (a, a) :: (b, c) :: more

def number (n : Nat) : List Char := Nat.toDigits 10 n

def range (r : Nat × Nat) : List Char := if r.1 = r.2 then number r.1 else number r.1 ++ '-' :: number r.2

/-- Parts with a separator between them, and the end of the line. -/
def line (sep : Char) (parts : List (List Char)) : String := String.ofList ([sep].intercalate parts ++ ['\n'])

/-- `cpulist` and `online`. -/
def list (l : List Nat) : String := line ',' ((runs l).map range)

/-- `distance`. -/
def distances (l : List Nat) : String := line ' ' (l.map number)

example : list [0, 1, 2, 3, 8, 10, 11] = "0-3,8,10-11\n" := by decide +kernel

example : list [] = "\n" := by decide +kernel

theorem isDigit_of_mem_number {n : Nat} {c : Char} (hc : c ∈ number n) : c.isDigit = true :=
  Nat.isDigit_of_mem_toDigits (by decide) (by decide) hc

end SysText

/-! ## Reading a number -/

namespace QString

theorem isSpace_of_isDigit {c : Char} (h : c.isDigit = true) : isSpace c = false := by
  have hbounds : 48 ≤ c.toNat ∧ c.toNat ≤ 57 := by
    simp only [Char.isDigit, Bool.and_eq_true, decide_eq_true_eq, ge_iff_le, UInt32.le_iff_toNat_le] at h
    exact h
  simp only [isSpace, Bool.or_eq_false_iff, beq_eq_false_iff_ne, Bool.and_eq_false_iff,
    decide_eq_false_iff_not]
  omega

theorem digit_digitChar : ∀ d < 10, digit 10 (Nat.digitChar d) = some d := by decide

theorem digits_number (n : Nat) :
    (Nat.toDigits 10 n).foldlM (fun n c => (digit 10 c).map fun d => 10 * n + d) 0 = some n := by
  induction n using Nat.strongRecOn with
  | ind n ih =>
    rw [Nat.toDigits_eq_if (by decide)]
    split
    · rename_i hlt
      simp [digit_digitChar n hlt]
    · rename_i hge
      have hdigit := digit_digitChar (n % 10) (Nat.mod_lt n (by decide))
      rw [List.foldlM_append, ih (n / 10) (by omega), Option.bind_eq_bind, Option.bind_some, List.foldlM_cons,
        hdigit]
      simp only [List.foldlM_nil, Option.map_some, Option.bind_eq_bind, Option.bind_some, Option.pure_def,
        Option.some.injEq]
      omega

theorem digits_ten_number (n : Nat) : digits 10 (SysText.number n) = some n := by
  rw [digits, if_neg (by simp [SysText.number, Nat.toDigits_ne_nil])]
  exact digits_number n

theorem dropWhile_isSpace {l : List Char} (ws : List Char) (hne : l ≠ []) (hl : ∀ c ∈ l, isSpace c = false) :
    (l ++ ws).dropWhile isSpace = l ++ ws := by
  cases l with
  | nil => exact absurd rfl hne
  | cons c l => rw [List.cons_append, List.dropWhile_cons, if_neg (by simp [hl c List.mem_cons_self])]

/-- White space after the last character goes. -/
theorem trimmed_append {l ws : List Char} (hne : l ≠ []) (hl : ∀ c ∈ l, isSpace c = false)
    (hws : ∀ c ∈ ws, isSpace c = true) : trimmed (l ++ ws) = l := by
  have hback : l.reverse.dropWhile isSpace = l.reverse := by
    have := dropWhile_isSpace (l := l.reverse) [] (by simpa using hne) (by simpa using hl)
    simpa using this
  rw [trimmed, dropWhile_isSpace ws hne hl, List.reverse_append,
    List.dropWhile_append_of_pos (by simpa using hws), hback, List.reverse_reverse]

theorem trimmed_of_isSpace {l : List Char} (hne : l ≠ []) (h : ∀ c ∈ l, isSpace c = false) : trimmed l = l := by
  have hback : trimmed (l ++ []) = l := trimmed_append hne h (by simp)
  rwa [List.append_nil] at hback

theorem sign_of_isDigit {l : List Char} (h : ∀ c ∈ l, c.isDigit = true) : sign l = (1, l) := by
  unfold sign
  split
  · exact absurd (h '-' List.mem_cons_self) (by decide)
  · exact absurd (h '+' List.mem_cons_self) (by decide)
  · rfl

theorem toInt_number {n : Nat} (hn : n < 2 ^ 31) {w : List Char} (hw : ∀ c ∈ w, isSpace c = true) :
    toInt (String.ofList (SysText.number n ++ w)) = some (n : Int) := by
  have hdigit : ∀ c ∈ SysText.number n, c.isDigit = true := fun c hc => SysText.isDigit_of_mem_number hc
  have htrim : trimmed (SysText.number n ++ w) = SysText.number n :=
    trimmed_append Nat.toDigits_ne_nil (fun c hc => isSpace_of_isDigit (hdigit c hc)) hw
  have hrange : inRange (1 * (n : Int)) = true := by
    simp only [inRange, Bool.and_eq_true, decide_eq_true_eq]
    omega
  rw [toInt, String.toList_ofList, htrim, sign_of_isDigit hdigit]
  simp only [digits_ten_number, Option.bind_eq_bind, Option.bind_some, Option.pure_def, Option.map_some,
    Option.filter_some]
  rw [if_pos hrange, Int.one_mul]

theorem toIntOrZero_number {n : Nat} (hn : n < 2 ^ 31) {w : List Char} (hw : ∀ c ∈ w, isSpace c = true) :
    toIntOrZero (String.ofList (SysText.number n ++ w)) = n := by
  rw [toIntOrZero, toInt_number hn hw, Option.getD_some]

theorem toIntOrZero_bare {n : Nat} (hn : n < 2 ^ 31) : toIntOrZero (String.ofList (SysText.number n)) = n := by
  have h := toIntOrZero_number hn (w := []) (by simp)
  rwa [List.append_nil] at h

end QString

/-! ## Reading a list -/

namespace SysText

open QString (splitAll toIntOrZero)

/-- The parts of a line that was ended: the last of them has the line feed. -/
def ended : List (List Char) → List (List Char)
  | [] => [['\n']]
  | [part] => [part ++ ['\n']]
  | part :: next :: rest => part :: ended (next :: rest)

theorem ended_ne_nil (parts : List (List Char)) : ended parts ≠ [] := by
  match parts with
  | [] => simp [ended]
  | [part] => simp [ended]
  | part :: next :: rest => simp [ended]

theorem intercalate_ended (sep : Char) (parts : List (List Char)) :
    [sep].intercalate (ended parts) = [sep].intercalate parts ++ ['\n'] := by
  induction parts using ended.induct with
  | case1 => rfl
  | case2 part => simp [ended]
  | case3 part next rest ih =>
    rw [ended, List.intercalate_cons_of_ne_nil (ended_ne_nil _), ih, List.intercalate_cons_cons]
    simp only [List.append_assoc]

theorem mem_ended {parts : List (List Char)} {p : List Char} (h : p ∈ ended parts) :
    p = ['\n'] ∨ p ∈ parts ∨ ∃ part ∈ parts, p = part ++ ['\n'] := by
  induction parts using ended.induct with
  | case1 => exact .inl (List.mem_singleton.mp h)
  | case2 part => exact .inr (.inr ⟨part, List.mem_singleton_self part, List.mem_singleton.mp h⟩)
  | case3 part next rest ih =>
    rcases List.mem_cons.mp h with rfl | h
    · exact .inr (.inl List.mem_cons_self)
    · rcases ih h with hp | hp | ⟨q, hq, hp⟩
      · exact .inl hp
      · exact .inr (.inl (List.mem_cons_of_mem part hp))
      · exact .inr (.inr ⟨q, List.mem_cons_of_mem part hq, hp⟩)

/-- A line is split where it was put together. -/
theorem splitAll_line {sep : Char} (hsep : sep ≠ '\n') {parts : List (List Char)}
    (hparts : ∀ part ∈ parts, sep ∉ part) :
    splitAll sep (line sep parts) = (ended parts).map String.ofList := by
  have hended : ∀ p ∈ ended parts, sep ∉ p := by
    intro p hp
    rcases mem_ended hp with rfl | hp | ⟨part, hpart, rfl⟩
    · simp [hsep]
    · exact hparts p hp
    · simp [hsep, hparts part hpart]
  rw [splitAll, line, String.toList_ofList, ← intercalate_ended,
    List.splitOn_intercalate sep hended (ended_ne_nil parts)]

/-- What is read of the parts does not depend on the line feed of the last one. -/
theorem map_ended {β : Type} {f : List Char → β} {parts : List (List Char)} (hne : parts ≠ [])
    (hf : ∀ part ∈ parts, f (part ++ ['\n']) = f part) : (ended parts).map f = parts.map f := by
  induction parts using ended.induct with
  | case1 => exact absurd rfl hne
  | case2 part => simp [ended, hf part List.mem_cons_self]
  | case3 part next rest ih =>
    rw [ended, List.map_cons, ih (by simp) (fun p hp => hf p (List.mem_cons_of_mem part hp))]
    rfl

/-- A line is read part by part. -/
theorem map_splitAll_line {β : Type} {f : String → β} {sep : Char} (hsep : sep ≠ '\n') {parts : List (List Char)}
    (hne : parts ≠ []) (hparts : ∀ part ∈ parts, sep ∉ part)
    (hf : ∀ part ∈ parts, f (String.ofList (part ++ ['\n'])) = f (String.ofList part)) :
    (splitAll sep (line sep parts)).map f = parts.map (fun part => f (String.ofList part)) := by
  rw [splitAll_line hsep hparts, List.map_map]
  exact map_ended hne hf

theorem not_mem_number {c : Char} (hc : c.isDigit = false) (n : Nat) : c ∉ number n := by
  intro h
  rw [isDigit_of_mem_number h] at hc
  cases hc

theorem not_mem_space {c : Char} (hc : QString.isSpace c = false) {w : List Char}
    (hw : ∀ c ∈ w, QString.isSpace c = true) : c ∉ w := by
  intro h
  rw [hw c h] at hc
  cases hc

theorem valuesFrom_self (a : Int) : CpuInfo.valuesFrom a a = [a] := by
  have hone : (a + 1 - a).toNat = 1 := by omega
  rw [CpuInfo.valuesFrom, hone]
  simp

theorem valuesFrom_cons {a b : Int} (h : a ≤ b) :
    CpuInfo.valuesFrom a b = a :: CpuInfo.valuesFrom (a + 1) b := by
  have hlength : (b + 1 - a).toNat = (b + 1 - (a + 1)).toNat + 1 := by omega
  rw [CpuInfo.valuesFrom, hlength, List.range_succ_eq_map, List.map_cons, List.map_map, CpuInfo.valuesFrom]
  simp only [List.cons.injEq, List.map_inj_left, Function.comp_apply]
  constructor
  · omega
  · intro k _
    omega

theorem parseRange_range {r : Nat × Nat} (hle : r.1 ≤ r.2) (hlt : r.2 < 2 ^ 31) {w : List Char}
    (hw : ∀ c ∈ w, QString.isSpace c = true) :
    CpuInfo.parseRange (String.ofList (range r ++ w)) = CpuInfo.valuesFrom r.1 r.2 := by
  have hdash : ∀ n, '-' ∉ number n := not_mem_number (by decide)
  have hdash' : '-' ∉ w := not_mem_space (by decide) hw
  by_cases he : r.1 = r.2
  · have hsplit : splitAll '-' (String.ofList (range r ++ w)) = [String.ofList (number r.1 ++ w)] := by
      have hpart : ∀ part ∈ [number r.1 ++ w], '-' ∉ part := by simp [hdash, hdash']
      have hjoin := List.splitOn_intercalate '-' hpart (by simp)
      rw [List.intercalate_singleton] at hjoin
      rw [splitAll, String.toList_ofList, range, if_pos he, hjoin, List.map_singleton]
    rw [CpuInfo.parseRange, hsplit, ← he, valuesFrom_self]
    simp only [List.length_singleton, show ¬ 1 = 2 by decide, if_false, List.getD_cons_zero]
    rw [QString.toIntOrZero_number (by omega) hw]
  · have hsplit : splitAll '-' (String.ofList (range r ++ w)) =
        [String.ofList (number r.1), String.ofList (number r.2 ++ w)] := by
      have hparts : ∀ part ∈ [number r.1, number r.2 ++ w], '-' ∉ part := by simp [hdash, hdash']
      have hjoin := List.splitOn_intercalate '-' hparts (by simp)
      rw [List.intercalate_cons_cons, List.intercalate_singleton, List.append_assoc,
        List.singleton_append] at hjoin
      rw [splitAll, String.toList_ofList, range, if_neg he, List.append_assoc, List.cons_append, hjoin]
      rfl
    rw [CpuInfo.parseRange, hsplit]
    simp only [List.length_cons, List.length_nil, if_true, List.getD_cons_zero, List.getD_cons_succ]
    rw [QString.toIntOrZero_bare (by omega), QString.toIntOrZero_number hlt hw]

theorem parseRange_bare {r : Nat × Nat} (hle : r.1 ≤ r.2) (hlt : r.2 < 2 ^ 31) :
    CpuInfo.parseRange (String.ofList (range r)) = CpuInfo.valuesFrom r.1 r.2 := by
  have h := parseRange_range hle hlt (w := []) (by simp)
  rwa [List.append_nil] at h

/-! ## The runs of a list -/

theorem runs_ne_nil {l : List Nat} (h : l ≠ []) : runs l ≠ [] := by
  cases l with
  | nil => exact absurd rfl h
  | cons a rest =>
    simp only [runs]
    split
    · simp
    · split <;> simp

theorem mem_runs {l : List Nat} {r : Nat × Nat} (h : r ∈ runs l) : r.1 ≤ r.2 ∧ r.2 ∈ l := by
  induction l generalizing r with
  | nil => cases h
  | cons a rest ih =>
    simp only [runs] at h
    split at h
    · obtain rfl := List.mem_singleton.mp h
      exact ⟨le_refl a, List.mem_cons_self⟩
    · rename_i b c more hmore
      have hfirst := ih (hmore ▸ List.mem_cons_self)
      split at h
      · rename_i hb
        rcases List.mem_cons.mp h with rfl | h
        · exact ⟨by simp only at hfirst ⊢; omega, List.mem_cons_of_mem a hfirst.2⟩
        · have hlater := ih (hmore ▸ List.mem_cons_of_mem _ h)
          exact ⟨hlater.1, List.mem_cons_of_mem a hlater.2⟩
      · rcases List.mem_cons.mp h with rfl | h
        · exact ⟨le_refl a, List.mem_cons_self⟩
        · have hlater := ih (hmore ▸ h)
          exact ⟨hlater.1, List.mem_cons_of_mem a hlater.2⟩

/-- The runs hold the list again, in its order. -/
theorem flatMap_runs (l : List Nat) :
    (runs l).flatMap (fun r => CpuInfo.valuesFrom r.1 r.2) = l.map Int.ofNat := by
  induction l with
  | nil => rfl
  | cons a rest ih =>
    simp only [runs]
    split
    · rename_i hnil
      rw [hnil, List.flatMap_nil] at ih
      rw [List.flatMap_singleton, valuesFrom_self, List.map_cons, ← ih]
      rfl
    · rename_i b c more hmore
      rw [hmore, List.flatMap_cons] at ih
      have hle : b ≤ c := (mem_runs (hmore ▸ List.mem_cons_self)).1
      split
      · rename_i hb
        rw [List.flatMap_cons, valuesFrom_cons (by simp only; omega), List.map_cons, ← ih, hb]
        simp
      · rw [List.flatMap_cons, List.flatMap_cons, valuesFrom_self, List.map_cons, ← ih]
        simp

/-! ## What is read back -/

theorem isSpace_newline : ∀ c ∈ ['\n'], QString.isSpace c = true := by
  intro c hc
  obtain rfl := List.mem_singleton.mp hc
  decide

/-- A list that is not empty is read as it was printed. -/
theorem parse_list {l : List Nat} (hne : l ≠ []) (hlt : ∀ a ∈ l, a < 2 ^ 31) :
    (splitAll ',' (list l)).flatMap CpuInfo.parseRange = l.map Int.ofNat := by
  have hcomma : ∀ part ∈ (runs l).map range, ',' ∉ part := by
    intro part hpart
    obtain ⟨r, _, rfl⟩ := List.mem_map.mp hpart
    rw [range]
    split <;> simp [not_mem_number]
  have hrange : ∀ part ∈ (runs l).map range,
      CpuInfo.parseRange (String.ofList (part ++ ['\n'])) = CpuInfo.parseRange (String.ofList part) := by
    intro part hpart
    obtain ⟨r, hr, rfl⟩ := List.mem_map.mp hpart
    obtain ⟨hle, hmem⟩ := mem_runs hr
    rw [parseRange_range hle (hlt _ hmem) isSpace_newline, parseRange_bare hle (hlt _ hmem)]
  have hexpand : ∀ r ∈ runs l, CpuInfo.parseRange (String.ofList (range r)) = CpuInfo.valuesFrom r.1 r.2 := by
    intro r hr
    obtain ⟨hle, hmem⟩ := mem_runs hr
    exact parseRange_bare hle (hlt _ hmem)
  calc (splitAll ',' (list l)).flatMap CpuInfo.parseRange
      = (((runs l).map range).map (fun part => CpuInfo.parseRange (String.ofList part))).flatten := by
        rw [List.flatMap_def, list, map_splitAll_line (by decide) (by simpa using runs_ne_nil hne) hcomma hrange]
    _ = (runs l).flatMap (fun r => CpuInfo.valuesFrom r.1 r.2) := by
        rw [List.map_map, List.flatMap_def, ← List.map_congr_left hexpand]
        rfl
    _ = l.map Int.ofNat := flatMap_runs l

/-- The list of a set without a member is a line feed, which `toInt` does not accept. -/
theorem parse_nil : (splitAll ',' (list [])).flatMap CpuInfo.parseRange = [0] := by decide +kernel

theorem parse_distances {l : List Nat} (hne : l ≠ []) (hlt : ∀ a ∈ l, a < 2 ^ 31) :
    (splitAll ' ' (distances l)).map toIntOrZero = l.map Int.ofNat := by
  have hblank : ∀ part ∈ l.map number, ' ' ∉ part := by
    intro part hpart
    obtain ⟨a, _, rfl⟩ := List.mem_map.mp hpart
    exact not_mem_number (by decide) a
  have hnumber : ∀ part ∈ l.map number,
      toIntOrZero (String.ofList (part ++ ['\n'])) = toIntOrZero (String.ofList part) := by
    intro part hpart
    obtain ⟨a, ha, rfl⟩ := List.mem_map.mp hpart
    rw [QString.toIntOrZero_number (hlt a ha) isSpace_newline, QString.toIntOrZero_bare (hlt a ha)]
  rw [distances, map_splitAll_line (by decide) (by simpa using hne) hblank hnumber, List.map_map]
  apply List.map_congr_left
  intro a ha
  exact QString.toIntOrZero_bare (hlt a ha)

end SysText

end AutopinPlus
