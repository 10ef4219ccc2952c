import AutopinPlus.SysFiles

/-!
# Tools

`Tools` reads lines, pairs and numbers and throws where there is none. A number is read in the base
its first digits tell, as in C; a numeral of that convention is read as its value.
-/
namespace AutopinPlus

namespace QString

def startsWith (s start : String) : Bool := start.toList.isPrefixOf s.toList

/-- A number without sign whose base is told by its first digits. -/
def digitsAnyBase (l : List Char) : Option Nat :=
  if l.head? = some '0' then
    if l.tail.head? = some 'x' ∨ l.tail.head? = some 'X' then digits 16 (l.drop 2) else digits 8 l
  else digits 10 l

/-- The common part of `toULong`: nothing below 0 is read, not even `-0`. -/
def toULongBy (read : List Char → Option Nat) (s : String) : Option Nat :=
  let (sgn, l) := sign (trimmed s.toList)
  if sgn < 0 then none else (read l).filter (fun n => n < 2 ^ 64)

/-- `toULong` with a base from 2 to 36; `none` where `ok` is false and the result 0. -/
def toULong (base : Nat) (s : String) : Option Nat := toULongBy (digits base) s

/-- `toULong` with base 0. -/
def toULongAnyBase (s : String) : Option Nat := toULongBy digitsAnyBase s

/-- The first line of a text, which `QTextStream::readLine` returns. -/
def firstLine (text : String) : String :=
  String.ofList (StandardConfiguration.chopReturn (text.toList.takeWhile (fun c => c ≠ '\n')))

end QString

namespace Tools

def readLine (fs : Sysfs) (path : String) : Except String String :=
  match fs.file path with
  | some text => .ok (QString.firstLine text)
  | none => .error ("Tools::readLine(" ++ path ++ ") failed: Couldn't open file.")

def readPair (string : String) (separator : Char) : Except String (String × String) :=
  match QString.splitAll separator string with
  | [first, second] => .ok (first, second)
  | _ => .error ("Tools::readPair(" ++ string ++ "," ++ separator.toString ++ ") failed: Not exactly one " ++
      separator.toString ++ ".")

def readULong (string : String) : Except String (BitVec 64) :=
  match QString.toULongAnyBase string with
  | some n => .ok (BitVec.ofNat 64 n)
  | none => .error ("Tools::readULong(" ++ string ++ ") failed: Invalid.")

def readDouble {D : Type} (toDouble : String → Option D) (string : String) : Except String D :=
  match toDouble string with
  | some d => .ok d
  | none => .error ("Tools::readDouble(" ++ string ++ ") failed: Invalid.")

end Tools

/-! ## Numerals -/

/-- A numeral of the C convention and its value: hexadecimal behind `0x`, octal behind any other `0`, and
else decimal. -/
inductive CNumeral : List Char → Nat → Prop
  | decimal {l : List Char} {n : Nat} (hhead : l.head? ≠ some '0') (h : QString.digits 10 l = some n) : CNumeral l n
  | octal {l : List Char} {n : Nat} (h : QString.digits 8 ('0' :: l) = some n) : CNumeral ('0' :: l) n
  | hexadecimal {x : Char} {l : List Char} {n : Nat} (hx : x = 'x' ∨ x = 'X') (h : QString.digits 16 l = some n) :
      CNumeral ('0' :: x :: l) n

namespace QString

/-- What stands in a numeral. -/
def IsNumeralChar (c : Char) : Prop := '0' ≤ c ∧ c ≤ '9' ∨ 'a' ≤ c ∧ c ≤ 'z' ∨ 'A' ≤ c ∧ c ≤ 'Z'

instance (c : Char) : Decidable (IsNumeralChar c) := inferInstanceAs (Decidable (_ ∨ _))

theorem isNumeralChar_of_digit {base d : Nat} {c : Char} (h : digit base c = some d) : IsNumeralChar c := by
  by_contra hn
  obtain ⟨hdec, hrest⟩ := not_or.mp hn
  obtain ⟨hlow, hup⟩ := not_or.mp hrest
  simp [digit, hdec, hlow, hup] at h

theorem isNumeralChar_of_digits {base n : Nat} {l : List Char} (h : digits base l = some n) :
    l ≠ [] ∧ ∀ c ∈ l, IsNumeralChar c := by
  have hne : l ≠ [] := by
    rintro rfl
    cases h
  refine ⟨hne, ?_⟩
  rw [digits, if_neg (by simpa using hne)] at h
  generalize 0 = start at h
  clear hne
  induction l generalizing start with
  | nil => simp
  | cons c l ih =>
    rw [List.foldlM_cons] at h
    cases hc : digit base c with
    | none => simp [hc] at h
    | some d =>
      simp only [hc, Option.map_some, Option.bind_eq_bind, Option.bind_some] at h
      rw [List.forall_mem_cons]
      exact ⟨isNumeralChar_of_digit hc, ih _ h⟩

end QString

namespace CNumeral

open QString

theorem chars {l : List Char} {n : Nat} (h : CNumeral l n) : l ≠ [] ∧ ∀ c ∈ l, IsNumeralChar c := by
  cases h with
  | decimal hhead h => exact isNumeralChar_of_digits h
  | octal h => exact isNumeralChar_of_digits h
  | hexadecimal hx h =>
    have hrest := (isNumeralChar_of_digits h).2
    refine ⟨List.cons_ne_nil _ _, ?_⟩
    rw [List.forall_mem_cons, List.forall_mem_cons]
    refine ⟨by decide, ?_, hrest⟩
    rcases hx with rfl | rfl <;> decide

theorem not_mem {l : List Char} {n : Nat} (h : CNumeral l n) {c : Char} (hc : ¬ IsNumeralChar c) : c ∉ l :=
  fun hm => hc (h.chars.2 c hm)

theorem digitsAnyBase_eq {l : List Char} {n : Nat} (h : CNumeral l n) : digitsAnyBase l = some n := by
  cases h with
  | decimal hhead h => rw [digitsAnyBase, if_neg hhead, h]
  | @octal l n h =>
    have hsecond : ¬ (l.head? = some 'x' ∨ l.head? = some 'X') := by
      intro hx
      cases l with
      | nil => simp at hx
      | cons c l =>
        have hzero : digit 8 '0' = some 0 := by decide
        have hletter : digit 8 c = none := by
          rcases hx with hx | hx <;> cases hx <;> decide
        simp [digits, hzero, hletter] at h
    rw [digitsAnyBase, if_pos List.head?_cons, List.tail_cons, if_neg hsecond, h]
  | hexadecimal hx h =>
    rw [digitsAnyBase, if_pos List.head?_cons, List.tail_cons, List.head?_cons, if_pos (by simpa using hx)]
    exact h

theorem isSpace_eq_false {c : Char} (h : IsNumeralChar c) : isSpace c = false := by
  have hbounds : 48 ≤ c.toNat ∧ c.toNat ≤ 122 := by
    simp only [IsNumeralChar, Char.le_def, UInt32.le_iff_toNat_le] at h
    change 48 ≤ c.val.toNat ∧ c.val.toNat ≤ 122
    have h0 : '0'.val.toNat = 48 := rfl
    have h9 : '9'.val.toNat = 57 := rfl
    have ha : 'a'.val.toNat = 97 := rfl
    have hz : 'z'.val.toNat = 122 := rfl
    have hA : 'A'.val.toNat = 65 := rfl
    have hZ : 'Z'.val.toNat = 90 := rfl
    omega
  simp only [isSpace, Bool.or_eq_false_iff, beq_eq_false_iff_ne, Bool.and_eq_false_iff, decide_eq_false_iff_not]
  omega

theorem sign_eq {l : List Char} (h : ∀ c ∈ l, IsNumeralChar c) : sign l = (1, l) := by
  unfold sign
  split
  · exact absurd (h '-' List.mem_cons_self) (by decide)
  · exact absurd (h '+' List.mem_cons_self) (by decide)
  · rfl

/-- A numeral is read as its value, if it fits. -/
theorem toULongAnyBase_eq {l : List Char} {n : Nat} (h : CNumeral l n) (hn : n < 2 ^ 64) :
    toULongAnyBase (String.ofList l) = some n := by
  obtain ⟨hne, hchars⟩ := h.chars
  have htrim : trimmed l = l := trimmed_of_isSpace hne (fun c hc => isSpace_eq_false (hchars c hc))
  rw [toULongAnyBase, toULongBy, String.toList_ofList, htrim, sign_eq hchars]
  simpa [h.digitsAnyBase_eq] using hn

theorem readULong_eq {l : List Char} {n : Nat} (h : CNumeral l n) (hn : n < 2 ^ 64) :
    Tools.readULong (String.ofList l) = .ok (BitVec.ofNat 64 n) := by
  rw [Tools.readULong, h.toULongAnyBase_eq hn]

end CNumeral

/-- A numeral of a value that fits a word. -/
structure Numeral where
  text : List Char
  value : Nat
  reads : CNumeral text value
  fits : value < 2 ^ 64

namespace Numeral

def word (n : Numeral) : BitVec 64 := BitVec.ofNat 64 n.value

theorem toNat_word (n : Numeral) : n.word.toNat = n.value := Nat.mod_eq_of_lt n.fits

theorem readULong_eq (n : Numeral) : Tools.readULong (String.ofList n.text) = .ok n.word :=
  n.reads.readULong_eq n.fits

theorem not_mem (n : Numeral) {c : Char} (hc : ¬ QString.IsNumeralChar c) : c ∉ n.text := n.reads.not_mem hc

end Numeral

/-! ## Texts that are split where they were joined -/

namespace QString

theorem splitAll_join {sep : Char} {parts : List (List Char)} (hne : parts ≠ []) (hparts : ∀ p ∈ parts, sep ∉ p) :
    splitAll sep (String.ofList ([sep].intercalate parts)) = parts.map String.ofList := by
  rw [splitAll, String.toList_ofList, List.splitOn_intercalate sep hparts hne]

theorem splitAll_pair {sep : Char} {a b : List Char} (ha : sep ∉ a) (hb : sep ∉ b) :
    splitAll sep (String.ofList (a ++ sep :: b)) = [String.ofList a, String.ofList b] := by
  have hjoin : splitAll sep (String.ofList ([sep].intercalate [a, b])) = [a, b].map String.ofList :=
    splitAll_join (by simp) (by simp [ha, hb])
  rwa [List.intercalate_cons_cons, List.intercalate_singleton, List.append_assoc, List.singleton_append] at hjoin

theorem splitAll_single {sep : Char} {a : List Char} (ha : sep ∉ a) :
    splitAll sep (String.ofList a) = [String.ofList a] := by
  have hjoin : splitAll sep (String.ofList ([sep].intercalate [a])) = [a].map String.ofList :=
    splitAll_join (by simp) (by simp [ha])
  rwa [List.intercalate_singleton] at hjoin

end QString

namespace Tools

theorem readPair_ok {sep : Char} {a b : List Char} (ha : sep ∉ a) (hb : sep ∉ b) :
    readPair (String.ofList (a ++ sep :: b)) sep = .ok (String.ofList a, String.ofList b) := by
  rw [readPair, QString.splitAll_pair ha hb]

theorem readPair_error {sep : Char} {a : List Char} (ha : sep ∉ a) :
    ∃ what, readPair (String.ofList a) sep = .error what := by
  rw [readPair, QString.splitAll_single ha]
  exact ⟨_, rfl⟩

end Tools

/-! ## Loops that throw -/

section

variable {α β ε : Type}

theorem ok_bind (a : α) (f : α → Except ε β) : (Except.ok a >>= f) = f a := rfl

theorem error_bind (e : ε) (f : α → Except ε β) : (Except.error e >>= f) = .error e := rfl

theorem bind_eq_ok {x : Except ε α} {f : α → Except ε β} {b : β} (h : (x >>= f) = .ok b) :
    ∃ a, x = .ok a ∧ f a = .ok b := by
  cases x with
  | error e => cases h
  | ok a => exact ⟨a, rfl, h⟩

theorem mapM_ok {f : β → Except ε α} {g : β → α} {l : List β} (h : ∀ b ∈ l, f b = .ok (g b)) :
    l.mapM f = .ok (l.map g) := by
  induction l with
  | nil => rfl
  | cons b l ih =>
    rw [List.mapM_cons, h b List.mem_cons_self, ok_bind, ih (fun c hc => h c (List.mem_cons_of_mem b hc))]
    rfl

theorem mapM_error {f : β → Except ε α} {l : List β} {b : β} {e : ε} (hb : b ∈ l) (h : f b = .error e) :
    ∃ e', l.mapM f = .error e' := by
  induction l with
  | nil => cases hb
  | cons c l ih =>
    rw [List.mapM_cons]
    cases hc : f c with
    | error e' => exact ⟨e', rfl⟩
    | ok a =>
      rcases List.mem_cons.mp hb with rfl | hb
      · rw [h] at hc
        cases hc
      · obtain ⟨e', he⟩ := ih hb
        rw [ok_bind, he]
        exact ⟨e', rfl⟩

theorem foldlM_ok {f : α → β → Except ε α} {g : α → β → α} {l : List β} (h : ∀ b ∈ l, ∀ a, f a b = .ok (g a b))
    (a : α) : l.foldlM f a = .ok (l.foldl g a) := by
  induction l generalizing a with
  | nil => rfl
  | cons b l ih =>
    rw [List.foldlM_cons, h b List.mem_cons_self a]
    exact ih (fun c hc => h c (List.mem_cons_of_mem b hc)) (g a b)

/-- One element for which the body always throws ends the loop, unless it has been ended before. -/
theorem foldlM_error {f : α → β → Except ε α} {l : List β} {b : β} (hb : b ∈ l) (h : ∀ a, ∃ e, f a b = .error e)
    (a : α) : ∃ e, l.foldlM f a = .error e := by
  induction l generalizing a with
  | nil => cases hb
  | cons c l ih =>
    rw [List.foldlM_cons]
    cases hc : f a c with
    | error e => exact ⟨e, rfl⟩
    | ok a' =>
      rcases List.mem_cons.mp hb with rfl | hb
      · obtain ⟨e, he⟩ := h a
        rw [hc] at he
        cases he
      · exact ih hb a'

end

end AutopinPlus
