import AutopinPlus.Configuration

/-!
# Texts as code units and as bytes

A `QString` is counted and cut in UTF-16 code units, while `toStdString` gives its UTF-8
bytes. The two agree on ASCII characters, and every other character has more bytes than
code units.
-/
namespace AutopinPlus

namespace QString

def utf16 (c : Char) : List UInt16 :=
  let n := c.toNat
  if n < 0x10000 then [n.toUInt16]
  else [(0xd800 + (n - 0x10000) / 0x400).toUInt16, (0xdc00 + (n - 0x10000) % 0x400).toUInt16]

/-- The code units of a text; their number is its `size`. -/
def units (l : List Char) : List UInt16 := l.flatMap utf16

def toStdString (l : List Char) : List UInt8 := l.flatMap String.utf8EncodeChar

/-- `mid`, which goes to the end for a negative `n`. -/
def mid (l : List UInt16) (position : Nat) (n : Int) : List UInt16 :=
  if n < 0 then l.drop position else (l.drop position).take n.toNat

/-- The text of code units, as far as it is compared with ASCII characters. -/
def ofUnits (l : List UInt16) : String := String.ofList (l.map fun u => Char.ofNat u.toNat)

def IsAscii (c : Char) : Prop := c.toNat < 128

instance (c : Char) : Decidable (IsAscii c) := inferInstanceAs (Decidable (_ < _))

/-- The one byte of an ASCII character. -/
def byte (c : Char) : UInt8 := c.val.toUInt8

@[simp] theorem units_nil : units [] = [] := rfl
@[simp] theorem units_cons (c : Char) (l : List Char) : units (c :: l) = utf16 c ++ units l := rfl
@[simp] theorem units_append (l l' : List Char) : units (l ++ l') = units l ++ units l' := List.flatMap_append

@[simp] theorem toStdString_nil : toStdString [] = [] := rfl
@[simp] theorem toStdString_cons (c : Char) (l : List Char) :
    toStdString (c :: l) = String.utf8EncodeChar c ++ toStdString l := rfl
@[simp] theorem toStdString_append (l l' : List Char) : toStdString (l ++ l') = toStdString l ++ toStdString l' :=
  List.flatMap_append

theorem isAscii_iff (c : Char) : IsAscii c ↔ c.utf8Size = 1 := by
  rw [Char.utf8Size_eq_one_iff, UInt32.le_iff_toNat_le]
  change c.val.toNat < 128 ↔ c.val.toNat ≤ 127
  omega

theorem utf16_ascii {c : Char} (h : IsAscii c) : utf16 c = [c.toNat.toUInt16] := by
  unfold IsAscii at h
  exact if_pos (by omega)

theorem utf8_ascii {c : Char} (h : IsAscii c) : String.utf8EncodeChar c = [byte c] :=
  String.utf8EncodeChar_eq_singleton ((isAscii_iff c).mp h)

theorem toNat_byte {c : Char} (h : IsAscii c) : (byte c).toNat = c.toNat := by
  have hlt : c.val.toNat < 2 ^ 8 := Nat.lt_trans h (by omega)
  exact Nat.mod_eq_of_lt hlt

theorem byte_ne {c d : Char} (hc : IsAscii c) (hd : IsAscii d) (h : c ≠ d) : byte c ≠ byte d := by
  intro hb
  have hnat : c.toNat = d.toNat := by rw [← toNat_byte hc, ← toNat_byte hd, hb]
  exact h (Char.toNat_inj.mp hnat)

theorem le_or (x : UInt8) {y : UInt8} (h : 128 ≤ y) : 128 ≤ x ||| y := by
  rw [UInt8.le_iff_toNat_le, UInt8.toNat_or] at *
  exact Nat.le_trans h Nat.right_le_or

/-- The bytes of any other character are none of an ASCII character. -/
theorem utf8_other {c : Char} (h : ¬ IsAscii c) {b : UInt8} (hb : b ∈ String.utf8EncodeChar c) : 128 ≤ b := by
  rw [isAscii_iff] at h
  obtain h1 | h2 | h3 | h4 := c.utf8Size_eq
  · exact absurd h1 h
  · rw [String.utf8EncodeChar_eq_cons_cons h2] at hb
    simp only [List.mem_cons, List.not_mem_nil, or_false] at hb
    obtain rfl | rfl := hb <;> exact le_or _ (by decide)
  · rw [String.utf8EncodeChar_eq_cons_cons_cons h3] at hb
    simp only [List.mem_cons, List.not_mem_nil, or_false] at hb
    obtain rfl | rfl | rfl := hb <;> exact le_or _ (by decide)
  · rw [String.utf8EncodeChar_eq_cons_cons_cons_cons h4] at hb
    simp only [List.mem_cons, List.not_mem_nil, or_false] at hb
    obtain rfl | rfl | rfl | rfl := hb <;> exact le_or _ (by decide)

/-- An ASCII character is found in the bytes of a text where it stands in the text. -/
theorem mem_toStdString {d : Char} (hd : IsAscii d) {l : List Char} (h : byte d ∈ toStdString l) : d ∈ l := by
  obtain ⟨c, hc, hb⟩ := List.mem_flatMap.mp h
  by_cases ha : IsAscii c
  · rw [utf8_ascii ha, List.mem_singleton] at hb
    by_cases hcd : c = d
    · exact hcd ▸ hc
    · exact absurd hb.symm (byte_ne ha hd hcd)
  · have hbig := utf8_other ha hb
    rw [UInt8.le_iff_toNat_le, toNat_byte hd] at hbig
    exact absurd hd (Nat.not_lt.mpr hbig)

theorem length_utf16_lt {c : Char} (h : ¬ IsAscii c) : (utf16 c).length < (String.utf8EncodeChar c).length := by
  rw [isAscii_iff] at h
  rw [String.length_utf8EncodeChar]
  have hpos := c.utf8Size_pos
  by_cases hone : c.toNat < 0x10000
  · have hunit : utf16 c = [c.toNat.toUInt16] := if_pos hone
    rw [hunit, List.length_singleton]
    omega
  · have hfour : c.utf8Size = 4 := by
      rw [Char.utf8Size_eq_four_iff, UInt32.lt_iff_toNat_lt]
      change 65535 < c.toNat
      omega
    have htwo : (utf16 c).length = 2 := congrArg List.length (if_neg hone)
    omega

theorem length_utf16_le (c : Char) : (utf16 c).length ≤ (String.utf8EncodeChar c).length := by
  by_cases h : IsAscii c
  · rw [utf16_ascii h, utf8_ascii h]
    exact Nat.le_refl 1
  · exact Nat.le_of_lt (length_utf16_lt h)

theorem length_units_le (l : List Char) : (units l).length ≤ (toStdString l).length := by
  induction l with
  | nil => exact Nat.le_refl 0
  | cons c l ih =>
    have := length_utf16_le c
    simp only [units_cons, toStdString_cons, List.length_append]
    omega

theorem length_units_lt {c : Char} {l : List Char} (hc : c ∈ l) (h : ¬ IsAscii c) :
    (units l).length < (toStdString l).length := by
  obtain ⟨a, b, rfl⟩ := List.append_of_mem hc
  have ha := length_units_le a
  have hb := length_units_le b
  have := length_utf16_lt h
  simp only [units_append, units_cons, toStdString_append, toStdString_cons, List.length_append]
  omega

theorem units_eq_nil_iff (l : List Char) : units l = [] ↔ l = [] := by
  cases l with
  | nil => simp
  | cons c l =>
    have hc : utf16 c ≠ [] := by
      unfold utf16
      by_cases h : c.toNat < 0x10000 <;> simp [h]
    simp [hc]

theorem toStdString_ascii {l : List Char} (h : ∀ c ∈ l, IsAscii c) : toStdString l = l.map byte := by
  induction l with
  | nil => rfl
  | cons c l ih =>
    rw [toStdString_cons, utf8_ascii (h c List.mem_cons_self), ih (fun d hd => h d (List.mem_cons_of_mem c hd))]
    rfl

theorem length_units_ascii {l : List Char} (h : ∀ c ∈ l, IsAscii c) : (units l).length = l.length := by
  induction l with
  | nil => rfl
  | cons c l ih =>
    have hrest := ih (fun d hd => h d (List.mem_cons_of_mem c hd))
    simp only [units_cons, utf16_ascii (h c List.mem_cons_self), List.singleton_append, List.length_cons, hrest]

theorem ofUnits_ascii {l : List Char} (h : ∀ c ∈ l, IsAscii c) : ofUnits (units l) = String.ofList l := by
  have hmap : (units l).map (fun u => Char.ofNat u.toNat) = l := by
    induction l with
    | nil => rfl
    | cons c l ih =>
      have hc := h c List.mem_cons_self
      have hunit : (c.toNat.toUInt16).toNat = c.toNat := by
        unfold IsAscii at hc
        exact Nat.mod_eq_of_lt (by omega)
      rw [units_cons, utf16_ascii hc, List.singleton_append, List.map_cons, hunit, Char.ofNat_toNat,
        ih (fun d hd => h d (List.mem_cons_of_mem c hd))]
  rw [ofUnits, hmap]

/-! ## Cutting -/

theorem mid_append (x y : List UInt16) (position : Nat) (n : Int) :
    mid (x ++ y) (x.length + position) n = mid y position n := by
  have hdrop : (x ++ y).drop (x.length + position) = y.drop position := by
    rw [← List.drop_drop, List.drop_left]
  rw [mid, mid, hdrop]

theorem mid_zero (x y : List UInt16) : mid (x ++ y) 0 x.length = x := by
  rw [mid, if_neg (by omega), List.drop_zero, Int.toNat_natCast, List.take_left]

theorem length_mid_le (l : List UInt16) (position : Nat) {n : Int} (hn : 0 ≤ n) :
    (mid l position n).length ≤ n.toNat := by
  rw [mid, if_neg (by omega)]
  exact List.length_take_le _ _

end QString

end AutopinPlus
