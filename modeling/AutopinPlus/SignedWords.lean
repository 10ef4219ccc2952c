import Mathlib.Algebra.BigOperators.Group.List.Basic
import Mathlib.Algebra.Order.Ring.Int
import Mathlib.Data.Int.ModEq
import Mathlib.Tactic.Ring

/-!
# Sums of words read with a sign

A word below twice `half` is read with a sign: from `half` on it stands for a negative number. A sum of such
readings in a wider register is the sum of the words exactly if none of them lies in the upper half.
-/
namespace SignedWords

variable {half modulus : Nat} {l : List Nat}

theorem bmod_lower {w : Nat} (h : w < half) : Int.bmod w (2 * half) = w := by
  apply Int.bmod_eq_of_le <;> omega

theorem bmod_upper {w : Nat} (h : half ≤ w) (hw : w < 2 * half) : Int.bmod w (2 * half) = w - (2 * half : Nat) := by
  rw [← Int.sub_bmod_right]
  apply Int.bmod_eq_of_le <;> omega

/-- Each word of the upper half is read too low by what a word can hold. -/
theorem sum_bmod (h : ∀ w ∈ l, w < 2 * half) :
    (l.map fun w : Nat => Int.bmod w (2 * half)).sum =
      (l.sum : Int) - (2 * half : Nat) * (l.countP fun w => half ≤ w : Nat) := by
  induction l with
  | nil => simp
  | cons w l ih =>
    rw [List.forall_mem_cons] at h
    rw [List.map_cons, List.sum_cons, ih h.2, List.sum_cons, List.countP_cons]
    by_cases hw : half ≤ w
    · rw [bmod_upper hw h.1]
      simp only [hw, decide_true, if_true]
      push_cast
      ring
    · rw [bmod_lower (by omega)]
      simp only [hw, decide_false, Bool.false_eq_true, if_false]
      push_cast
      ring

/-- In a register that can hold that many words the two sums agree exactly if all words are small. -/
theorem sum_bmod_modEq_iff (h : ∀ w ∈ l, w < 2 * half) (hregister : 2 * half * l.length < modulus) :
    (l.map fun w : Nat => Int.bmod w (2 * half)).sum ≡ l.sum [ZMOD modulus] ↔ ∀ w ∈ l, w < half := by
  rw [sum_bmod h]
  have hcount : l.countP (fun w => half ≤ w) ≤ l.length := List.countP_le_length
  constructor
  · intro hmod
    have hdvd := hmod.dvd
    rw [sub_sub_cancel] at hdvd
    have hlt : 2 * half * l.countP (fun w => half ≤ w) < modulus :=
      lt_of_le_of_lt (Nat.mul_le_mul_left _ hcount) hregister
    have hzero : 2 * half * l.countP (fun w => half ≤ w) = 0 :=
      Nat.eq_zero_of_dvd_of_lt (by exact_mod_cast hdvd) hlt
    intro w hw
    by_contra hge
    have hpos : 0 < l.countP (fun w => half ≤ w) :=
      List.countP_pos_iff.mpr ⟨w, hw, by simpa using hge⟩
    have hhalf := h w hw
    rcases Nat.mul_eq_zero.mp hzero with h0 | h0 <;> omega
  · intro hsmall
    have hnone : l.countP (fun w => half ≤ w) = 0 :=
      List.countP_eq_zero.mpr (fun w hw => by simpa using hsmall w hw)
    rw [hnone, Nat.cast_zero, mul_zero, sub_zero]

end SignedWords
