import Mathlib.Data.BitVec
import Mathlib.Data.List.Perm.Basic
import Mathlib.Data.List.Pairwise

/-!
# Fields of a word

A word is put together from values that are shifted to the lower ends of their ranges. Values that
fit ranges without a common bit are found again in their ranges, and no other bit is set.
-/
namespace BitFields

variable {n : Nat}

/-- A range of bits, both ends included, and the value that is meant for it. -/
structure Field (n : Nat) where
  lower : Nat
  upper : Nat
  value : BitVec n
  ordered : lower ≤ upper
  inside : upper < n

namespace Field

def width (f : Field n) : Nat := f.upper - f.lower + 1

def Fits (f : Field n) : Prop := f.value.toNat < 2 ^ f.width

instance (f : Field n) : Decidable f.Fits := inferInstanceAs (Decidable (_ < _))

def Apart (f g : Field n) : Prop := f.upper < g.lower ∨ g.upper < f.lower

instance (f g : Field n) : Decidable (f.Apart g) := inferInstanceAs (Decidable (_ ∨ _))

instance : Std.Symm (Apart (n := n)) := ⟨fun _ _ => Or.symm⟩

/-- The bits of a value that fits. -/
theorem Fits.lt_width {f : Field n} (h : f.Fits) {i : Nat} (hi : f.value.getLsbD i = true) : i < f.width := by
  by_contra hge
  have hpow := Nat.pow_le_pow_right (n := 2) (by decide) (Nat.not_lt.mp hge)
  have hbit : f.value.getLsbD i = false := Nat.testBit_lt_two_pow (Nat.lt_of_lt_of_le h hpow)
  rw [hi] at hbit
  cases hbit

end Field

/-- The values at their places, from the first to the last. -/
def pack (fs : List (Field n)) (w : BitVec n) : BitVec n := fs.foldl (fun w f => w ||| f.value <<< f.lower) w

theorem getLsbD_pack (fs : List (Field n)) (w : BitVec n) (i : Nat) :
    (pack fs w).getLsbD i = true ↔
      w.getLsbD i = true ∨ ∃ f ∈ fs, i < n ∧ f.lower ≤ i ∧ f.value.getLsbD (i - f.lower) = true := by
  induction fs generalizing w with
  | nil => simp [pack]
  | cons f fs ih =>
    rw [pack, List.foldl_cons, ← pack, ih, BitVec.getLsbD_or, BitVec.getLsbD_shiftLeft, List.exists_mem_cons_iff]
    simp [or_assoc, and_assoc]

/-- The order of the values makes no difference. -/
theorem pack_perm {fs gs : List (Field n)} (h : fs.Perm gs) (w : BitVec n) : pack fs w = pack gs w := by
  apply BitVec.eq_of_getLsbD_eq
  intro i _
  rw [Bool.eq_iff_iff, getLsbD_pack, getLsbD_pack]
  simp only [h.mem_iff]

theorem pack_outside {fs : List (Field n)} (hfits : ∀ f ∈ fs, f.Fits) {i : Nat}
    (hout : ∀ f ∈ fs, ¬ (f.lower ≤ i ∧ i ≤ f.upper)) : (pack fs 0).getLsbD i = false := by
  rw [Bool.eq_false_iff]
  intro hbit
  rw [getLsbD_pack] at hbit
  rcases hbit with hzero | ⟨f, hf, _, hlower, hvalue⟩
  · simp at hzero
  · have hwidth := (hfits f hf).lt_width hvalue
    have hordered := f.ordered
    refine hout f hf ⟨hlower, ?_⟩
    unfold Field.width at hwidth
    omega

/-- A range gives its value back. -/
theorem extract_pack {fs : List (Field n)} (hfits : ∀ f ∈ fs, f.Fits) (hapart : fs.Pairwise Field.Apart)
    {f : Field n} (hf : f ∈ fs) : ((pack fs 0).extractLsb' f.lower f.width).toNat = f.value.toNat := by
  apply Nat.eq_of_testBit_eq
  intro i
  rw [BitVec.testBit_toNat, BitVec.testBit_toNat, BitVec.getLsbD_extractLsb', Bool.eq_iff_iff, Bool.and_eq_true,
    decide_eq_true_eq, getLsbD_pack]
  have hordered := f.ordered
  have hinside := f.inside
  constructor
  · rintro ⟨hi, hzero | ⟨g, hg, _, hlower, hvalue⟩⟩
    · simp at hzero
    · have hwidth := (hfits g hg).lt_width hvalue
      have hg' := g.ordered
      by_cases hgf : g = f
      · subst hgf
        rwa [Nat.add_sub_cancel_left] at hvalue
      · -- a bit of `f` would be one of `g`
        have hab : g.Apart f := hapart.forall hg hf hgf
        unfold Field.Apart at hab
        unfold Field.width at hi hwidth
        omega
  · intro hvalue
    have hi := (hfits f hf).lt_width hvalue
    refine ⟨hi, .inr ⟨f, hf, ?_, Nat.le_add_right _ _, ?_⟩⟩
    · unfold Field.width at hi
      omega
    · rwa [Nat.add_sub_cancel_left]

end BitFields
