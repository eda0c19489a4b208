import Mathlib.Algebra.GroupWithZero.Nat
import Mathlib.Data.Nat.Size

/-!
# Filling the Bits below the Highest One

`x ||| x >>> 1`, then with a shift by 2, by 4 and so on: after the shift by `w / 2` a number
below `2 ^ w` has every bit below its highest one.

## Main results

* `FilledBy.double`: one step doubles the reach.
* `FilledBy.eq_two_pow_sub_one`: **what the steps lead to**.
-/

namespace BitFill

/-- `y` has the bits of `x` and of its shifts by less than `w`. -/
def FilledBy (w x y : ℕ) : Prop :=
  ∀ i, y.testBit i = true ↔ ∃ j < w, x.testBit (i + j) = true

variable {w x y : ℕ}

theorem FilledBy.one (x : ℕ) : FilledBy 1 x x := by
  intro i
  constructor
  · exact fun h => ⟨0, Nat.one_pos, h⟩
  · rintro ⟨j, hj, h⟩
    obtain rfl := Nat.lt_one_iff.mp hj
    exact h

/-- One step doubles the reach. -/
theorem FilledBy.double (h : FilledBy w x y) : FilledBy (w + w) x (y ||| y >>> w) := by
  intro i
  rw [Nat.testBit_or, Nat.testBit_shiftRight, Bool.or_eq_true, h i, h (w + i)]
  constructor
  · rintro (⟨j, hj, hx⟩ | ⟨j, hj, hx⟩)
    · exact ⟨j, by omega, hx⟩
    · refine ⟨w + j, by omega, ?_⟩
      rwa [← Nat.add_assoc, Nat.add_comm i w]
  · rintro ⟨j, hj, hx⟩
    by_cases hlt : j < w
    · exact Or.inl ⟨j, hlt, hx⟩
    · refine Or.inr ⟨j - w, by omega, ?_⟩
      rwa [show w + i + (j - w) = i + j by omega]

/-- **What the steps lead to**: all bits below the size of the number. -/
theorem FilledBy.eq_two_pow_sub_one (h : FilledBy w x y) (hx : x < 2 ^ w) :
    y = 2 ^ x.size - 1 := by
  refine Nat.eq_of_testBit_eq fun i => ?_
  rw [Nat.testBit_two_pow_sub_one, Bool.eq_iff_iff, h i, decide_eq_true_eq, Nat.lt_size]
  constructor
  · rintro ⟨j, -, hbit⟩
    have hle : 2 ^ i ≤ 2 ^ (i + j) := Nat.pow_le_pow_right Nat.two_pos (Nat.le_add_right i j)
    exact Nat.le_trans hle (Nat.ge_two_pow_of_testBit hbit)
  · intro hle
    obtain ⟨k, hk, hbit⟩ := Nat.exists_ge_and_testBit_of_ge_two_pow hle
    have hpow : 2 ^ k < 2 ^ w := Nat.lt_of_le_of_lt (Nat.ge_two_pow_of_testBit hbit) hx
    have hlt : k < w := (Nat.pow_lt_pow_iff_right Nat.one_lt_two).mp hpow
    exact ⟨k - i, by omega, by rwa [Nat.add_sub_cancel' hk]⟩

end BitFill
