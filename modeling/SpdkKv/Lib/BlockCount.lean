import Mathlib.Algebra.BigOperators.Group.List.Basic
import Mathlib.Algebra.GroupWithZero.Nat
import Mathlib.Data.Nat.Count

/-!
# Counting in Blocks

How many numbers below a bound have a property, counted block by block: the blocks have one
width, and the numbers of a block are counted from its first one.

## Main results

* `BlockCount.count_mul`: **the count is the sum of those of the blocks**.
* `BlockCount.count_eq_of_le`: numbers that do not have the property do not count.
-/

namespace BlockCount

variable {p q : ℕ → Prop} [DecidablePred p] [DecidablePred q]

/-- Only the numbers below the bound matter. -/
theorem count_congr {bound : ℕ} (h : ∀ k < bound, (p k ↔ q k)) :
    Nat.count p bound = Nat.count q bound :=
  le_antisymm (Nat.count_mono_left fun k hk => (h k hk).mp)
    (Nat.count_mono_left fun k hk => (h k hk).mpr)

/-- **The count is the sum of those of the blocks.** -/
theorem count_mul (p : ℕ → Prop) [DecidablePred p] (blocks width : ℕ) :
    Nat.count p (blocks * width) =
      ((List.range blocks).map fun b => Nat.count (fun k => p (b * width + k)) width).sum := by
  induction blocks with
  | zero => simp
  | succ blocks ih =>
      rw [Nat.succ_mul, Nat.count_add, ih, List.range_succ, List.map_append, List.sum_append,
        List.map_singleton, List.sum_singleton]

/-- Numbers from `bound` on that do not have the property do not count. -/
theorem count_eq_of_le {bound more : ℕ} (h : ∀ k, bound ≤ k → ¬ p k) (hle : bound ≤ more) :
    Nat.count p more = Nat.count p bound := by
  obtain ⟨rest, rfl⟩ := Nat.exists_eq_add_of_le hle
  have hnone : Nat.count (fun k => p (bound + k)) rest = 0 :=
    Nat.count_iff_forall_not.mpr fun k _ => h _ (Nat.le_add_right bound k)
  rw [Nat.count_add, hnone, Nat.add_zero]

end BlockCount
