import Mathlib.Data.Nat.Basic

/-!
# Loops that May Not End

A `while (true)` loop for which no variant is known: `stateAt` gives the state with which a
turn begins, as long as the loop has not been left, and `Returns` says that the loop is left
with a result.

## Main results

* `Turns.Returns.unique`: a loop has at most one result.
-/

universe u v

namespace Turns

variable {σ : Type u} {ρ : Type v} (body : σ → σ ⊕ ρ) (s : σ)

/-- The state at the beginning of the turn with the given number. -/
def stateAt : ℕ → Option σ
  | 0 => some s
  | k + 1 => (stateAt k).bind fun t => (body t).getLeft?

/-- The loop is left with the result `r`. -/
def Returns (r : ρ) : Prop := ∃ k t, stateAt body s k = some t ∧ body t = Sum.inr r

variable {body s}

/-- A turn that goes round again begins the next one. -/
theorem stateAt_of_again {k : ℕ} {t t' : σ} (h : stateAt body s k = some t)
    (hb : body t = Sum.inl t') : stateAt body s (k + 1) = some t' := by
  rw [stateAt, h, Option.bind_some, hb, Sum.getLeft?_inl]

/-- No turn follows one that leaves the loop. -/
theorem stateAt_of_done {k : ℕ} {t : σ} {r : ρ} (h : stateAt body s k = some t)
    (hb : body t = Sum.inr r) : stateAt body s (k + 1) = none := by
  rw [stateAt, h, Option.bind_some, hb, Sum.getLeft?_inr]

/-- A turn begins where the one before it went round again. -/
theorem stateAt_succ {k : ℕ} {t' : σ} (h : stateAt body s (k + 1) = some t') :
    ∃ t, stateAt body s k = some t ∧ body t = Sum.inl t' := by
  rw [stateAt] at h
  obtain ⟨t, ht, hb⟩ := Option.bind_eq_some_iff.mp h
  refine ⟨t, ht, ?_⟩
  cases hbody : body t with
  | inl t'' =>
      rw [hbody, Sum.getLeft?_inl] at hb
      rw [Option.some.inj hb]
  | inr r => rw [hbody, Sum.getLeft?_inr] at hb; cases hb

/-- No turn begins after one that does not. -/
theorem stateAt_none_of_le {j k : ℕ} (h : stateAt body s j = none) (hjk : j ≤ k) :
    stateAt body s k = none := by
  induction k, hjk using Nat.le_induction with
  | base => exact h
  | succ k _ ih => rw [stateAt, ih, Option.bind_none]

/-- **A loop has at most one result.** -/
theorem Returns.unique {r r' : ρ} (h : Returns body s r) (h' : Returns body s r') : r = r' := by
  obtain ⟨k, t, hk, hr⟩ := h
  obtain ⟨k', t', hk', hr'⟩ := h'
  rcases Nat.lt_trichotomy k k' with hlt | rfl | hgt
  · rw [stateAt_none_of_le (stateAt_of_done hk hr) hlt] at hk'
    cases hk'
  · obtain rfl := Option.some.inj (hk.symm.trans hk')
    exact Sum.inr.inj (hr.symm.trans hr')
  · rw [stateAt_none_of_le (stateAt_of_done hk' hr') hgt] at hk
    cases hk

end Turns
