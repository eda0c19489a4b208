import Mathlib.Order.Lattice
import SpdkKv.Lib.Machine

/-!
# Infinite Runs and Progress

An infinite run of a machine names a label for every step. Some labels make progress in some
states, the others leave alone what matters. When progress decreases a measure and, as long
as nothing is finished, a label that makes progress in the present state comes sooner or
later, the run finishes.

## Main results

* `InfiniteRun.invariant`: an invariant holds in every state of a run.
* `InfiniteRun.exists_of_fair`: **a fair run finishes**.
-/

universe u v w

namespace Machine

variable {σ : Type u} {ι : Type v} {τ : Type w} {M : Machine σ ι}

/-- An infinite run. -/
structure InfiniteRun (M : Machine σ ι) (start : σ) where
  states : ℕ → σ
  labels : ℕ → ι
  first : states 0 = start
  next : ∀ k, M.step (states k) (labels k) = some (states (k + 1))

namespace InfiniteRun

variable {start : σ} (run : M.InfiniteRun start)

/-- An invariant holds in every state of a run. -/
theorem invariant (Inv : σ → Prop) (hstart : Inv start)
    (hstep : ∀ {s i s'}, M.step s i = some s' → Inv s → Inv s') (k : ℕ) :
    Inv (run.states k) := by
  induction k with
  | zero => rwa [run.first]
  | succ k ih => exact hstep (run.next k) ih

variable (core : σ → τ) (progress : τ → ι → Prop)

/-- What matters stays as it is until some step makes progress. -/
theorem core_eq_or_progress
    (hstay : ∀ {s i s'}, M.step s i = some s' → ¬ progress (core s) i → core s' = core s)
    {k j : ℕ} (hkj : k ≤ j) : core (run.states j) = core (run.states k) ∨
      ∃ i, k ≤ i ∧ i < j ∧ core (run.states i) = core (run.states k) ∧
        progress (core (run.states i)) (run.labels i) := by
  induction j, hkj using Nat.le_induction with
  | base => exact .inl rfl
  | succ j hkj ih =>
      rcases ih with hsame | ⟨i, hki, hij, hcore, hprogress⟩
      · by_cases hprogress : progress (core (run.states j)) (run.labels j)
        · exact .inr ⟨j, hkj, Nat.lt_succ_self j, hsame, hprogress⟩
        · exact .inl ((hstay (run.next j) hprogress).trans hsame)
      · exact .inr ⟨i, hki, hij.trans (Nat.lt_succ_self j), hcore, hprogress⟩

/-- **A fair run finishes**: progress decreases the measure, and as long as the run has not
finished, a label comes that makes progress in the present state. -/
theorem exists_of_fair (Inv : σ → Prop) (done : τ → Prop) (measure : τ → ℕ)
    (hinv : ∀ k, Inv (run.states k))
    (hstay : ∀ {s i s'}, M.step s i = some s' → ¬ progress (core s) i → core s' = core s)
    (hless : ∀ {s i s'}, Inv s → M.step s i = some s' → progress (core s) i →
      measure (core s') < measure (core s))
    (hfair : ∀ k, ¬ done (core (run.states k)) →
      ∃ j, k ≤ j ∧ progress (core (run.states k)) (run.labels j)) :
    ∃ k, done (core (run.states k)) := by
  suffices h : ∀ bound k, measure (core (run.states k)) ≤ bound →
      ∃ j, done (core (run.states j)) from h _ 0 le_rfl
  intro bound
  induction bound using Nat.strong_induction_on with
  | _ bound ih =>
      intro k hk
      by_cases hdone : done (core (run.states k))
      · exact ⟨k, hdone⟩
      · -- the next step that makes progress decreases the measure
        have hnext : ∃ i, core (run.states i) = core (run.states k) ∧
            progress (core (run.states i)) (run.labels i) := by
          obtain ⟨j, hkj, hj⟩ := hfair k hdone
          rcases run.core_eq_or_progress core progress hstay hkj with hsame | ⟨i, -, -, hcore, hi⟩
          · exact ⟨j, hsame, by rwa [hsame]⟩
          · exact ⟨i, hcore, hi⟩
        obtain ⟨i, hcore, hi⟩ := hnext
        have hlt := hless (hinv i) (run.next i) hi
        rw [hcore] at hlt
        exact ih _ (hlt.trans_le hk) (i + 1) le_rfl

end InfiniteRun

end Machine
