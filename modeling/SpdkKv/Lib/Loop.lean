import Mathlib.Data.Nat.Basic
import Mathlib.Logic.Relation

/-!
# Loops with a Variant

A `while (true)` loop of an imperative program is a body that either goes round again
with a new state or leaves with a result. `Loop` packages such a body together with a
variant that every further turn decreases, so that a loop which might not end cannot be
built and `Loop.run` is a total function.

## Main results

* `Loop.run_of_again`, `Loop.run_of_done`: the unfolding equations of `Loop.run`.
* `Loop.run_induction`: **the invariant rule** — an invariant of the body gives the
  postcondition of every exit.
* `Loop.run_related`: **two loops in step** — bodies that keep a relation give related results.
* `Loop.exists_last`, `Loop.Visits.last_unique`: the one state in which a loop is left.
* `Loop.run_guarded`: a loop whose turns may fail, when none of them does.
* `Except.foldlM_invariant`: **the invariant rule of a walk over a list** that may stop early.
-/

universe u v u' v'

/-- A loop body over states `σ` with results `ρ`. `Sum.inl` goes round again, `Sum.inr`
leaves; the variant decreases on every further turn. -/
structure Loop (σ : Type u) (ρ : Type v) where
  /-- One turn of the loop. -/
  body : σ → σ ⊕ ρ
  /-- A bound on the turns that remain. -/
  variant : σ → ℕ
  /-- Every further turn decreases the variant. -/
  variant_lt : ∀ {s s' : σ}, body s = Sum.inl s' → variant s' < variant s

namespace Loop

variable {σ : Type u} {ρ : Type v} (L : Loop σ ρ)

/-- The loop with an explicit count of turns that is known to suffice. -/
def runFor : (turns : ℕ) → (s : σ) → L.variant s < turns → ρ
  | 0, _, h => absurd h (Nat.not_lt_zero _)
  | turns + 1, s, h =>
      match hb : L.body s with
      | Sum.inl s' => runFor turns s' (by have := L.variant_lt hb; omega)
      | Sum.inr r => r

/-- The result of the loop from the state `s`. -/
def run (s : σ) : ρ :=
  L.runFor (L.variant s + 1) s (Nat.lt_succ_self _)

/-- The result does not depend on the count of turns it was computed with. -/
theorem runFor_eq {t₁ t₂ : ℕ} {s : σ} (h₁ : L.variant s < t₁) (h₂ : L.variant s < t₂) :
    L.runFor t₁ s h₁ = L.runFor t₂ s h₂ := by
  induction t₁ generalizing t₂ s with
  | zero => exact absurd h₁ (Nat.not_lt_zero _)
  | succ t₁ ih =>
      cases t₂ with
      | zero => exact absurd h₂ (Nat.not_lt_zero _)
      | succ t₂ =>
          rw [runFor, runFor]
          split
          · exact ih _ _
          · rfl

/-- A turn that goes round again leaves the result to the next state. -/
theorem run_of_again {s s' : σ} (h : L.body s = Sum.inl s') : L.run s = L.run s' := by
  rw [run, runFor]
  split
  · next s'' hb =>
      obtain rfl : s' = s'' := Sum.inl.inj (h.symm.trans hb)
      exact L.runFor_eq _ _
  · next r hb => exact absurd (h.symm.trans hb) (by simp)

/-- A turn that leaves gives the result. -/
theorem run_of_done {s : σ} {r : ρ} (h : L.body s = Sum.inr r) : L.run s = r := by
  rw [run, runFor]
  split
  · next s' hb => exact absurd (h.symm.trans hb) (by simp)
  · next r' hb => exact (Sum.inr.inj (h.symm.trans hb)).symm

/-- **The invariant rule.** If every turn from a state with `Inv` either goes round again
with `Inv` or leaves with `Post`, the result of the loop satisfies `Post`. -/
theorem run_induction (Inv : σ → Prop) (Post : ρ → Prop)
    (turn : ∀ s, Inv s → Sum.elim Inv Post (L.body s)) {s : σ} (h : Inv s) :
    Post (L.run s) := by
  induction hv : L.variant s using Nat.strong_induction_on generalizing s with
  | _ k ih =>
      have ht := turn s h
      cases hb : L.body s with
      | inl s' =>
          rw [L.run_of_again hb]
          rw [hb] at ht
          exact ih _ (hv ▸ L.variant_lt hb) ht rfl
      | inr r =>
          rw [L.run_of_done hb]
          rw [hb] at ht
          exact ht

/-- **Two loops in step.** If the bodies take related states to related states, or both leave
with related results, then the loops have related results. -/
theorem run_related {σ' : Type u'} {ρ' : Type v'} (L' : Loop σ' ρ') (S : σ → σ' → Prop)
    (T : ρ → ρ' → Prop) (turn : ∀ s s', S s s' → Sum.LiftRel S T (L.body s) (L'.body s'))
    {s : σ} {s' : σ'} (h : S s s') : T (L.run s) (L'.run s') := by
  induction hv : L.variant s using Nat.strong_induction_on generalizing s s' with
  | _ k ih =>
      have ht := turn s s' h
      cases hb : L.body s with
      | inl t =>
          rw [hb] at ht
          cases hb' : L'.body s' with
          | inl t' =>
              rw [hb'] at ht
              rw [L.run_of_again hb, L'.run_of_again hb']
              exact ih _ (hv ▸ L.variant_lt hb) (Sum.liftRel_inl_inl.mp ht) rfl
          | inr r' =>
              rw [hb'] at ht
              cases ht
      | inr r =>
          rw [hb] at ht
          cases hb' : L'.body s' with
          | inl t' =>
              rw [hb'] at ht
              cases ht
          | inr r' =>
              rw [hb'] at ht
              rw [L.run_of_done hb, L'.run_of_done hb']
              exact Sum.liftRel_inr_inr.mp ht

/-! ### The states of a loop -/

/-- From the first state the loop comes to the second one. -/
def Visits (s t : σ) : Prop := Relation.ReflTransGen (fun a b => L.body a = Sum.inl b) s t

/-- The state in which the loop is left. -/
theorem exists_last (s : σ) : ∃ t, L.Visits s t ∧ L.body t = Sum.inr (L.run s) := by
  induction hv : L.variant s using Nat.strong_induction_on generalizing s with
  | _ k ih =>
      cases hb : L.body s with
      | inl s' =>
          obtain ⟨t, ht, hlast⟩ := ih _ (hv ▸ L.variant_lt hb) s' rfl
          rw [L.run_of_again hb]
          exact ⟨t, .head hb ht, hlast⟩
      | inr r => exact ⟨s, .refl, by rw [L.run_of_done hb, hb]⟩

variable {L}

/-- There is only one. -/
theorem Visits.last_unique {s t t' : σ} {r r' : ρ} (h : L.Visits s t)
    (ht : L.body t = Sum.inr r) (h' : L.Visits s t') (ht' : L.body t' = Sum.inr r') :
    t = t' := by
  have hunique : Relator.RightUnique fun a b => L.body a = Sum.inl b := fun a b c hb hc =>
    Sum.inl.inj (hb.symm.trans hc)
  rcases h.total_of_right_unique hunique h' with hon | hon
  · rcases hon.cases_head with heq | ⟨u, hu, -⟩
    · exact heq
    · exact nomatch ht.symm.trans hu
  · rcases hon.cases_head with heq | ⟨u, hu, -⟩
    · exact heq.symm
    · exact nomatch ht'.symm.trans hu

/-- An invariant of the turns holds in every state that the loop comes to. -/
theorem Visits.invariant {s t : σ} (h : L.Visits s t) (Inv : σ → Prop)
    (turn : ∀ a b, Inv a → L.body a = Sum.inl b → Inv b) (hs : Inv s) : Inv t := by
  induction h with
  | refl => exact hs
  | tail _ hb ih => exact turn _ _ ih hb

/-! ### Turns that may fail -/

/-- A loop whose turns may fail; a turn that succeeds is one of `L`. -/
def guarded (L : Loop σ ρ) (body : σ → Option (σ ⊕ ρ))
    (h : ∀ s x, body s = some x → x = L.body s) : Loop σ (Option ρ) where
  body := fun s =>
    match body s with
    | none => Sum.inr none
    | some (Sum.inl s') => Sum.inl s'
    | some (Sum.inr r) => Sum.inr (some r)
  variant := L.variant
  variant_lt := by
    intro s s' hs
    split at hs
    · cases hs
    · next t ht =>
        obtain rfl := Sum.inl.inj hs
        exact L.variant_lt (h s _ ht).symm
    · cases hs

/-- **When no turn fails**, the loop has the result of the one it guards. -/
theorem run_guarded {body : σ → Option (σ ⊕ ρ)} (h : ∀ s x, body s = some x → x = L.body s)
    (Inv : σ → Prop) (hok : ∀ s, Inv s → body s = some (L.body s))
    (hkeep : ∀ s s', Inv s → L.body s = Sum.inl s' → Inv s') {s : σ} (hs : Inv s) :
    (L.guarded body h).run s = some (L.run s) := by
  induction hv : L.variant s using Nat.strong_induction_on generalizing s with
  | _ k ih =>
      cases hb : L.body s with
      | inl s' =>
          have hguarded : (L.guarded body h).body s = Sum.inl s' := by
            simp only [guarded, hok s hs, hb]
          have hlt := L.variant_lt hb
          rw [run_of_again _ hguarded, run_of_again _ hb]
          exact ih _ (hv ▸ hlt) (hkeep s s' hs hb) rfl
      | inr r =>
          have hguarded : (L.guarded body h).body s = Sum.inr (some r) := by
            simp only [guarded, hok s hs, hb]
          rw [run_of_done _ hguarded, run_of_done _ hb]

end Loop

/-! ### Walks over a list that may stop early -/

/-- **The invariant rule** of a walk: what every turn that goes on keeps holds at the end, and
where the walk stops, what that turn says of the place. -/
theorem Except.foldlM_invariant {α : Type u'} {ε : Type v'} {σ : Type v} (P : σ → Prop)
    (Q : ε → Prop) {f : σ → α → Except ε σ} {as : List α}
    (turn : ∀ a ∈ as, ∀ s, P s → (∀ s', f s a = .ok s' → P s') ∧ ∀ e, f s a = .error e → Q e)
    {s : σ} (hs : P s) :
    (∀ s', as.foldlM f s = .ok s' → P s') ∧ ∀ e, as.foldlM f s = .error e → Q e := by
  induction as generalizing s with
  | nil =>
      refine ⟨fun s' h => ?_, fun e h => (by cases h)⟩
      obtain rfl := Except.ok.inj h
      exact hs
  | cons a as ih =>
      obtain ⟨hok, herror⟩ := turn a List.mem_cons_self s hs
      simp only [List.foldlM_cons]
      cases hstep : f s a with
      | error e =>
          refine ⟨fun s' h => (by cases h), fun e' h => ?_⟩
          obtain rfl := Except.error.inj h
          exact herror e hstep
      | ok t => exact ih (fun b hb => turn b (List.mem_cons_of_mem a hb)) (hok t hstep)
