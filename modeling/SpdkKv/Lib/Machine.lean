import Mathlib.Data.List.Basic

/-!
# Machines and Their Runs

A machine is a partial step function over states and labels; the labels carry every choice
of the environment (which operation is issued, which completion fires next), so a run is
determined by its list of labels. `Meets` says that every step of a run is taken in a state
that meets a condition.

## Main results

* `Machine.run_append`: runs compose.
* `Machine.run_invariant`: **the invariant rule** — a property kept by every step that meets
  the condition holds at the end of every run whose steps meet it.
* `Machine.always_iff_meets`, `Machine.always_iff_meets_of_breaks`: when a property holds in
  every state of a run.
* `Machine.Refines.run_invariant`: **the invariant rule across a refinement** — when every
  step of a machine is a run of a more abstract one, an invariant of the abstract machine
  holds of what the abstract machine sees at the end of every run.
* `Machine.meets_of_invariant`: a condition that another one implies under an invariant.
* `Machine.Leads.next`: a run that leads somewhere, one step at a time.
* `Machine.meets_of_watched`: a condition on what is remembered of a run implies one on its
  states.
-/

universe u v w z

/-- A machine: from a state, a label either is not enabled or leads to the next state. -/
structure Machine (σ : Type u) (ι : Type v) where
  /-- The step function. -/
  step : σ → ι → Option σ

namespace Machine

variable {σ : Type u} {ι : Type v} (M : Machine σ ι)

/-- The state at the end of a run, if every label was enabled. -/
def run : σ → List ι → Option σ
  | s, [] => some s
  | s, i :: is => (M.step s i).bind fun s' => run s' is

/-- Every step of the run is taken in a state that meets `cond`. -/
def Meets (cond : σ → ι → Prop) : σ → List ι → Prop
  | _, [] => True
  | s, i :: is => cond s i ∧ ∀ s', M.step s i = some s' → Meets cond s' is

/-- The property holds in every state that the run passes through. -/
def Always (P : σ → Prop) : σ → List ι → Prop
  | s, [] => P s
  | s, i :: is => P s ∧ ∀ s', M.step s i = some s' → Always P s' is

@[simp] theorem run_nil (s : σ) : M.run s [] = some s := rfl

/-- A run of one step. -/
theorem run_singleton (s : σ) (i : ι) : M.run s [i] = M.step s i := by
  rw [run]
  cases M.step s i <;> rfl

theorem run_cons_eq_some_iff {s t : σ} {i : ι} {is : List ι} :
    M.run s (i :: is) = some t ↔ ∃ s', M.step s i = some s' ∧ M.run s' is = some t := by
  rw [run, Option.bind_eq_some_iff]

/-- Every run meets a condition that always holds. -/
theorem meets_of_forall {cond : σ → ι → Prop} (h : ∀ s i, cond s i) {s : σ} {is : List ι} :
    M.Meets cond s is := by
  induction is generalizing s with
  | nil => trivial
  | cons i is ih => exact ⟨h s i, fun _ _ => ih⟩

/-- A run meets a condition when its first step does and the rest of the run does. -/
theorem Meets.cons {cond : σ → ι → Prop} {s s' : σ} {i : ι} {is : List ι} (hc : cond s i)
    (hs : M.step s i = some s') (h : M.Meets cond s' is) : M.Meets cond s (i :: is) :=
  ⟨hc, fun t ht => by rwa [← Option.some.inj (hs.symm.trans ht)]⟩

/-- Whether a run meets a condition can be computed along the run. -/
instance decidableMeets {cond : σ → ι → Prop} [∀ s i, Decidable (cond s i)] :
    ∀ (s : σ) (is : List ι), Decidable (M.Meets cond s is)
  | _, [] => .isTrue trivial
  | s, i :: is =>
      match h : M.step s i with
      | none => decidable_of_iff (cond s i)
          ⟨fun hc => ⟨hc, fun s' hs => absurd (h.symm.trans hs) nofun⟩, fun hm => hm.1⟩
      | some s' =>
          have : Decidable (M.Meets cond s' is) := decidableMeets s' is
          decidable_of_iff (cond s i ∧ M.Meets cond s' is)
            ⟨fun hc => ⟨hc.1, fun t ht => by rw [← Option.some.inj (h.symm.trans ht)]; exact hc.2⟩,
              fun hm => ⟨hm.1, hm.2 s' h⟩⟩

/-- Runs compose. -/
theorem run_append {s : σ} {is js : List ι} :
    M.run s (is ++ js) = (M.run s is).bind fun s' => M.run s' js := by
  induction is generalizing s with
  | nil => rfl
  | cons i is ih =>
      rw [List.cons_append, run, run, Option.bind_assoc]
      exact Option.bind_congr fun s' _ => ih

/-- **The invariant rule** for runs whose steps meet a condition. -/
theorem run_invariant (Inv : σ → Prop) {cond : σ → ι → Prop}
    (step : ∀ s i s', Inv s → cond s i → M.step s i = some s' → Inv s')
    {s t : σ} {is : List ι} (h : Inv s) (hc : M.Meets cond s is)
    (hr : M.run s is = some t) : Inv t := by
  induction is generalizing s with
  | nil =>
      obtain rfl := Option.some.inj hr
      exact h
  | cons i is ih =>
      obtain ⟨s', hs, hr'⟩ := M.run_cons_eq_some_iff.mp hr
      exact ih (step s i s' h hc.1 hs) (hc.2 s' hs) hr'

theorem Always.head {P : σ → Prop} {s : σ} {is : List ι} (h : M.Always P s is) : P s := by
  cases is with
  | nil => exact h
  | cons i is => exact h.1

/-- **When a property always holds**, along a run whose steps are admitted: if under an
invariant it says of every next state that the step met a condition, then it holds all along
the run exactly when all steps meet the condition. -/
theorem always_iff_meets_of {P Inv : σ → Prop} {admitted cond : σ → ι → Prop}
    (keeps : ∀ s i s', Inv s → admitted s i → M.step s i = some s' → Inv s')
    (step : ∀ s i s', Inv s → P s → admitted s i → M.step s i = some s' → (P s' ↔ cond s i))
    (enabled : ∀ s i, M.step s i = none → cond s i)
    {s : σ} {is : List ι} (ha : M.Meets admitted s is) (hi : Inv s) (hp : P s) :
    M.Always P s is ↔ M.Meets cond s is := by
  induction is generalizing s with
  | nil => exact iff_of_true hp trivial
  | cons i is ih =>
      rw [Always, Meets, and_iff_right hp]
      cases hs : M.step s i with
      | none => exact iff_of_true nofun ⟨enabled s i hs, nofun⟩
      | some s' =>
          have hiff := step s i s' hi hp ha.1 hs
          have hi' := keeps s i s' hi ha.1 hs
          refine ⟨fun h => ⟨hiff.mp (h s' rfl).head, fun t ht => ?_⟩, fun h t ht => ?_⟩
          · obtain rfl := Option.some.inj ht
            exact (ih (ha.2 s' hs) hi' (h s' rfl).head).mp (h s' rfl)
          · obtain rfl := Option.some.inj ht
            exact (ih (ha.2 s' hs) hi' (hiff.mpr h.1)).mpr (h.2 s' rfl)

/-- When a property always holds, along any run. -/
theorem always_iff_meets {P Inv : σ → Prop} {cond : σ → ι → Prop}
    (keeps : ∀ s i s', Inv s → M.step s i = some s' → Inv s')
    (step : ∀ s i s', Inv s → P s → M.step s i = some s' → (P s' ↔ cond s i))
    (enabled : ∀ s i, M.step s i = none → cond s i)
    {s : σ} {is : List ι} (hi : Inv s) (hp : P s) :
    M.Always P s is ↔ M.Meets cond s is :=
  M.always_iff_meets_of (fun s i s' hs (_ : True) => keeps s i s' hs)
    (fun s i s' hs hp _ => step s i s' hs hp) enabled (M.meets_of_forall fun _ _ => trivial) hi hp

/-- **When a property always holds**, by an invariant of the steps that meet the condition, if
every other step breaks the property. -/
theorem always_iff_meets_of_breaks (Inv : σ → Prop) {P : σ → Prop} {cond : σ → ι → Prop}
    (holds : ∀ s, Inv s → P s)
    (keeps : ∀ s i s', Inv s → cond s i → M.step s i = some s' → Inv s')
    (breaks : ∀ s i s', Inv s → ¬ cond s i → M.step s i = some s' → ¬ P s')
    (enabled : ∀ s i, M.step s i = none → cond s i)
    {s : σ} {is : List ι} (hi : Inv s) : M.Always P s is ↔ M.Meets cond s is := by
  induction is generalizing s with
  | nil => exact iff_of_true (holds s hi) trivial
  | cons i is ih =>
      rw [Always, Meets, and_iff_right (holds s hi)]
      by_cases hc : cond s i
      · rw [and_iff_right hc]
        exact forall₂_congr fun s' hs => ih (keeps s i s' hi hc hs)
      · refine iff_of_false (fun h => ?_) fun h => hc h.1
        cases hs : M.step s i with
        | none => exact hc (enabled s i hs)
        | some s' => exact breaks s i s' hi hc hs (h s' hs).head

/-- The invariant rule for all runs. -/
theorem run_invariant_of_step (Inv : σ → Prop)
    (step : ∀ s i s', Inv s → M.step s i = some s' → Inv s')
    {s t : σ} {is : List ι} (h : Inv s) (hr : M.run s is = some t) : Inv t :=
  M.run_invariant Inv (fun s i s' hs (_ : True) => step s i s' hs) h
    (M.meets_of_forall fun _ _ => trivial) hr

/-- **A condition that another one implies**, under an invariant of the steps that meet it. -/
theorem meets_of_invariant (Inv : σ → Prop) {admitted cond : σ → ι → Prop}
    (keeps : ∀ s i s', Inv s → admitted s i → M.step s i = some s' → Inv s')
    (imp : ∀ s i, Inv s → admitted s i → cond s i)
    {s : σ} {is : List ι} (hi : Inv s) (ha : M.Meets admitted s is) : M.Meets cond s is := by
  induction is generalizing s with
  | nil => trivial
  | cons i is ih =>
      exact ⟨imp s i hi ha.1, fun s' hs => ih (keeps s i s' hi ha.1 hs) (ha.2 s' hs)⟩

/-! ### Runs that lead somewhere -/

/-- From the state, some run whose steps meet `cond` leads to a state with `Q`. -/
def Leads (cond : σ → ι → Prop) (Q : σ → Prop) (s : σ) : Prop :=
  ∃ is t, M.Meets cond s is ∧ M.run s is = some t ∧ Q t

variable {cond : σ → ι → Prop} {Q : σ → Prop} {s : σ}

/-- The run of no step. -/
theorem Leads.here (h : Q s) : M.Leads cond Q s := ⟨[], s, trivial, rfl, h⟩

/-- A step in front of a run. -/
theorem Leads.next (i : ι) (s' : σ) (hc : cond s i) (hs : M.step s i = some s')
    (h : M.Leads cond Q s') : M.Leads cond Q s := by
  obtain ⟨is, t, hmeets, hrun, hq⟩ := h
  exact ⟨i :: is, t, hmeets.cons M hc hs, M.run_cons_eq_some_iff.mpr ⟨s', hs, hrun⟩, hq⟩

/-! ### Watching -/

/-- The machine together with a memory that its steps may change. -/
def watched {η : Type w} (watch : σ → ι → η → η) : Machine (σ × η) ι where
  step p i := (M.step p.1 i).map fun s' => (s', watch p.1 i p.2)

variable {M}

theorem watched_step {η : Type w} {watch : σ → ι → η → η} {s s' : σ} {i : ι} {h : η}
    (hs : M.step s i = some s') : (M.watched watch).step (s, h) i = some (s', watch s i h) := by
  rw [watched]
  dsimp only
  rw [hs]
  rfl

/-- Every run can be watched. -/
theorem exists_run_watched {η : Type w} {watch : σ → ι → η → η} {s t : σ} {is : List ι} {h : η}
    (hr : M.run s is = some t) : ∃ h', (M.watched watch).run (s, h) is = some (t, h') := by
  induction is generalizing s h with
  | nil => exact ⟨h, congrArg (fun t => some (t, h)) (Option.some.inj hr)⟩
  | cons i is ih =>
      obtain ⟨s', hs, hr'⟩ := M.run_cons_eq_some_iff.mp hr
      obtain ⟨h', hrun⟩ := ih (h := watch s i h) hr'
      exact ⟨h', (M.watched watch).run_cons_eq_some_iff.mpr ⟨_, watched_step hs, hrun⟩⟩

/-- **A condition on what is remembered implies one on the states**, if it does so for every
step under an invariant. -/
theorem meets_of_watched {η : Type w} {watch : σ → ι → η → η} (Inv : σ × η → Prop)
    {cond : σ × η → ι → Prop} {good : σ → ι → Prop}
    (step : ∀ p i p', Inv p → cond p i → (M.watched watch).step p i = some p' → Inv p')
    (good_of : ∀ p i, Inv p → cond p i → good p.1 i)
    {s : σ} {h : η} {is : List ι} (hi : Inv (s, h))
    (hc : (M.watched watch).Meets cond (s, h) is) : M.Meets good s is := by
  induction is generalizing s h with
  | nil => trivial
  | cons i is ih =>
      refine ⟨good_of _ i hi hc.1, fun s' hs => ?_⟩
      exact ih (step _ i _ hi hc.1 (watched_step hs)) (hc.2 _ (watched_step hs))

/-! ### Refinement -/

variable {τ : Type w} {κ : Type z}

/-- Every step of `M` from a state with the invariant keeps the invariant and is, as seen
through `view`, the run `acts` of `N`. -/
structure Refines (M : Machine σ ι) (N : Machine τ κ) (view : σ → τ)
    (acts : σ → ι → List κ) (Inv : σ → Prop) : Prop where
  keeps : ∀ s i s', Inv s → M.step s i = some s' → Inv s'
  run_acts : ∀ s i s', Inv s → M.step s i = some s' →
    N.run (view s) (acts s i) = some (view s')

/-- **The invariant rule across a refinement.** -/
theorem Refines.run_invariant {N : Machine τ κ} {view : σ → τ} {acts : σ → ι → List κ}
    {Inv : σ → Prop} (h : M.Refines N view acts Inv) (P : τ → Prop) {cond : τ → κ → Prop}
    (step : ∀ a k a', P a → cond a k → N.step a k = some a' → P a')
    {s t : σ} {is : List ι} (hi : Inv s) (hp : P (view s))
    (hc : M.Meets (fun s i => N.Meets cond (view s) (acts s i)) s is)
    (hr : M.run s is = some t) : Inv t ∧ P (view t) := by
  refine M.run_invariant (fun s => Inv s ∧ P (view s)) ?_ ⟨hi, hp⟩ hc hr
  rintro s i s' ⟨hi, hp⟩ hc hs
  exact ⟨h.keeps s i s' hi hs, N.run_invariant P step hp hc (h.run_acts s i s' hi hs)⟩

end Machine
