import Mathlib.Data.List.GetD

/-!
# Packing a List

The values of a list that are kept move to its front, in their order, and a filler takes the
places behind them. Nothing moves exactly when no kept value has a dropped one in front of it.

## Main results

* `packed_eq_self_iff`: **when packing leaves a list alone**.
-/

namespace Packing

variable {α : Type*} (keep : α → Bool) (z : α)

/-- The kept values, and the filler behind them. -/
def packed (xs : List α) : List α :=
  xs.filter keep ++ List.replicate (xs.length - (xs.filter keep).length) z

@[simp] theorem length_packed (xs : List α) : (packed keep z xs).length = xs.length := by
  rw [packed, List.length_append, List.length_replicate]
  exact Nat.add_sub_of_le (List.length_filter_le keep xs)

/-- A place behind the kept values has the filler. -/
theorem getD_packed (xs : List α) (k : ℕ) :
    (packed keep z xs).getD k z = (xs.filter keep).getD k z := by
  rcases Nat.lt_or_ge k (xs.filter keep).length with hlt | hge
  · exact List.getD_append _ _ _ _ hlt
  · rw [packed, List.getD_append_right _ _ _ _ hge, List.getD_eq_default _ _ hge]
    rw [List.getD_eq_getElem?_getD, List.getElem?_getD_replicate_default_eq]

variable {keep z}

/-- A kept value at the front stays there. -/
theorem packed_cons_of_keep {x : α} (hx : keep x = true) (xs : List α) :
    packed keep z (x :: xs) = x :: packed keep z xs := by
  rw [packed, packed, List.filter_cons_of_pos hx, List.length_cons, List.length_cons,
    Nat.add_sub_add_right, List.cons_append]

/-- Nothing moves to the front where nothing is kept. -/
theorem packed_of_forall_dropped {xs : List α} (h : ∀ x ∈ xs, keep x = false) :
    packed keep z xs = List.replicate xs.length z := by
  have hnil : xs.filter keep = [] := List.filter_eq_nil_iff.mpr fun x hx => by
    simp only [h x hx, Bool.false_eq_true, not_false_eq_true]
  rw [packed, hnil, List.nil_append, List.length_nil, Nat.sub_zero]

/-- **When packing leaves a list alone**: what it drops is the filler already, and stands behind
all that it keeps. -/
theorem packed_eq_self_iff {xs : List α} (hz : ∀ x ∈ xs, keep x = false → x = z) :
    packed keep z xs = xs ↔ xs.Pairwise fun a b => keep b = true → keep a = true := by
  induction xs with
  | nil => exact iff_of_true rfl List.Pairwise.nil
  | cons x xs ih =>
      have hz' : ∀ y ∈ xs, keep y = false → y = z :=
        fun y hy => hz y (List.mem_cons_of_mem _ hy)
      rw [List.pairwise_cons]
      cases hx : keep x with
      | true =>
          rw [packed_cons_of_keep hx, List.cons_inj_right, ih hz']
          exact ⟨fun h => ⟨fun _ _ _ => rfl, h⟩, And.right⟩
      | false =>
          constructor
          · intro h
            -- the first kept value would move to the place of the dropped one
            have hnone : ∀ y ∈ xs, keep y = false := by
              intro y hy
              refine Bool.eq_false_iff.mpr fun hkeep => ?_
              cases hfilter : (x :: xs).filter keep with
              | nil =>
                  have hdrop := List.filter_eq_nil_iff.mp hfilter y (List.mem_cons_of_mem _ hy)
                  exact hdrop hkeep
              | cons first rest =>
                  rw [packed, hfilter, List.cons_append] at h
                  have hfirst : first ∈ (x :: xs).filter keep := hfilter ▸ List.mem_cons_self
                  rw [(List.cons.inj h).1, List.mem_filter, hx] at hfirst
                  exact absurd hfirst.2 Bool.false_ne_true
            refine ⟨fun y hy hk => absurd (hnone y hy) (by rw [hk]; exact Bool.noConfusion), ?_⟩
            exact List.pairwise_of_forall_mem_list fun y _ w hw hk =>
              absurd (hnone w hw) (by rw [hk]; exact Bool.noConfusion)
          · rintro ⟨hfirst, -⟩
            have hnone : ∀ y ∈ x :: xs, keep y = false := by
              rintro y hy
              rcases List.mem_cons.mp hy with rfl | hy
              · exact hx
              · exact Bool.eq_false_iff.mpr fun hk => Bool.false_ne_true (hfirst y hy hk)
            rw [packed_of_forall_dropped hnone]
            exact (List.eq_replicate_iff.mpr ⟨rfl, fun y hy => hz y hy (hnone y hy)⟩).symm

end Packing
