import Mathlib.Data.List.Nodup
import Mathlib.Data.List.Perm.Subperm

/-!
# Numbered Tables

A table whose entries get consecutive numbers from a counter. Entries are added at the end;
an entry is pending for a while, and the last one can be taken back as long as it is.

## Main results

* `NumberedTable`: the numbers are distinct and below the counter, and from a pending entry on
  the numbers are consecutive.
* `NumberedTable.push`, `NumberedTable.pop`: **adding an entry and taking back the last one keep
  this**.
-/

/-- The numbers of the entries, the counter, and the places of the pending entries. -/
structure NumberedTable (numbers : List ℕ) (next : ℕ) (pending : List ℕ) : Prop where
  nodup : numbers.Nodup
  lt : ∀ x ∈ numbers, x < next
  pending_nodup : pending.Nodup
  consecutive : ∀ i ∈ pending, i < numbers.length ∧
    ∀ x, numbers[i]? = some x → x + (numbers.length - i) = next

namespace NumberedTable

variable {numbers : List ℕ} {next : ℕ} {pending pending' : List ℕ}

/-- Fewer entries are pending. -/
theorem mono (h : NumberedTable numbers next pending) (hsub : pending'.Subperm pending) :
    NumberedTable numbers next pending' where
  nodup := h.nodup
  lt := h.lt
  pending_nodup := by
    obtain ⟨l, hperm, hsublist⟩ := hsub
    exact hperm.nodup (h.pending_nodup.sublist hsublist)
  consecutive := fun i hi => h.consecutive i (hsub.subset hi)

/-- An entry is added at the end. -/
theorem push (h : NumberedTable numbers next pending) :
    NumberedTable (numbers ++ [next]) (next + 1) (numbers.length :: pending) where
  nodup := by
    refine List.nodup_append'.mpr ⟨h.nodup, List.nodup_singleton _, fun x hx hnext => ?_⟩
    rw [List.mem_singleton.mp hnext] at hx
    exact Nat.lt_irrefl _ (h.lt _ hx)
  lt := by
    intro x hx
    rcases List.mem_append.mp hx with hx | hx
    · exact Nat.lt_succ_of_lt (h.lt x hx)
    · rw [List.mem_singleton.mp hx]
      exact Nat.lt_succ_self _
  pending_nodup :=
    List.nodup_cons.mpr ⟨fun hin => Nat.lt_irrefl _ (h.consecutive _ hin).1, h.pending_nodup⟩
  consecutive := by
    intro i hi
    rw [List.length_append, List.length_singleton]
    rcases List.mem_cons.mp hi with rfl | hi
    · refine ⟨Nat.lt_succ_self _, fun x hx => ?_⟩
      rw [List.getElem?_concat_length] at hx
      obtain rfl := Option.some.inj hx
      omega
    · obtain ⟨hlt, hconsecutive⟩ := h.consecutive i hi
      refine ⟨Nat.lt_succ_of_lt hlt, fun x hx => ?_⟩
      rw [List.getElem?_append_left hlt] at hx
      have := hconsecutive x hx
      omega

/-- The number of a pending entry at the end is the one before the counter. -/
theorem last (h : NumberedTable numbers next pending) {i x : ℕ} (hi : i ∈ pending)
    (hlast : i + 1 = numbers.length) (hx : numbers[i]? = some x) : x + 1 = next := by
  have := (h.consecutive i hi).2 x hx
  omega

/-- A pending entry at the end is taken back. -/
theorem pop (h : NumberedTable numbers next pending) {i : ℕ} (hi : i ∈ pending)
    (hlast : i + 1 = numbers.length) :
    NumberedTable numbers.dropLast (next - 1) (pending.erase i) where
  nodup := h.nodup.sublist (List.dropLast_sublist _)
  lt := by
    intro x hx
    obtain ⟨last, hnumber⟩ : ∃ last, numbers[i]? = some last :=
      ⟨_, List.getElem?_eq_getElem (h.consecutive i hi).1⟩
    have hnext := h.last hi hlast hnumber
    have hlt := h.lt x (List.dropLast_subset _ hx)
    have hne : x ≠ last := by
      rintro rfl
      obtain ⟨j, hj, hjx⟩ := List.mem_iff_getElem.mp hx
      rw [List.length_dropLast] at hj
      rw [List.getElem_dropLast] at hjx
      obtain ⟨hi', hix⟩ := List.getElem?_eq_some_iff.mp hnumber
      have := (h.nodup.getElem_inj_iff).mp (hjx.trans hix.symm)
      omega
    omega
  pending_nodup := h.pending_nodup.erase i
  consecutive := by
    intro j hj
    obtain ⟨hne, hj⟩ := (h.pending_nodup.mem_erase_iff).mp hj
    obtain ⟨hlt, hconsecutive⟩ := h.consecutive j hj
    rw [List.length_dropLast]
    refine ⟨by omega, fun x hx => ?_⟩
    rw [List.getElem?_dropLast] at hx
    split_ifs at hx with hjlt
    have := hconsecutive x hx
    omega

/-- Two entries with the same number are the same. -/
theorem eq_of_getElem? (h : NumberedTable numbers next pending) {i j x : ℕ}
    (hi : numbers[i]? = some x) (hj : numbers[j]? = some x) : i = j := by
  obtain ⟨hi, hix⟩ := List.getElem?_eq_some_iff.mp hi
  obtain ⟨hj, hjx⟩ := List.getElem?_eq_some_iff.mp hj
  exact (h.nodup.getElem_inj_iff).mp (hix.trans hjx.symm)

end NumberedTable
