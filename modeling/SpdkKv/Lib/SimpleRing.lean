import Mathlib.Algebra.GroupWithZero.Nat
import Mathlib.Data.Fin.Basic
import Mathlib.Data.List.Basic
import Mathlib.Logic.Function.Basic

/-!
# Rings

A ring keeps a bounded queue in an array of `n` cells, between the index that the next element
is taken from and the one that it is put at. When both are equal the ring is empty, so one
cell stays unused.

## Main results

* `SimpleRing.toList_enqueue`, `SimpleRing.toList_of_dequeue`: **a ring is a queue** of fewer
  than `n` elements.
-/

universe u

/-- A ring of `n` cells. -/
structure SimpleRing (α : Type u) (n : ℕ) where
  cells : Fin n → α
  head : Fin n
  tail : Fin n

namespace SimpleRing

variable {α : Type u} {n : ℕ} (r : SimpleRing α n)

/-- Number of elements. -/
def count : ℕ := if r.tail ≤ r.head then r.head - r.tail else n - r.tail + r.head

theorem count_lt : r.count < n := by
  have hhead := r.head.isLt
  have htail := r.tail.isLt
  rw [count]
  split_ifs with hle <;> rw [Fin.le_def] at hle <;> omega

/-- The head lies behind the elements. -/
theorem head_val : r.head.val = (r.tail.val + r.count) % n := by
  have hhead := r.head.isLt
  have htail := r.tail.isLt
  rw [count]
  split_ifs with hle <;> rw [Fin.le_def] at hle
  · rw [Nat.mod_eq_of_lt] <;> omega
  · rw [show r.tail.val + (n - r.tail.val + r.head.val) = r.head.val + n by omega,
      Nat.add_mod_right, Nat.mod_eq_of_lt hhead]

theorem tail_eq_head_iff : r.tail = r.head ↔ r.count = 0 := by
  have hhead := r.head.isLt
  have htail := r.tail.isLt
  rw [Fin.ext_iff, count]
  split_ifs with hle <;> rw [Fin.le_def] at hle <;> omega

variable [NeZero n]

/-- A ring without elements; the array holds anything. -/
def empty [Inhabited α] : SimpleRing α n := ⟨fun _ => default, 0, 0⟩

/-- The index after another one. -/
def next (i : Fin n) : Fin n := Fin.ofNat n (i.val + 1)

/-- An element is put at the head; the flag says whether there was room. -/
def enqueue (x : α) : SimpleRing α n × Bool :=
  if next r.head = r.tail then (r, false)
  else ({ r with cells := Function.update r.cells r.head x, head := next r.head }, true)

/-- An element is taken from the tail. -/
def dequeue : Option (α × SimpleRing α n) :=
  if r.tail = r.head then none else some (r.cells r.tail, { r with tail := next r.tail })

/-- The elements, the oldest first. -/
def toList : List α := (List.range r.count).map fun i => r.cells (Fin.ofNat n (r.tail.val + i))

@[simp] theorem length_toList : r.toList.length = r.count := by
  rw [toList, List.length_map, List.length_range]

theorem next_val (i : Fin n) : (next i).val = if i.val + 1 = n then 0 else i.val + 1 := by
  have hi := i.isLt
  rw [next, Fin.val_ofNat]
  split_ifs with hlast
  · rw [hlast, Nat.mod_self]
  · exact Nat.mod_eq_of_lt (by omega)

/-- The ring is full when only one cell is left. -/
theorem next_head_eq_tail_iff : next r.head = r.tail ↔ r.count + 1 = n := by
  have hhead := r.head.isLt
  have htail := r.tail.isLt
  rw [Fin.ext_iff, next_val, count]
  split_ifs with hlast hle hle <;> rw [Fin.le_def] at hle <;> omega

@[simp] theorem toList_empty [Inhabited α] : (empty : SimpleRing α n).toList = [] := by
  have hcount : (empty : SimpleRing α n).count = 0 := by simp [count, empty]
  rw [toList, hcount]
  rfl

theorem toList_eq_nil_iff : r.toList = [] ↔ r.tail = r.head := by
  rw [← List.length_eq_zero_iff, length_toList, tail_eq_head_iff]

/-! ### A ring is a queue -/

/-- A full ring refuses the element, ... -/
theorem enqueue_of_full (x : α) (h : r.count + 1 = n) : r.enqueue x = (r, false) := by
  rw [enqueue, if_pos (r.next_head_eq_tail_iff.mpr h)]

/-- ... any other takes it. -/
theorem enqueue_of_room (x : α) (h : r.count + 1 < n) :
    (r.enqueue x).2 = true ∧ (r.enqueue x).1.toList = r.toList ++ [x] := by
  have hnext : next r.head ≠ r.tail := fun heq => h.ne (r.next_head_eq_tail_iff.mp heq)
  have hcount : (r.enqueue x).1.count = r.count + 1 := by
    have hhead := r.head.isLt
    have htail := r.tail.isLt
    have hne := Fin.val_ne_of_ne hnext
    rw [next_val] at hne
    rw [enqueue, if_neg hnext, count, count]
    simp only [Fin.le_def, next_val]
    split_ifs at hne ⊢ <;> omega
  have htail : (r.enqueue x).1.tail = r.tail := by rw [enqueue, if_neg hnext]
  have hcells : (r.enqueue x).1.cells = Function.update r.cells r.head x := by
    rw [enqueue, if_neg hnext]
  have hhead : Fin.ofNat n (r.tail.val + r.count) = r.head := by
    rw [Fin.ext_iff, Fin.val_ofNat, r.head_val]
  refine ⟨by rw [enqueue, if_neg hnext], ?_⟩
  rw [toList, toList, hcount, htail, hcells, List.range_succ, List.map_append, List.map_singleton,
    hhead, Function.update_self]
  congr 1
  refine List.map_congr_left fun i hi => Function.update_of_ne (fun heq => ?_) _ _
  -- fewer than `n` cells before the head, so none of them is the head
  have hlt := List.mem_range.mp hi
  have hmod : (r.tail.val + i) % n = (r.tail.val + r.count) % n := by
    rw [← hhead, Fin.ext_iff, Fin.val_ofNat, Fin.val_ofNat] at heq
    exact heq
  have hzero := Nat.sub_mod_eq_zero_of_mod_eq hmod.symm
  rw [Nat.add_sub_add_left, Nat.mod_eq_of_lt (by omega)] at hzero
  omega

/-- **Putting an element into a ring.** -/
theorem toList_enqueue (x : α) : (r.enqueue x).1.toList =
    if r.toList.length + 1 < n then r.toList ++ [x] else r.toList := by
  rw [length_toList]
  split_ifs with hroom
  · exact (r.enqueue_of_room x hroom).2
  · rw [r.enqueue_of_full x (by have := r.count_lt; omega)]

/-- The flag says whether there was room. -/
theorem enqueue_snd (x : α) : (r.enqueue x).2 = decide (r.toList.length + 1 < n) := by
  rw [length_toList]
  by_cases hroom : r.count + 1 < n
  · rw [(r.enqueue_of_room x hroom).1, decide_eq_true hroom]
  · rw [r.enqueue_of_full x (by have := r.count_lt; omega), decide_eq_false hroom]

/-- **Taking an element out of a ring**: nothing of an empty one, ... -/
theorem dequeue_eq_none_iff : r.dequeue = none ↔ r.toList = [] := by
  rw [toList_eq_nil_iff, dequeue]
  split_ifs with heq
  · exact iff_of_true rfl heq
  · exact iff_of_false nofun heq

/-- ... and the oldest of any other. -/
theorem toList_of_dequeue {x : α} {r' : SimpleRing α n} (h : r.dequeue = some (x, r')) :
    r.toList = x :: r'.toList := by
  obtain ⟨hne, heq⟩ := Option.ite_none_left_eq_some.mp h
  obtain ⟨rfl, rfl⟩ := Prod.mk.inj (Option.some.inj heq)
  have hpos : r.count ≠ 0 := fun h0 => hne (r.tail_eq_head_iff.mpr h0)
  have htail := r.tail.isLt
  have hcount : r.count = count { r with tail := next r.tail } + 1 := by
    have hhead := r.head.isLt
    have hval := Fin.val_ne_of_ne hne
    simp only [count, Fin.le_def, next_val]
    split_ifs <;> omega
  rw [toList, hcount, List.range_succ_eq_map, List.map_cons, List.map_map, toList]
  congr 1
  · rw [Nat.add_zero]
    exact congrArg r.cells (Fin.ext (by rw [Fin.val_ofNat, Nat.mod_eq_of_lt htail]))
  · refine List.map_congr_left fun i _ => congrArg r.cells (Fin.ext ?_)
    rw [Fin.val_ofNat, Fin.val_ofNat, next, Fin.val_ofNat, Nat.mod_add_mod,
      Nat.succ_eq_add_one, Nat.add_assoc, Nat.add_comm 1]

/-- Putting an element into a ring leaves the one at the tail. -/
theorem cells_tail_enqueue (x : α) (h : r.tail ≠ r.head) :
    (r.enqueue x).1.cells (r.enqueue x).1.tail = r.cells r.tail := by
  rw [enqueue]
  split_ifs
  · rfl
  · exact Function.update_of_ne h _ _

end SimpleRing
