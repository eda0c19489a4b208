import Mathlib.Data.List.GetD
import Mathlib.Logic.Function.Basic
import Mathlib.Tactic.SplitIfs

/-!
# Byte Stores

Byte-addressed memories: a memory gives every address a byte, and a store has a memory for
every volume. Lists of bytes are written over a memory and read from it.

## Main results

* `ByteMemory.read_write`: what was written is read back.
* `ByteMemory.read_write_of_disjoint`, `ByteStore.write_of_ne`: nothing else changes.
* `ByteMemory.copy_comm`: copies to places apart can be made in any order.
-/

universe u

/-- A byte for every address. -/
abbrev ByteMemory := ℕ → UInt8

namespace ByteMemory

variable (m : ByteMemory)

/-- The bytes of a list are written from an address on. -/
def write (address : ℕ) (bytes : List UInt8) : ByteMemory := fun i =>
  if address ≤ i then bytes.getD (i - address) (m i) else m i

/-- The `len` bytes from an address on. -/
def read (address len : ℕ) : List UInt8 := (List.range len).map fun i => m (address + i)

@[simp] theorem length_read (address len : ℕ) : (m.read address len).length = len := by
  rw [read, List.length_map, List.length_range]

theorem getD_read (address len i : ℕ) (d : UInt8) :
    (m.read address len).getD i d = if i < len then m (address + i) else d := by
  by_cases h : i < len
  · rw [List.getD_eq_getElem _ _ (by rwa [length_read]), if_pos h]
    simp only [read, List.getElem_map, List.getElem_range]
  · rw [List.getD_eq_default _ _ (by rw [length_read]; omega), if_neg h]

/-- A memory of zeros. -/
def zero : ByteMemory := fun _ => 0

@[simp] theorem getD_read_zero (address len i : ℕ) : (zero.read address len).getD i 0 = 0 := by
  rw [getD_read, zero, ite_self]

/-- `len` bytes from an address of another memory are copied to an address. -/
def copy (source : ByteMemory) (address start len : ℕ) : ByteMemory := fun i =>
  if address ≤ i ∧ i < address + len then source (start + (i - address)) else m i

/-- Copying nothing changes nothing. -/
@[simp] theorem copy_zero (source : ByteMemory) (address start : ℕ) :
    m.copy source address start 0 = m := by
  funext i
  exact if_neg (by omega)

/-- Copying two adjoining ranges to their own addresses copies their union. -/
theorem copy_copy (source : ByteMemory) (address len len' : ℕ) :
    (m.copy source address address len).copy source (address + len) (address + len) len' =
      m.copy source address address (len + len') := by
  funext i
  simp only [copy]
  by_cases h : address + len ≤ i ∧ i < address + len + len'
  · rw [if_pos h, if_pos (by omega)]
    congr 1
    omega
  · rw [if_neg h]
    by_cases h' : address ≤ i ∧ i < address + len
    · rw [if_pos h', if_pos (by omega)]
    · rw [if_neg h', if_neg (by omega)]

/-- Copies to places apart from each other can be made in any order. -/
theorem copy_comm {source source' : ByteMemory} {address address' start start' len len' : ℕ}
    (h : address + len ≤ address' ∨ address' + len' ≤ address) :
    (m.copy source address start len).copy source' address' start' len' =
      (m.copy source' address' start' len').copy source address start len := by
  funext i
  simp only [copy]
  split_ifs <;> first | rfl | omega

/-- Lists of one length are equal when they agree at every index. -/
theorem ext_getD {as bs : List UInt8} (hl : as.length = bs.length)
    (h : ∀ i < as.length, as.getD i 0 = bs.getD i 0) : as = bs := by
  refine List.ext_getElem hl fun i hi hi' => ?_
  have := h i hi
  rwa [List.getD_eq_getElem _ _ hi, List.getD_eq_getElem _ _ hi'] at this

/-- A part of what was written is read back. -/
theorem read_write_within {address k len : ℕ} {bytes : List UInt8}
    (h : k + len ≤ bytes.length) :
    (m.write address bytes).read (address + k) len = (bytes.drop k).take len := by
  have hl : ((bytes.drop k).take len).length = len := by
    rw [List.length_take, List.length_drop]
    omega
  refine ext_getD ((length_read _ _ _).trans hl.symm) fun i hi => ?_
  rw [length_read] at hi
  have hk : k + i < bytes.length := by omega
  rw [getD_read, if_pos hi, write, if_pos (by omega),
    show address + k + i - address = k + i by omega, List.getD_eq_getElem _ _ hk,
    List.getD_eq_getElem _ _ (by rwa [hl]), List.getElem_take, List.getElem_drop]

/-- What was written is read back. -/
theorem read_write (address : ℕ) (bytes : List UInt8) :
    (m.write address bytes).read address bytes.length = bytes := by
  have h := @read_write_within m address 0 _ bytes (show 0 + bytes.length ≤ bytes.length by omega)
  rwa [Nat.add_zero, List.drop_zero, List.take_length] at h

/-- A byte that was written is found at its address. -/
theorem write_add (address i : ℕ) (bytes : List UInt8) :
    m.write address bytes (address + i) = bytes.getD i (m (address + i)) := by
  rw [write, if_pos (Nat.le_add_right _ _), Nat.add_sub_cancel_left]

/-- Bytes outside of the written ones are unchanged. -/
theorem write_of_outside {address i : ℕ} {bytes : List UInt8}
    (h : i < address ∨ address + bytes.length ≤ i) : m.write address bytes i = m i := by
  rw [write]
  split_ifs with ha
  · exact List.getD_eq_default _ _ (by omega)
  · rfl

/-- A read of bytes outside of the written ones. -/
theorem read_write_of_disjoint {address start len : ℕ} {bytes : List UInt8}
    (h : start + len ≤ address ∨ address + bytes.length ≤ start) :
    (m.write address bytes).read start len = m.read start len := by
  refine List.map_congr_left fun i hi => ?_
  have := List.mem_range.mp hi
  exact m.write_of_outside (by omega)

end ByteMemory

/-- A memory for every volume. -/
abbrev ByteStore (ι : Type u) := ι → ByteMemory

namespace ByteStore

variable {ι : Type u} [DecidableEq ι] (s : ByteStore ι)

/-- The bytes of a list are written to a volume. -/
def write (volume : ι) (address : ℕ) (bytes : List UInt8) : ByteStore ι :=
  Function.update s volume ((s volume).write address bytes)

theorem write_self (volume : ι) (address : ℕ) (bytes : List UInt8) :
    s.write volume address bytes volume = (s volume).write address bytes :=
  Function.update_self _ _ _

/-- Other volumes are unchanged. -/
theorem write_of_ne {volume v : ι} (h : v ≠ volume) (address : ℕ) (bytes : List UInt8) :
    s.write volume address bytes v = s v :=
  Function.update_of_ne h _ _

end ByteStore
