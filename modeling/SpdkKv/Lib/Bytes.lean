import Mathlib.Data.List.GetD
import Mathlib.Tactic.Ring

/-!
# Little-Endian Fields of Byte Lists

On-disk structures are byte lists in which integers of a fixed width are stored least
significant byte first. `leBytes` writes such a field, `leNat` reads it back, and
`fieldAt` reads the field at a given offset of a longer list.

## Main results

* `leNat_leBytes`: reading what was written gives the value modulo `256 ^ width`.
* `fieldAt_append`: a field is found behind everything that precedes it.
-/

/-- The `width` low-order bytes of `x`, least significant first. -/
def leBytes : (width : ℕ) → (x : ℕ) → List UInt8
  | 0, _ => []
  | width + 1, x => UInt8.ofNat (x % 256) :: leBytes width (x / 256)

/-- The number whose bytes, least significant first, are the list. -/
def leNat : List UInt8 → ℕ
  | [] => 0
  | b :: bs => b.toNat + 256 * leNat bs

/-- The number stored in the `width` bytes from `offset` on. -/
def fieldAt (bs : List UInt8) (offset width : ℕ) : ℕ :=
  leNat ((bs.drop offset).take width)

@[simp] theorem length_leBytes (width x : ℕ) : (leBytes width x).length = width := by
  induction width generalizing x with
  | zero => rfl
  | succ width ih => simp [leBytes, ih]

/-- Reading back what was written gives the value, up to the width of the field. -/
theorem leNat_leBytes (width x : ℕ) : leNat (leBytes width x) = x % 256 ^ width := by
  induction width generalizing x with
  | zero => simp [leBytes, leNat, Nat.mod_one]
  | succ width ih =>
      have hb : (UInt8.ofNat (x % 256)).toNat = x % 256 := by simp
      rw [leBytes, leNat, ih, hb, pow_succ, mul_comm (256 ^ width) 256, Nat.mod_mul]

/-- A value that fits its field is read back unchanged. -/
theorem leNat_leBytes_of_lt {width x : ℕ} (h : x < 256 ^ width) :
    leNat (leBytes width x) = x := by
  rw [leNat_leBytes, Nat.mod_eq_of_lt h]

/-- A list of zero bytes stores the number zero. -/
@[simp] theorem leNat_replicate_zero (k : ℕ) : leNat (List.replicate k 0) = 0 := by
  induction k with
  | zero => rfl
  | succ k ih => simp [List.replicate_succ, leNat, ih]

/-- A field is found behind everything that precedes it. -/
theorem fieldAt_append {pre mid post : List UInt8} {offset width : ℕ}
    (ho : pre.length = offset) (hw : mid.length = width) :
    fieldAt (pre ++ (mid ++ post)) offset width = leNat mid := by
  rw [fieldAt, List.drop_append_of_le_length (by omega), ← ho, List.drop_length,
    List.nil_append, List.take_append_of_le_length (by omega), ← hw, List.take_length]

/-- A field at the front. -/
theorem fieldAt_front {mid post : List UInt8} {width : ℕ} (hw : mid.length = width) :
    fieldAt (mid ++ post) 0 width = leNat mid := by
  rw [fieldAt, List.drop_zero, List.take_left' hw]

/-- A field of a prefix is not affected by what follows the prefix. -/
theorem fieldAt_append_left {pre post : List UInt8} {offset width : ℕ}
    (h : offset + width ≤ pre.length) :
    fieldAt (pre ++ post) offset width = fieldAt pre offset width := by
  rw [fieldAt, fieldAt, List.drop_append_of_le_length (by omega),
    List.take_append_of_le_length (by rw [List.length_drop]; omega)]

/-- A field of a suffix, counted from the beginning of the suffix. -/
theorem fieldAt_drop (bs : List UInt8) (start offset width : ℕ) :
    fieldAt (bs.drop start) offset width = fieldAt bs (start + offset) width := by
  rw [fieldAt, fieldAt, List.drop_drop]

/-- The first byte of a field is its low-order one. -/
theorem fieldAt_succ (bs : List UInt8) (offset width : ℕ) :
    fieldAt bs offset (width + 1) =
      (bs.getD offset 0).toNat + 256 * fieldAt bs (offset + 1) width := by
  rw [fieldAt, fieldAt]
  by_cases h : offset < bs.length
  · rw [List.drop_eq_getElem_cons h, List.take_succ_cons, leNat, List.getD_eq_getElem _ _ h]
  · rw [List.drop_eq_nil_of_le (by omega), List.drop_eq_nil_of_le (by omega),
      List.getD_eq_default _ _ (by omega), List.take_nil, List.take_nil]
    rfl

/-- Fields are equal when their bytes are; a list goes on with zeros. -/
theorem fieldAt_congr {as bs : List UInt8} {offset offset' width : ℕ}
    (h : ∀ i < width, as.getD (offset + i) 0 = bs.getD (offset' + i) 0) :
    fieldAt as offset width = fieldAt bs offset' width := by
  induction width generalizing offset offset' with
  | zero => rfl
  | succ width ih =>
      have h0 := h 0 (Nat.succ_pos _)
      rw [Nat.add_zero, Nat.add_zero] at h0
      rw [fieldAt_succ, fieldAt_succ, h0, ih fun i hi => ?_]
      have := h (i + 1) (by omega)
      rwa [show offset + 1 + i = offset + (i + 1) by omega,
        show offset' + 1 + i = offset' + (i + 1) by omega]

/-- A field whose bytes are zero stores zero. -/
theorem fieldAt_eq_zero {bs : List UInt8} {offset width : ℕ}
    (h : ∀ i < width, bs.getD (offset + i) 0 = 0) : fieldAt bs offset width = 0 := by
  rw [@fieldAt_congr bs [] offset 0 width fun i hi => by rw [h i hi, List.getD_nil],
    fieldAt, List.drop_nil, List.take_nil, leNat]
