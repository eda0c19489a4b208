import SpdkKv.RecordStore
import SpdkKv.Lib.ReflectedCrc

/-!
# The Checksum and the Standard

The checksums of the store are meant to be the CRC-32 of IEEE 802.3: a register of all ones,
the reflected polynomial `0xEDB88320` taken bit by bit, and all bits inverted at the end. The
table of `crc32.h`, of which the source holds two copies, has one wrong constant: entry 245 is
`0xCDD706B3` and not `0xCDD70693`. Each lookup of it leaves a wrong bit in the register,
which moves on with every byte behind it.

## Main results

* `Crc32.getD_table`: the table is that of the standard but for entry 245.
* `Crc32.calculate_eq_reflected_xor`: what the lookups of entry 245 do to a checksum.
* `Crc32.meets_standard_iff`: **a checksum is the standard one exactly when** no byte is looked
  up in entry 245 or the wrong bits cancel.
* `Crc32.calculate_newline`: the string of one line feed has a wrong checksum.
-/

namespace SpdkKv

namespace Crc32

/-! ### The standard -/

/-- The reflected polynomial. -/
def polynomial : UInt32 := 0xEDB88320

/-- The register after one bit. -/
def bitStep (crc : UInt32) : UInt32 :=
  if crc &&& 1 = 1 then crc >>> 1 ^^^ polynomial else crc >>> 1

/-- The register after `k` zero bytes. -/
def advance (k : ℕ) (crc : UInt32) : UInt32 := bitStep^[8 * k] crc

/-- The register after one byte. -/
def byteStep (crc : UInt32) (b : UInt8) : UInt32 := advance 1 (crc ^^^ b.toUInt32)

/-- The CRC-32 of a byte string, bit by bit. -/
def reflected (data : List UInt8) : UInt32 :=
  data.foldl byteStep 0xFFFFFFFF ^^^ 0xFFFFFFFF

/-! ### Lookups of the wrong entry -/

/-- The index of a lookup. -/
def index (crc : UInt32) (b : UInt8) : ℕ := ((crc ^^^ b.toUInt32) &&& 0xFF).toNat

/-- The lookups of entry 245, each as the number of bytes behind it. The register differs from
the one of the standard, `crc`, by what the earlier lookups have left in it, `err`. -/
def slips (crc err : UInt32) : List UInt8 → List ℕ
  | [] => []
  | b :: rest =>
      if index (crc ^^^ err) b = 245 then
        rest.length :: slips (byteStep crc b) (advance 1 err ^^^ 0x20) rest
      else slips (byteStep crc b) (advance 1 err) rest

/-- The bits that such lookups leave in a checksum. -/
def residue : List ℕ → UInt32
  | [] => 0
  | k :: ks => advance k 0x20 ^^^ residue ks

/-- The bits that the lookups of entry 245 leave cancel each other; there may be none. -/
def Undisturbed (data : List UInt8) : Prop := residue (slips 0xFFFFFFFF 0 data) = 0

instance decidableUndisturbed (data : List UInt8) : Decidable (Undisturbed data) :=
  inferInstanceAs (Decidable (_ = _))

/-! ### Steps of the register -/

theorem toBitVec_bitStep (crc : UInt32) :
    (bitStep crc).toBitVec = ReflectedCrc.bitStep polynomial.toBitVec crc.toBitVec := by
  have hlow : crc &&& 1 = 1 ↔ crc.toBitVec.getLsbD 0 = true := by
    rw [← UInt32.toBitVec_inj, UInt32.toBitVec_and, BitVec.getLsbD, Nat.testBit_zero,
      decide_eq_true_iff, ← BitVec.toNat_inj, BitVec.toNat_and]
    exact iff_of_eq (congrArg (· = 1) (Nat.and_one_is_mod _))
  rw [bitStep, ReflectedCrc.bitStep]
  by_cases h : crc &&& 1 = 1
  · rw [if_pos h, if_pos (hlow.mp h), UInt32.toBitVec_xor]
    rfl
  · rw [if_neg h, if_neg (mt hlow.mpr h)]
    rfl

theorem toBitVec_advance (k : ℕ) (crc : UInt32) :
    (advance k crc).toBitVec =
      ReflectedCrc.bitSteps polynomial.toBitVec (8 * k) crc.toBitVec := by
  rw [advance]
  induction 8 * k with
  | zero => rfl
  | succ k ih =>
      rw [Function.iterate_succ_apply', toBitVec_bitStep, ih, ← ReflectedCrc.bitSteps_succ]

theorem advance_xor (k : ℕ) (a b : UInt32) :
    advance k (a ^^^ b) = advance k a ^^^ advance k b := by
  rw [← UInt32.toBitVec_inj, UInt32.toBitVec_xor, toBitVec_advance, toBitVec_advance,
    toBitVec_advance, UInt32.toBitVec_xor, ReflectedCrc.bitSteps_xor]

theorem advance_add (j k : ℕ) (crc : UInt32) : advance j (advance k crc) = advance (j + k) crc := by
  rw [advance, advance, advance, ← Function.iterate_add_apply, Nat.mul_add]

/-- Nothing is lost from the register. -/
theorem advance_eq_zero_iff (k : ℕ) (crc : UInt32) : advance k crc = 0 ↔ crc = 0 := by
  rw [← UInt32.toBitVec_inj, ← UInt32.toBitVec_inj, toBitVec_advance]
  exact ReflectedCrc.bitSteps_eq_zero_iff (by decide) _ _

/-- The eight bits of a byte at once: those of an index, and the register moved down. -/
theorem byteStep_eq_lookup (crc : UInt32) (b : UInt8) :
    byteStep crc b = advance 1 ((crc ^^^ b.toUInt32) &&& 0xFF) ^^^ (crc >>> 8) := by
  have hb : b.toUInt32.toBitVec >>> 8 = 0#32 := by
    refine BitVec.eq_of_toNat_eq ?_
    have hlt := b.toNat_lt
    rw [BitVec.toNat_ushiftRight, UInt32.toNat_toBitVec, UInt8.toNat_toUInt32,
      Nat.shiftRight_eq_div_pow]
    exact Nat.div_eq_of_lt hlt
  rw [byteStep, ← UInt32.toBitVec_inj, UInt32.toBitVec_xor, toBitVec_advance, toBitVec_advance,
    ReflectedCrc.bitSteps_eq_lookup, UInt32.toBitVec_and, UInt32.toBitVec_xor,
    BitVec.ushiftRight_xor_distrib, hb, BitVec.xor_zero, UInt32.toBitVec_shiftRight]
  rfl

/-! ### The table -/

/-- **The table is that of the standard but for entry 245**, which has one wrong bit. -/
theorem getD_table {i : ℕ} (hi : i < 256) :
    table.getD i 0 = advance 1 (UInt32.ofNat i) ^^^ if i = 245 then 0x20 else 0 := by
  have hall : ∀ i : Fin 256, table.getD i.val 0 =
      advance 1 (UInt32.ofNat i.val) ^^^ if i.val = 245 then 0x20 else 0 := by
    decide +kernel
  exact hall ⟨i, hi⟩

theorem index_lt (crc : UInt32) (b : UInt8) : index crc b < 256 := by
  have hle : index crc b ≤ 0xFF := by
    rw [index, UInt32.toNat_and]
    exact Nat.and_le_right
  omega

/-- A byte by the table of the source. -/
theorem update_eq (crc : UInt32) (b : UInt8) :
    update crc b = byteStep crc b ^^^ if index crc b = 245 then 0x20 else 0 := by
  have htable := getD_table (index_lt crc b)
  rw [index, UInt32.ofNat_toNat] at htable
  rw [update, htable, byteStep_eq_lookup, index, UInt32.xor_assoc, UInt32.xor_assoc,
    UInt32.xor_comm (crc >>> 8)]

/-- A byte moves on what is wrong in the register. -/
theorem byteStep_xor (crc err : UInt32) (b : UInt8) :
    byteStep (crc ^^^ err) b = byteStep crc b ^^^ advance 1 err := by
  rw [byteStep, byteStep, ← advance_xor, UInt32.xor_assoc, UInt32.xor_assoc,
    UInt32.xor_comm err]

/-- **What the lookups of entry 245 leave in the register.** -/
theorem foldl_update_eq (data : List UInt8) (crc err : UInt32) :
    data.foldl update (crc ^^^ err) =
      data.foldl byteStep crc ^^^ (advance data.length err ^^^ residue (slips crc err data)) := by
  induction data generalizing crc err with
  | nil =>
      rw [List.foldl_nil, List.foldl_nil, slips, residue, UInt32.xor_zero]
      rfl
  | cons b rest ih =>
      rw [List.foldl_cons, List.foldl_cons, update_eq, byteStep_xor, UInt32.xor_assoc, ih,
        List.length_cons, slips]
      split_ifs with hslip
      · rw [residue, advance_xor, advance_add, UInt32.xor_assoc]
      · rw [UInt32.xor_zero, advance_add]

/-- **What the lookups of entry 245 do to a checksum.** -/
theorem calculate_eq_reflected_xor (data : List UInt8) :
    calculate data = reflected data ^^^ residue (slips 0xFFFFFFFF 0 data) := by
  have hzero : advance data.length 0 = 0 := (advance_eq_zero_iff _ 0).mpr rfl
  have h := foldl_update_eq data 0xFFFFFFFF 0
  rw [hzero, UInt32.xor_zero, UInt32.zero_xor] at h
  rw [calculate, reflected, h, UInt32.xor_assoc, UInt32.xor_assoc,
    UInt32.xor_comm (residue _)]

/-- A checksum is the standard one exactly when the wrong bits cancel. -/
theorem calculate_eq_reflected_iff (data : List UInt8) :
    calculate data = reflected data ↔ Undisturbed data := by
  rw [calculate_eq_reflected_xor, Undisturbed]
  constructor
  · intro h
    have hxor := congrArg (reflected data ^^^ ·) h
    rwa [← UInt32.xor_assoc, UInt32.xor_self, UInt32.zero_xor] at hxor
  · intro h
    rw [h, UInt32.xor_zero]

/-- Without a lookup of entry 245 the checksum is right. -/
theorem undisturbed_of_no_slip {data : List UInt8} (h : slips 0xFFFFFFFF 0 data = []) :
    Undisturbed data := by
  rw [Undisturbed, h]
  rfl

/-- With one such lookup it is wrong. -/
theorem not_undisturbed_of_one_slip {data : List UInt8} {k : ℕ}
    (h : slips 0xFFFFFFFF 0 data = [k]) : ¬ Undisturbed data := by
  rw [Undisturbed, h, residue, residue, UInt32.xor_zero, advance_eq_zero_iff]
  decide

/-! ### The checksums of the store -/

/-- **When the checksums of the store meet the standard**: extending a checksum and computing
it piece by piece are right for all byte strings, and the checksum of a string is the standard
one exactly when the bits that lookups of entry 245 leave in it cancel. -/
theorem meets_standard_iff (a b first : List UInt8) (rest : List (List UInt8)) :
    calculate a = reflected a ∧ combine (calculate a) b = calculate (a ++ b) ∧
      segmentCrc first rest = calculate (first.take kSegmentMetaOffset ++
        first.drop kSegmentDataOffset ++ rest.flatten) ↔ Undisturbed a := by
  rw [calculate_eq_reflected_iff]
  exact and_iff_left ⟨combine_calculate a b, segmentCrc_eq_calculate first rest⟩

/-- **The checksum of a line feed is not the standard one**: the first lookup is that of entry
245. -/
theorem calculate_newline : slips 0xFFFFFFFF 0 [0x0A] = [0] ∧
    calculate [0x0A] = 0x32D706B3 ∧ reflected [0x0A] = 0x32D70693 ∧
    calculate [0x0A] ≠ reflected [0x0A] := by
  decide +kernel

end Crc32

end SpdkKv
