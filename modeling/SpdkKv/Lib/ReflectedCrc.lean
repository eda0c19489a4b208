import Mathlib.Data.BitVec

/-!
# Reflected Cyclic Redundancy Checks

The register of a reflected CRC is shifted to the right, one bit of the message at a time, and
the polynomial is added whenever a one falls out. The steps are linear over exclusive or, so
the steps for a group of low bits can be looked up in a table.

## Main results

* `ReflectedCrc.bitSteps_xor`: the steps are linear.
* `ReflectedCrc.bitSteps_eq_lookup`: **steps by table**: those of the low bits, and the rest
  of the register moved down.
* `ReflectedCrc.bitSteps_eq_zero_iff`: nothing that is in the register is ever lost.
-/

namespace ReflectedCrc

variable {w : ℕ} {poly : BitVec w}

/-- The register after one bit. -/
def bitStep (poly crc : BitVec w) : BitVec w :=
  if crc.getLsbD 0 then crc >>> 1 ^^^ poly else crc >>> 1

/-- The register after `k` bits. -/
def bitSteps (poly : BitVec w) (k : ℕ) (crc : BitVec w) : BitVec w := (bitStep poly)^[k] crc

theorem bitSteps_succ (k : ℕ) (crc : BitVec w) :
    bitSteps poly (k + 1) crc = bitStep poly (bitSteps poly k crc) :=
  Function.iterate_succ_apply' _ _ _

/-! ### Linearity -/

/-- A step is linear. -/
theorem bitStep_xor (a b : BitVec w) :
    bitStep poly (a ^^^ b) = bitStep poly a ^^^ bitStep poly b := by
  simp only [bitStep, BitVec.getLsbD_xor, BitVec.ushiftRight_xor_distrib]
  cases a.getLsbD 0 <;> cases b.getLsbD 0
  · simp
  · simp [BitVec.xor_assoc]
  · simp
    ac_rfl
  · have hcancel : ∀ x y : BitVec w, x ^^^ poly ^^^ (y ^^^ poly) = x ^^^ y := by
      intro x y
      rw [BitVec.xor_comm y poly, BitVec.xor_assoc, ← BitVec.xor_assoc poly poly,
        BitVec.xor_self, BitVec.zero_xor]
    simp [hcancel]

/-- **The steps are linear.** -/
theorem bitSteps_xor (k : ℕ) (a b : BitVec w) :
    bitSteps poly k (a ^^^ b) = bitSteps poly k a ^^^ bitSteps poly k b := by
  induction k with
  | zero => rfl
  | succ k ih => rw [bitSteps_succ, bitSteps_succ, bitSteps_succ, ih, bitStep_xor]

/-! ### Steps by table -/

/-- While only zeros fall out, the register is shifted. -/
theorem bitSteps_of_clear {crc : BitVec w} {k : ℕ} (h : ∀ i < k, crc.getLsbD i = false) :
    bitSteps poly k crc = crc >>> k := by
  induction k with
  | zero => exact (BitVec.ushiftRight_zero crc).symm
  | succ k ih =>
      have hlow : (crc >>> k).getLsbD 0 = false := by
        rw [BitVec.getLsbD_ushiftRight]
        exact h k (Nat.lt_succ_self k)
      rw [bitSteps_succ, ih fun i hi => h i (hi.trans (Nat.lt_succ_self k)), bitStep, hlow,
        if_neg Bool.false_ne_true, ← BitVec.shiftRight_add]

/-- The bits of a mask. -/
theorem getLsbD_mask {k i : ℕ} (hi : i < w) :
    (BitVec.ofNat w (2 ^ k - 1)).getLsbD i = decide (i < k) := by
  rw [BitVec.getLsbD_ofNat, Nat.testBit_two_pow_sub_one, decide_eq_true hi, Bool.true_and]

/-- **Steps by table**: those of the low bits, and the rest of the register moved down. -/
theorem bitSteps_eq_lookup (k : ℕ) (crc : BitVec w) :
    bitSteps poly k crc =
      bitSteps poly k (crc &&& BitVec.ofNat w (2 ^ k - 1)) ^^^ (crc >>> k) := by
  have hsplit : crc = crc &&& BitVec.ofNat w (2 ^ k - 1) ^^^
      (crc ^^^ (crc &&& BitVec.ofNat w (2 ^ k - 1))) := by
    rw [BitVec.xor_comm crc, ← BitVec.xor_assoc, BitVec.xor_self, BitVec.zero_xor]
  have hhigh : ∀ i < w, (crc ^^^ (crc &&& BitVec.ofNat w (2 ^ k - 1))).getLsbD i =
      (crc.getLsbD i && decide (k ≤ i)) := by
    intro i hi
    rw [BitVec.getLsbD_xor, BitVec.getLsbD_and, getLsbD_mask hi]
    by_cases hk : i < k
    · simp [hk]
    · simp [hk, not_lt.mp hk]
  have hclear : ∀ i < k, (crc ^^^ (crc &&& BitVec.ofNat w (2 ^ k - 1))).getLsbD i = false := by
    intro i hi
    by_cases hw : i < w
    · rw [hhigh i hw, decide_eq_false (not_le.mpr hi), Bool.and_false]
    · exact BitVec.getLsbD_of_ge _ _ (not_lt.mp hw)
  have hshift : (crc ^^^ (crc &&& BitVec.ofNat w (2 ^ k - 1))) >>> k = crc >>> k := by
    refine BitVec.eq_of_getLsbD_eq fun i _ => ?_
    rw [BitVec.getLsbD_ushiftRight, BitVec.getLsbD_ushiftRight]
    by_cases hw : k + i < w
    · rw [hhigh _ hw, decide_eq_true (Nat.le_add_right k i), Bool.and_true]
    · rw [BitVec.getLsbD_of_ge _ _ (not_lt.mp hw), BitVec.getLsbD_of_ge _ _ (not_lt.mp hw)]
  conv_lhs => rw [hsplit]
  rw [bitSteps_xor, bitSteps_of_clear hclear, hshift]

/-! ### Nothing is lost -/

/-- With a polynomial of full degree a step leaves nothing of nothing only. -/
theorem bitStep_eq_zero_iff (hpoly : poly.msb = true) (crc : BitVec w) :
    bitStep poly crc = 0 ↔ crc = 0 := by
  constructor
  · intro h
    rw [bitStep] at h
    split_ifs at h with hlow
    · -- the bit of the polynomial at the top stands alone
      have hmsb := congrArg BitVec.msb h
      rw [BitVec.msb_xor, hpoly, BitVec.msb_ushiftRight] at hmsb
      simp at hmsb
    · refine BitVec.eq_of_getLsbD_eq fun i hi => ?_
      cases i with
      | zero => simpa using hlow
      | succ i =>
          have hbit := congrArg (fun x : BitVec w => x.getLsbD i) h
          simpa [Nat.add_comm] using hbit
  · rintro rfl
    simp [bitStep]

/-- **Nothing that is in the register is ever lost.** -/
theorem bitSteps_eq_zero_iff (hpoly : poly.msb = true) (k : ℕ) (crc : BitVec w) :
    bitSteps poly k crc = 0 ↔ crc = 0 := by
  induction k with
  | zero => rfl
  | succ k ih => rw [bitSteps_succ, bitStep_eq_zero_iff hpoly, ih]

end ReflectedCrc
