import SpdkKv.IndexAreas

/-!
# Rebuilding the Probe Lengths

`rebuild_psl_array` of `mem_index.h` stores for every entry how far it lies from its home
slot, plus one. Insertion stores other numbers: a swap stores one less for the entry that it
puts down and counts two turns for the next slot of the one it takes up. A lookup stops at a
stored length below its distance, and an entry that insertion has put in front of another one
may be closer to home than the lookup of the other one can bear.

## Main results

* `rebuild_transparent_iff`: **the rebuild leaves all lookups alone exactly when** on the way
  to every live entry no slot lies closer to home than the lookup allows.
* `EntriesKept.rebuild_wf`: a rebuild that keeps the ways of all entries keeps a table well
  formed and its contents.
* `rebuild_hides_entry`: a table in which an entry is not found any more.
-/

namespace SpdkKv

namespace MemIndex

variable {n : ℕ}

/-! ### The rebuilt lengths -/

/-- The length that `rebuild_psl_array` stores. -/
def rebuiltPsl (m : MemIndex n) (i : Fin (2 ^ n)) : ℕ :=
  if (m.entries i).isEmpty then 0
  else (displacement n (m.entries i).key i + 1) % 2 ^ 8

theorem rebuildPslArray_psl (m : MemIndex n) : m.rebuildPslArray.psl = m.rebuiltPsl := by
  funext i
  rw [rebuiltPsl, displacement]
  rfl

/-- An entry of a well-formed table lies at most 128 turns from home. -/
theorem Wf.displacement_le {m : MemIndex n} (hm : m.Wf) {i : Fin (2 ^ n)} (ho : m.Occupied i) :
    displacement n (m.entries i).key i ≤ 128 := by
  obtain ⟨d, hd, -, hprobe, -⟩ := hm.path i ho
  exact (MemIndex.displacement_le hprobe).trans hd

/-! ### When lookups survive -/

/-- With the rebuilt lengths no live entry is out of reach: on the way to it, every slot that
is `j` turns from its home holds an entry that lies at least `j - 1` turns from its own. -/
def LiveInReach (m : MemIndex n) : Prop :=
  ∀ i, m.Occupied i → (m.entries i).deleted = false →
    Unstopped m.rebuiltPsl (m.entries i).key (displacement n (m.entries i).key i)

instance (m : MemIndex n) : Decidable m.LiveInReach :=
  inferInstanceAs (Decidable (∀ _, _ → _ → _))

/-- **When the rebuild leaves all lookups alone**, on a well-formed table. -/
theorem Wf.find_rebuild_iff {m : MemIndex n} (hm : m.Wf) :
    (∀ key, m.rebuildPslArray.find key = m.find key) ↔ m.LiveInReach := by
  constructor
  · intro h i ho hd
    obtain ⟨d, -, hprobe, -, hpsl, -⟩ :=
      find_eq_some_iff.mp ((h _).trans (hm.find_eq ho rfl hd))
    rw [rebuildPslArray_psl] at hpsl
    exact fun j hj => hpsl j (hj.trans (MemIndex.displacement_le hprobe))
  · intro h key
    cases hfind : m.find key with
    | some i =>
        obtain ⟨ho, rfl, hd⟩ := hm.of_find hfind
        refine find_eq_some_iff.mpr ⟨displacement n (m.entries i).key i,
          hm.displacement_le ho, probe_displacement _ i, ?_, ?_, fun j hj hmatch => ?_⟩
        · exact ⟨hm.tag_eq i ho, rfl, by rw [Bool.not_eq_true]; exact hd⟩
        · rw [rebuildPslArray_psl]
          exact h i ho hd
        · -- the key has one entry
          have hji := hm.inj _ _ (hm.occupied_of_matches hmatch) ho hmatch.2.1
          have := eq_displacement_of_le hj.le hji
          omega
    | none =>
        cases hnew : m.rebuildPslArray.find key with
        | none => rfl
        | some i =>
            obtain ⟨d, -, -, hmatch, -⟩ := find_eq_some_iff.mp hnew
            have hmatch : m.Matches key i := hmatch
            have hsome := hm.find_eq (hm.occupied_of_matches hmatch) hmatch.2.1
              (Bool.eq_false_of_not_eq_true hmatch.2.2)
            rw [hfind] at hsome
            cases hsome

/-- **When the rebuild leaves all lookups alone**, on every table that orderly calls lead
to. -/
theorem rebuild_transparent_iff {ops : List IndexOp} {m : MemIndex n}
    (hops : (indexMachine n).Meets OrderlyOp (fresh n) ops)
    (hrun : (indexMachine n).run (fresh n) ops = some m) :
    (∀ key, m.rebuildPslArray.find key = m.find key) ↔ m.LiveInReach :=
  ((fresh_wf n).run hops hrun).find_rebuild_iff

/-! ### When all entries survive -/

/-- With the rebuilt lengths no entry is out of reach, not even a deleted one, and none looks
like an empty slot. -/
structure EntriesKept (m : MemIndex n) : Prop where
  nonempty : ∀ i, m.Occupied i → (m.entries i).isEmpty = false
  reach : ∀ i, m.Occupied i →
    Unstopped m.rebuiltPsl (m.entries i).key (displacement n (m.entries i).key i)

/-- The rebuilt table has the same occupied slots. -/
theorem EntriesKept.occupied_iff {m : MemIndex n} (h : m.EntriesKept) (hm : m.Wf)
    (i : Fin (2 ^ n)) : m.rebuildPslArray.Occupied i ↔ m.Occupied i := by
  rw [Occupied, rebuildPslArray_psl, rebuiltPsl]
  constructor
  · intro hpos
    by_contra hno
    rw [hm.unused i hno] at hpos
    rw [if_pos (by decide)] at hpos
    exact absurd hpos (Nat.lt_irrefl 0)
  · intro ho
    have hle := hm.displacement_le ho
    rw [h.nonempty i ho, if_neg Bool.false_ne_true]
    omega

/-- **A rebuild that keeps the ways of all entries keeps a table well formed.** -/
theorem EntriesKept.rebuild_wf {m : MemIndex n} (h : m.EntriesKept) (hm : m.Wf) :
    m.rebuildPslArray.Wf where
  unused := fun i hi => hm.unused i fun ho => hi ((h.occupied_iff hm i).mpr ho)
  tag_eq := fun i hi => hm.tag_eq i ((h.occupied_iff hm i).mp hi)
  path := by
    intro i hi
    have ho := (h.occupied_iff hm i).mp hi
    obtain ⟨d, -, -, hprobe, hpath⟩ := hm.path i ho
    have hle := MemIndex.displacement_le hprobe
    have hreach := h.reach i ho
    refine ⟨displacement n (m.entries i).key i, hm.displacement_le ho, ?_,
      probe_displacement _ i, fun j hj => ⟨?_, ?_⟩⟩
    · have := hreach _ le_rfl
      rwa [probe_displacement, ← rebuildPslArray_psl] at this
    · exact (h.occupied_iff hm _).mpr (hpath j (by omega)).1
    · rw [rebuildPslArray_psl]
      exact hreach j hj.le
  inj := fun i j hi hj hk =>
    hm.inj i j ((h.occupied_iff hm i).mp hi) ((h.occupied_iff hm j).mp hj) hk

/-! ### A table whose lookups do not survive -/

/-- A free slot. -/
def freeSlot : MemIndexEntry × ℕ := (MemIndexEntry.zero, 0)

/-- A slot with an entry and its stored length. -/
def takenSlot (key : UInt64) (sequence : UInt32) (p : ℕ) : MemIndexEntry × ℕ :=
  (sampleEntry key sequence, p)

/-- The table after keys 2, 3, 4, 5, 11 and 10, in turn. -/
def crowded : ℕ → MemIndex 3
  | 1 => ofSlots [freeSlot, freeSlot, freeSlot, freeSlot, freeSlot, freeSlot, freeSlot,
      takenSlot 2 1 1] 1
  | 2 => ofSlots [freeSlot, freeSlot, freeSlot, freeSlot, freeSlot, freeSlot, takenSlot 3 2 1,
      takenSlot 2 1 1] 2
  | 3 => ofSlots [freeSlot, takenSlot 4 3 1, freeSlot, freeSlot, freeSlot, freeSlot,
      takenSlot 3 2 1, takenSlot 2 1 1] 3
  | 4 => ofSlots [takenSlot 5 4 1, takenSlot 4 3 1, freeSlot, freeSlot, freeSlot, freeSlot,
      takenSlot 3 2 1, takenSlot 2 1 1] 4
  | 5 => ofSlots [takenSlot 2 1 3, takenSlot 5 4 3, takenSlot 4 3 4, freeSlot, freeSlot,
      freeSlot, takenSlot 3 2 1, takenSlot 11 5 1] 5
  | 6 => ofSlots [takenSlot 2 1 3, takenSlot 5 4 3, takenSlot 4 3 4, takenSlot 10 6 5, freeSlot,
      freeSlot, takenSlot 3 2 1, takenSlot 11 5 1] 6
  | _ => fresh 3

theorem upsert_crowded_zero : (fresh 3).upsert 2 (sampleEntry 2 1) = (crowded 1, true) :=
  Prod.ext (eq_of_slots (by decide +kernel) (by decide +kernel) (by decide +kernel)
    (by decide +kernel)) (by decide +kernel)

theorem upsert_crowded_one : (crowded 1).upsert 3 (sampleEntry 3 2) = (crowded 2, true) :=
  Prod.ext (eq_of_slots (by decide +kernel) (by decide +kernel) (by decide +kernel)
    (by decide +kernel)) (by decide +kernel)

theorem upsert_crowded_two : (crowded 2).upsert 4 (sampleEntry 4 3) = (crowded 3, true) :=
  Prod.ext (eq_of_slots (by decide +kernel) (by decide +kernel) (by decide +kernel)
    (by decide +kernel)) (by decide +kernel)

theorem upsert_crowded_three : (crowded 3).upsert 5 (sampleEntry 5 4) = (crowded 4, true) :=
  Prod.ext (eq_of_slots (by decide +kernel) (by decide +kernel) (by decide +kernel)
    (by decide +kernel)) (by decide +kernel)

theorem upsert_crowded_four : (crowded 4).upsert 11 (sampleEntry 11 5) = (crowded 5, true) :=
  Prod.ext (eq_of_slots (by decide +kernel) (by decide +kernel) (by decide +kernel)
    (by decide +kernel)) (by decide +kernel)

theorem upsert_crowded_five : (crowded 5).upsert 10 (sampleEntry 10 6) = (crowded 6, true) :=
  Prod.ext (eq_of_slots (by decide +kernel) (by decide +kernel) (by decide +kernel)
    (by decide +kernel)) (by decide +kernel)

/-- **An entry that the rebuild hides**: key 10 lies four turns from home, behind entries that
lie closer to theirs. -/
theorem rebuild_hides_entry : ∃ m, (indexMachine 3).run (fresh 3)
    [.upsert (sampleEntry 2 1), .upsert (sampleEntry 3 2), .upsert (sampleEntry 4 3),
      .upsert (sampleEntry 5 4), .upsert (sampleEntry 11 5), .upsert (sampleEntry 10 6)] =
        some m ∧ m.find 10 = some 3 ∧ m.rebuildPslArray.find 10 = none := by
  have h1 : (indexMachine 3).step (fresh 3) (.upsert (sampleEntry 2 1)) = some (crowded 1) :=
    step_upsert upsert_crowded_zero
  have h2 : (indexMachine 3).step (crowded 1) (.upsert (sampleEntry 3 2)) = some (crowded 2) :=
    step_upsert upsert_crowded_one
  have h3 : (indexMachine 3).step (crowded 2) (.upsert (sampleEntry 4 3)) = some (crowded 3) :=
    step_upsert upsert_crowded_two
  have h4 : (indexMachine 3).step (crowded 3) (.upsert (sampleEntry 5 4)) = some (crowded 4) :=
    step_upsert upsert_crowded_three
  have h5 : (indexMachine 3).step (crowded 4) (.upsert (sampleEntry 11 5)) =
      some (crowded 5) := step_upsert upsert_crowded_four
  have h6 : (indexMachine 3).step (crowded 5) (.upsert (sampleEntry 10 6)) =
      some (crowded 6) := step_upsert upsert_crowded_five
  refine ⟨crowded 6, ?_, by decide +kernel, by decide +kernel⟩
  simp only [Machine.run, h1, h2, h3, h4, h5, h6, Option.bind_some]

/-- The rebuild leaves the lookups of a table with two keys alone. -/
theorem rebuild_transparent_afterKey8 :
    afterKey8.rebuildPslArray.find 8 = afterKey8.find 8 := by
  have ho2 : afterKey1.OrderlyOp (.upsert (sampleEntry 8 2)) := by
    rw [OrderlyOp, sampleEntry, tagged_key]
    decide +kernel
  have hrun : (indexMachine 3).run (fresh 3)
      [.upsert (sampleEntry 1 1), .upsert (sampleEntry 8 2)] = some afterKey8 := by
    simp only [Machine.run, step_key1, step_key8, Option.bind_some]
  have hops : (indexMachine 3).Meets OrderlyOp (fresh 3)
      [.upsert (sampleEntry 1 1), .upsert (sampleEntry 8 2)] :=
    Machine.Meets.cons _ orderly_key1 step_key1 (Machine.Meets.cons _ ho2 step_key8 trivial)
  exact (rebuild_transparent_iff hops hrun).mpr (by decide +kernel) 8

end MemIndex

end SpdkKv
