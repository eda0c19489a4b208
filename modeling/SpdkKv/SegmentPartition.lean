import SpdkKv.DirtyTracking
import SpdkKv.Lib.BitFill
import SpdkKv.SegmentImage

/-!
# The Segments of the Index

The checkpoint divides the slots of the index into 80 segments of `capacity / 80` slots each.
The capacity is a power of two, so that the division leaves a remainder: the last slots lie in
no segment, and a table of less than 80 slots has no segments to speak of.

## Main results

* `nextPowerOf2_eq`: the capacities of the constructor.
* `segments_partition_iff`: **which slots the segments cover**.
* `lastSlot_not_partitioned`: no table is covered as a whole.
* `slot_in_no_segment`: a slot of a table of 1024 that no segment has.
-/

namespace SpdkKv

/-! ### The capacity -/

/-- `next_power_of_2`. -/
def nextPowerOf2 (n : UInt64) : UInt64 :=
  let n := n - 1
  let n := n ||| n >>> 1
  let n := n ||| n >>> 2
  let n := n ||| n >>> 4
  let n := n ||| n >>> 8
  let n := n ||| n >>> 16
  let n := n ||| n >>> 32
  n + 1

/-- The capacity that the constructor computes from `max_entries / load_factor`, truncated. -/
def indexCapacity (quotient : UInt64) : ℕ := (nextPowerOf2 quotient).toNat

/-- A step of `next_power_of_2`. -/
theorem filledBy_or_shift {w x : ℕ} {y s : UInt64} (h : BitFill.FilledBy w x y.toNat)
    (hs : s.toNat = w) (hw : w < 64) : BitFill.FilledBy (w + w) x (y ||| y >>> s).toNat := by
  rw [UInt64.toNat_or, UInt64.toNat_shiftRight, hs, Nat.mod_eq_of_lt hw]
  exact h.double

/-- **The capacities of the constructor**: powers of two, and 0 for a quotient above `2 ^ 63`. -/
theorem nextPowerOf2_eq (quotient : UInt64) :
    indexCapacity quotient = 2 ^ (quotient - 1).toNat.size % 2 ^ 64 := by
  have h1 := BitFill.FilledBy.one (quotient - 1).toNat
  have h2 := filledBy_or_shift h1 (show (1 : UInt64).toNat = 1 from rfl) (by decide)
  have h4 := filledBy_or_shift h2 (show (2 : UInt64).toNat = 1 + 1 from rfl) (by decide)
  have h8 := filledBy_or_shift h4 (show (4 : UInt64).toNat = 1 + 1 + (1 + 1) from rfl) (by decide)
  have h16 := filledBy_or_shift h8 (show (8 : UInt64).toNat = 8 from rfl) (by decide)
  have h32 := filledBy_or_shift h16 (show (16 : UInt64).toNat = 16 from rfl) (by decide)
  have h64 := filledBy_or_shift h32 (show (32 : UInt64).toNat = 32 from rfl) (by decide)
  have hall := h64.eq_two_pow_sub_one (quotient - 1).toNat_lt
  have hpos := Nat.two_pow_pos (quotient - 1).toNat.size
  refine (UInt64.toNat_add _ 1).trans ?_
  rw [hall]
  exact congrArg (· % 2 ^ 64) (Nat.sub_add_cancel hpos)

/-- A capacity that is not 0 is a power of two. -/
theorem indexCapacity_eq {quotient : UInt64} (h : 0 < indexCapacity quotient) :
    ∃ n, indexCapacity quotient = 2 ^ n := by
  have heq := nextPowerOf2_eq quotient
  refine ⟨(quotient - 1).toNat.size, ?_⟩
  rcases Nat.lt_or_ge (quotient - 1).toNat.size 64 with hlt | hge
  · rw [heq, Nat.mod_eq_of_lt (Nat.pow_lt_pow_right Nat.one_lt_two hlt)]
  · have hzero := Nat.mod_eq_zero_of_dvd (Nat.pow_dvd_pow 2 hge)
    rw [heq, hzero] at h
    exact absurd h (Nat.lt_irrefl 0)

/-! ### Marking and serialising -/

/-- The number of slots of a segment. -/
def entriesPerSegment (capacity : ℕ) : ℕ := capacity / kMemIndexSegmentCount

/-- `mark_dirty` for a bucket; `none` where it divides by zero. -/
def IncrementalCheckpoint.markDirtyBucket (self : IncrementalCheckpoint)
    (capacity bucketIndex : ℕ) : Option IncrementalCheckpoint :=
  if entriesPerSegment capacity = 0 then none
  else
    let segmentId := bucketIndex / entriesPerSegment capacity % 2 ^ 32
    some (if h : segmentId < kMemIndexSegmentCount then self.markDirty ⟨segmentId, h⟩ else self)

/-- The slot is in the range that `serialize_segment` walks. -/
def InSegment (capacity : ℕ) (segment : Segment) (bucket : ℕ) : Prop :=
  let startIdx := segment.val * entriesPerSegment capacity
  startIdx ≤ bucket ∧ bucket < startIdx + entriesPerSegment capacity ∧ bucket < capacity

namespace MemIndex

variable {n : ℕ}

/-- The slots that `serialize_segment` copies. -/
def segmentSlots (m : MemIndex n) (segment : Segment) : List (Fin (2 ^ n)) :=
  let entriesPerSegment := 2 ^ n / kMemIndexSegmentCount
  let startIdx := segment.val * entriesPerSegment
  (List.finRange (2 ^ n)).filter fun i =>
    startIdx ≤ i.val && i.val < startIdx + entriesPerSegment && 0 < m.psl i

/-- `serialize_segment` copies the entries of these slots. -/
theorem segmentEntries_eq (m : MemIndex n) (segment : Segment) :
    m.segmentEntries segment = (m.segmentSlots segment).map m.entries := rfl

/-- The slots whose entries the segments contain when all of them are serialised; one that
does not fit the buffer contains none. -/
def emittedSlots (m : MemIndex n) (versions : Segment → ℕ) (sequence : UInt32) :
    List (Fin (2 ^ n)) :=
  (List.finRange kMemIndexSegmentCount).flatMap fun segment =>
    if (m.serializeSegment (versions segment) sequence segment).isSome
    then m.segmentSlots segment else []

end MemIndex

/-- What the segments promise for a slot: marking it is defined and marks a segment that has
it, just one segment has it, and serialising all segments emits it once if it is occupied. -/
structure Partitioned (capacity bucket : ℕ) : Prop where
  marked : ∀ manager : IncrementalCheckpoint, ∃ segment, InSegment capacity segment bucket ∧
    manager.markDirtyBucket capacity bucket = some (manager.markDirty segment)
  unique : ∃! segment, InSegment capacity segment bucket
  emitted : ∀ {n} (m : MemIndex n) (i : Fin (2 ^ n)), 2 ^ n = capacity → i.val = bucket →
    m.Occupied i → ∀ versions sequence, (m.emittedSlots versions sequence).count i = 1

/-- The number of entries for which the segment buffer has room. -/
def maxSegmentEntries : ℕ := (kSegmentBufferSize - sizeofSegmentHeader) / sizeofMemIndexEntry

/-! ### The segment of a slot -/

section Segment

variable {capacity bucket : ℕ} {segment : Segment}

theorem inSegment_iff : InSegment capacity segment bucket ↔
    0 < entriesPerSegment capacity ∧ bucket / entriesPerSegment capacity = segment.val := by
  constructor
  · rintro ⟨hle, hlt, -⟩
    exact ⟨by omega, Nat.div_eq_of_lt_le hle (by rwa [Nat.succ_mul])⟩
  · rintro ⟨hpos, hdiv⟩
    have hmod := Nat.mod_lt bucket hpos
    have hsplit := Nat.div_add_mod' bucket (entriesPerSegment capacity)
    have hall : kMemIndexSegmentCount * entriesPerSegment capacity ≤ capacity :=
      Nat.mul_div_le capacity kMemIndexSegmentCount
    have hnext : (segment.val + 1) * entriesPerSegment capacity ≤
        kMemIndexSegmentCount * entriesPerSegment capacity :=
      Nat.mul_le_mul_right _ segment.isLt
    rw [hdiv] at hsplit
    rw [Nat.succ_mul] at hnext
    refine ⟨?_, ?_, ?_⟩ <;> omega

/-- A slot has a segment when it is in front of the end of the last one. -/
theorem exists_inSegment_iff : (∃ segment, InSegment capacity segment bucket) ↔
    bucket < kMemIndexSegmentCount * entriesPerSegment capacity := by
  constructor
  · rintro ⟨segment, h⟩
    obtain ⟨hpos, hdiv⟩ := inSegment_iff.mp h
    exact (Nat.div_lt_iff_lt_mul hpos).mp (hdiv.trans_lt segment.isLt)
  · intro h
    have hpos : 0 < entriesPerSegment capacity := by
      rcases Nat.eq_zero_or_pos (entriesPerSegment capacity) with hzero | hpos
      · rw [hzero, Nat.mul_zero] at h
        exact absurd h (Nat.not_lt_zero _)
      · exact hpos
    exact ⟨⟨_, (Nat.div_lt_iff_lt_mul hpos).mpr h⟩, inSegment_iff.mpr ⟨hpos, rfl⟩⟩

/-- No slot is in two segments. -/
theorem InSegment.eq {segment' : Segment} (h : InSegment capacity segment bucket)
    (h' : InSegment capacity segment' bucket) : segment = segment' :=
  Fin.ext ((inSegment_iff.mp h).2.symm.trans (inSegment_iff.mp h').2)

/-- A slot of a segment is marked there. -/
theorem InSegment.markDirtyBucket (h : InSegment capacity segment bucket)
    (manager : IncrementalCheckpoint) :
    manager.markDirtyBucket capacity bucket = some (manager.markDirty segment) := by
  obtain ⟨hpos, hdiv⟩ := inSegment_iff.mp h
  have hsmall : segment.val % 2 ^ 32 = segment.val :=
    Nat.mod_eq_of_lt (segment.isLt.trans (by decide))
  rw [IncrementalCheckpoint.markDirtyBucket, if_neg hpos.ne']
  simp only [hdiv, hsmall, segment.isLt, dite_true]

/-- The dirty tracking takes the same slots for those of a segment. -/
theorem segmentOf_eq_some_iff {n : ℕ} {i : Fin (2 ^ n)} :
    segmentOf n i = some segment ↔ InSegment (2 ^ n) segment i.val := by
  rw [inSegment_iff, segmentOf, entriesPerSegment]
  split_ifs with h
  · rw [Option.some.injEq, Fin.ext_iff]
    exact ⟨fun heq => ⟨h.1, heq⟩, And.right⟩
  · refine iff_of_false nofun fun hseg => h ⟨hseg.1, ?_⟩
    rw [hseg.2]
    exact segment.isLt

end Segment

/-! ### The slots that are emitted -/

namespace MemIndex

variable {n : ℕ} {m : MemIndex n} {i : Fin (2 ^ n)}

theorem mem_segmentSlots {segment : Segment} :
    i ∈ m.segmentSlots segment ↔ InSegment (2 ^ n) segment i.val ∧ m.Occupied i := by
  rw [segmentSlots, List.mem_filter, and_iff_right (List.mem_finRange i), InSegment, Occupied]
  simp only [Bool.and_eq_true, decide_eq_true_eq, entriesPerSegment, i.isLt, and_true]

theorem isSome_serializeSegment (version : ℕ) (sequence : UInt32) (segment : Segment) :
    (m.serializeSegment version sequence segment).isSome ↔
      entriesPerSegment (2 ^ n) ≤ maxSegmentEntries := by
  rw [serializeSegment, maxSegmentEntries, entriesPerSegment]
  split_ifs with h
  · exact iff_of_false Bool.false_ne_true (not_le.mpr h)
  · exact iff_of_true rfl (not_lt.mp h)

/-- No slot is emitted twice. -/
theorem nodup_emittedSlots (m : MemIndex n) (versions : Segment → ℕ) (sequence : UInt32) :
    (m.emittedSlots versions sequence).Nodup := by
  rw [emittedSlots, List.nodup_flatMap]
  constructor
  · intro segment _
    split_ifs
    · exact (List.nodup_finRange _).filter _
    · exact List.nodup_nil
  · refine (List.nodup_finRange kMemIndexSegmentCount).imp fun hne => ?_
    intro i hi hi'
    dsimp only at hi hi'
    split_ifs at hi hi'
    · exact hne ((mem_segmentSlots.mp hi).1.eq (mem_segmentSlots.mp hi').1)
    all_goals exact absurd ‹i ∈ []› List.not_mem_nil

/-- The slots that are emitted: the occupied ones of the segments, if these fit the buffer. -/
theorem mem_emittedSlots {versions : Segment → ℕ} {sequence : UInt32} :
    i ∈ m.emittedSlots versions sequence ↔ m.Occupied i ∧
      i.val < kMemIndexSegmentCount * entriesPerSegment (2 ^ n) ∧
        entriesPerSegment (2 ^ n) ≤ maxSegmentEntries := by
  rw [emittedSlots, List.mem_flatMap, ← exists_inSegment_iff]
  simp only [isSome_serializeSegment, List.mem_finRange, true_and]
  by_cases hfits : entriesPerSegment (2 ^ n) ≤ maxSegmentEntries
  · simp only [hfits, if_true, mem_segmentSlots, and_true, exists_and_right]
    exact and_comm
  · simp [hfits]

/-- A slot that is emitted is emitted once. -/
theorem count_emittedSlots {versions : Segment → ℕ} {sequence : UInt32} :
    (m.emittedSlots versions sequence).count i = 1 ↔
      i ∈ m.emittedSlots versions sequence := by
  constructor
  · exact fun h => List.count_pos_iff.mp (h ▸ Nat.one_pos)
  · exact List.nodup_iff_count_eq_one.mp (m.nodup_emittedSlots versions sequence) i

/-- A table whose slots are all taken. -/
def allTaken (n : ℕ) : MemIndex n := { fresh n with psl := fun _ => 1 }

end MemIndex

/-! ### The partition -/

/-- **Which slots the segments cover**, for every capacity of the constructor: those in front
of the end of the last segment, when a segment fits the buffer. -/
theorem segments_partition_iff (quotient : UInt64) (bucket : ℕ) :
    Partitioned (indexCapacity quotient) bucket ↔
      bucket < kMemIndexSegmentCount * entriesPerSegment (indexCapacity quotient) ∧
        entriesPerSegment (indexCapacity quotient) ≤ maxSegmentEntries := by
  constructor
  · rintro ⟨-, hunique, hemitted⟩
    have hin := hunique.exists
    have hlt : bucket < indexCapacity quotient := hin.elim fun _ h => h.2.2
    obtain ⟨n, hn⟩ := indexCapacity_eq (Nat.zero_lt_of_lt hlt)
    have hone := hemitted (MemIndex.allTaken n) ⟨bucket, hn ▸ hlt⟩ hn.symm rfl Nat.one_pos
      (fun _ => 0) 0
    obtain ⟨-, -, hfits⟩ := MemIndex.mem_emittedSlots.mp (MemIndex.count_emittedSlots.mp hone)
    exact ⟨exists_inSegment_iff.mp hin, hn ▸ hfits⟩
  · rintro ⟨hlt, hfits⟩
    obtain ⟨segment, hseg⟩ := exists_inSegment_iff.mpr hlt
    refine ⟨fun manager => ⟨segment, hseg, hseg.markDirtyBucket manager⟩,
      ⟨segment, hseg, fun segment' h => h.eq hseg⟩, fun m i hn hi hocc versions sequence => ?_⟩
    rw [← hn, ← hi] at hlt
    rw [← hn] at hfits
    exact MemIndex.count_emittedSlots.mpr (MemIndex.mem_emittedSlots.mpr ⟨hocc, hlt, hfits⟩)

/-- **No table is covered as a whole**: its last slot lies behind the last segment. -/
theorem lastSlot_not_partitioned {quotient : UInt64} (h : 0 < indexCapacity quotient) :
    ¬ Partitioned (indexCapacity quotient) (indexCapacity quotient - 1) := by
  rw [segments_partition_iff]
  rintro ⟨hlt, -⟩
  obtain ⟨n, hn⟩ := indexCapacity_eq h
  have hle := Nat.mul_div_le (indexCapacity quotient) kMemIndexSegmentCount
  rw [entriesPerSegment] at hlt
  have heq : 5 * (16 * (indexCapacity quotient / kMemIndexSegmentCount)) = 2 ^ n := by
    rw [kMemIndexSegmentCount] at hlt hle ⊢
    omega
  have hdvd : 5 ∣ 2 ^ n := ⟨_, heq.symm⟩
  have hcoprime : Nat.Coprime 5 (2 ^ n) := Nat.Coprime.pow_right n (by decide)
  exact absurd (hcoprime.eq_one_of_dvd hdvd) (by decide)

/-- **A slot in no segment**: a table for 768 entries at a load of 3/4 has 1024 slots, and its
segments end at slot 960. A table for 6 entries has 8 slots, and to mark one of them divides
by zero. -/
theorem slot_in_no_segment : indexCapacity 1024 = 1024 ∧ ¬ Partitioned 1024 960 ∧
    indexCapacity 8 = 8 ∧
      IncrementalCheckpoint.fresh.markDirtyBucket 8 0 = none := by
  refine ⟨by decide, fun h => ?_, by decide, rfl⟩
  have hlt := exists_inSegment_iff.mp h.unique.exists
  exact absurd hlt (by decide)

end SpdkKv
