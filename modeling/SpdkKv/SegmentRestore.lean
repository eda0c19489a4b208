import SpdkKv.ImageRoundTrip
import SpdkKv.IndexBytes
import SpdkKv.Lib.Packing
import SpdkKv.RebuiltLengths
import SpdkKv.SegmentPartition

/-!
# Reading the Segments Back

`deserialize_segment` of `checkpoint.cpp` stores the entries of a segment from its first slot
on. The segment has been written without its free slots, and nothing says where they were.

## Main results

* `Stamped.run`: which slots of a reachable index have an entry.
* `entries_restoreSegment`: what reading a segment stores.
* `restoresSegment_iff`: when a segment comes back as it was.
* `restored_from_segments_iff`: **when all of them do, and their keys are found**.
* `segment_moves_entry`: an entry that comes back at another slot.
-/

namespace SpdkKv

/-! ### Deserialising a segment -/

/-- The header that the first bytes of a buffer stand for. -/
def SegmentHeader.ofBytes (bs : List UInt8) : SegmentHeader where
  magic := readU32 bs 0
  segmentId := readU32 bs 4
  version := readU64 bs 8
  entryCount := readU64 bs 16
  dirtySequence := readU64 bs 24
  checksum := readU32 bs 32

namespace MemIndex

variable {n : ℕ}

/-- `deserialize_segment`: the index with the entries, and the version of the segment; nothing
when the segment is rejected. -/
def deserializeSegment (m : MemIndex n) (segment : Segment) (buffer : List UInt8) :
    Option (MemIndex n × UInt64) :=
  if buffer.length < sizeofSegmentHeader then none
  else
    let header := SegmentHeader.ofBytes buffer
    if header.magic ≠ kSegmentMagic ∨ header.segmentId ≠ UInt32.ofNat segment.val then none
    else
      let entryData := buffer.drop sizeofSegmentHeader
      if Crc32.calculate entryData ≠ header.checksum then none
      else
        let entriesPerSegment := 2 ^ n / kMemIndexSegmentCount
        let startIdx := segment.val * entriesPerSegment
        let numEntries := entryData.length / sizeofMemIndexEntry
        let entries := fun i : Fin (2 ^ n) =>
          -- the entries of the buffer go to consecutive slots
          if startIdx ≤ i.val ∧ i.val - startIdx < numEntries ∧
              i.val - startIdx < entriesPerSegment then
            MemIndexEntry.ofBytes
              (slice entryData ((i.val - startIdx) * sizeofMemIndexEntry) sizeofMemIndexEntry)
          else m.entries i
        some ({ m with entries := entries }, header.version)

/-- What an index is after it has read the segment that was serialised from `m`; a serialiser
that returns 0 has produced no bytes. -/
def restoreSegment (m : MemIndex n) (versions : Segment → ℕ) (sequence : UInt32)
    (t : MemIndex n) (segment : Segment) : MemIndex n :=
  let buffer := (m.serializeSegment (versions segment) sequence segment).getD []
  (t.deserializeSegment segment buffer).elim t Prod.fst

/-- All segments are read into a zeroed index, and its lengths are rebuilt. -/
def restored (m : MemIndex n) (versions : Segment → ℕ) (sequence : UInt32) : MemIndex n :=
  ((List.finRange kMemIndexSegmentCount).foldl (m.restoreSegment versions sequence)
    (fresh n)).rebuildPslArray

/-- **What reading a segment promises**: on a zeroed index every slot of its range gets the
contents that it had. -/
def RestoresSegment (m : MemIndex n) (versions : Segment → ℕ) (sequence : UInt32)
    (segment : Segment) : Prop :=
  ∀ i : Fin (2 ^ n), InSegment (2 ^ n) segment i.val →
    (m.restoreSegment versions sequence (fresh n) segment).entries i = m.entries i

/-- The slot is in the range of a segment. -/
def Covered (n : ℕ) (i : Fin (2 ^ n)) : Prop :=
  i.val < kMemIndexSegmentCount * entriesPerSegment (2 ^ n)

instance (i : Fin (2 ^ n)) : Decidable (Covered n i) := inferInstanceAs (Decidable (_ < _))

/-- **What the segments promise together**: each of them comes back as it was, and with all of
them read every key in their slots is found. -/
structure RestoredFromSegments (m : MemIndex n) (versions : Segment → ℕ) (sequence : UInt32) :
    Prop where
  segments : ∀ segment, m.RestoresSegment versions sequence segment
  found : ∀ i, Covered n i → m.LiveAt i →
    (m.restored versions sequence).find (m.entries i).key ≠ none

/-! ### When they do -/

/-- An entry of the segment has a buffer that it fits, and no free slot of the segment in front
of it. -/
structure SegmentPacked (m : MemIndex n) (segment : Segment) : Prop where
  fits : ∀ i : Fin (2 ^ n), InSegment (2 ^ n) segment i.val → m.Occupied i →
    entriesPerSegment (2 ^ n) ≤ maxSegmentEntries
  gapless : ∀ i j : Fin (2 ^ n), InSegment (2 ^ n) segment i.val →
    InSegment (2 ^ n) segment j.val → i < j → m.Occupied j → m.Occupied i

/-- The length that a slot gets when the segments alone come back. -/
def coveredPsl (m : MemIndex n) (i : Fin (2 ^ n)) : ℕ := if Covered n i then m.rebuiltPsl i else 0

/-- A lookup of the key comes to an entry of it in the segments, with the lengths that these
slots get. -/
def InReach (m : MemIndex n) (key : UInt64) : Prop :=
  ∃ d ≤ 128, Covered n (probe n key d) ∧ m.Matches key (probe n key d) ∧
    Unstopped m.coveredPsl key d

/-! ### Which slots have an entry -/

/-- A slot that was never taken is zeroed, and every entry carries the fingerprint of its
key. -/
structure Stamped (m : MemIndex n) : Prop where
  unused : ∀ i, ¬ m.Occupied i → m.entries i = MemIndexEntry.zero
  tag_eq : ∀ i, m.Occupied i → (m.entries i).tag = HashUtil.tag (m.entries i).key

/-- An entry with the fingerprint of its key is not that of a zeroed slot. -/
theorem ne_zero_of_tag {e : MemIndexEntry} (h : e.tag = HashUtil.tag e.key) :
    e ≠ MemIndexEntry.zero := by
  rintro rfl
  exact tag_zero_ne h.symm

namespace Stamped

variable {m : MemIndex n}

theorem fresh (n : ℕ) : (fresh n).Stamped :=
  ⟨fun _ _ => rfl, fun _ h => absurd h (Nat.lt_irrefl 0)⟩

/-- The slots with an entry are those that are not zeroed. -/
theorem occupied_iff (h : m.Stamped) (i : Fin (2 ^ n)) :
    m.Occupied i ↔ m.entries i ≠ MemIndexEntry.zero :=
  ⟨fun ho => ne_zero_of_tag (h.tag_eq i ho), fun hne => not_not.mp (mt (h.unused i) hne)⟩

/-- A match is an entry. -/
theorem occupied_of_matches (h : m.Stamped) {key : UInt64} {i : Fin (2 ^ n)}
    (hmatch : m.Matches key i) : m.Occupied i := by
  refine (h.occupied_iff i).mpr (ne_zero_of_tag ?_)
  rw [hmatch.1, hmatch.2.1]

/-- A slot that is not vacant has an entry. -/
theorem occupied_of_not_vacant (h : m.Stamped) {i : Fin (2 ^ n)} (hv : ¬ m.vacant i = true) :
    m.Occupied i := by
  by_contra hfree
  have hz : m.psl i = 0 := Nat.eq_zero_of_not_pos hfree
  refine hv ?_
  rw [vacant, hz, h.unused i hfree]
  rfl

/-- Storing an entry with its fingerprint and a length. -/
theorem place (h : m.Stamped) (i : Fin (2 ^ n)) {e : MemIndexEntry}
    (he : e.tag = HashUtil.tag e.key) {p : ℕ} (hp : 0 < p) :
    ((m.setEntry i e).setPsl i p).Stamped := by
  constructor
  · intro j hfree
    rcases eq_or_ne j i with rfl | hne
    · exact absurd hp (by simpa [Occupied, setPsl] using hfree)
    · have hfree : ¬ m.Occupied j := by simpa [Occupied, setPsl, setEntry, hne] using hfree
      simpa [setPsl, setEntry, hne] using h.unused j hfree
  · intro j ho
    rcases eq_or_ne j i with rfl | hne
    · simpa [setPsl, setEntry] using he
    · have ho : m.Occupied j := by simpa [Occupied, setPsl, setEntry, hne] using ho
      simpa [setPsl, setEntry, hne] using h.tag_eq j ho

/-- Replacing the entry of a slot that has one. -/
theorem replace (h : m.Stamped) {i : Fin (2 ^ n)} (ho : m.Occupied i) {e : MemIndexEntry}
    (he : e.tag = HashUtil.tag e.key) : (m.setEntry i e).Stamped := by
  constructor
  · intro j hfree
    have hne : j ≠ i := fun heq => hfree (heq ▸ ho)
    simpa [setEntry, hne] using h.unused j hfree
  · intro j hj
    rcases eq_or_ne j i with rfl | hne
    · simpa [setEntry] using he
    · simpa [setEntry, hne] using h.tag_eq j hj

/-- Neither the size nor the sequence matters. -/
theorem congr {m' : MemIndex n} (h : m.Stamped) (he : m'.entries = m.entries)
    (hp : m'.psl = m.psl) : m'.Stamped := by
  refine ⟨fun i hfree => ?_, fun i ho => ?_⟩
  · rw [he]
    exact h.unused i fun ho => hfree (by rwa [Occupied, hp])
  · rw [he]
    exact h.tag_eq i (by rwa [Occupied, hp] at ho)

/-- An insertion, whatever it displaces. -/
theorem upsert (h : m.Stamped) (e : MemIndexEntry) : (m.upsert e.key e).1.Stamped := by
  refine (upsertLoop e.key).run_induction
    (fun s => s.table.Stamped ∧ s.entryToInsert.tag = HashUtil.tag s.entryToInsert.key)
    (fun r => r.1.Stamped) ?_ ⟨h, by rw [tagged_tag, tagged_key]⟩
  rintro s ⟨hs, htag⟩
  have hprobe : Sum.elim (fun s' => s'.table.Stamped ∧
      s'.entryToInsert.tag = HashUtil.tag s'.entryToInsert.key)
      (fun r : MemIndex n × Bool => r.1.Stamped) (upsertProbe e.key s) := by
    rw [upsertProbe]
    dsimp only
    split_ifs with hv hk hn hswap
    · exact (hs.place s.idx htag (Nat.succ_pos _)).congr rfl rfl
    · exact hs.replace (hs.occupied_of_not_vacant hv) htag
    · exact hs
    · -- the resident has a length of at least 1, so the entry put down has one as well
      have ho := hs.occupied_of_not_vacant hv
      have hpos : 0 < s.dist := by
        rw [Occupied] at ho
        omega
      exact ⟨hs.place s.idx htag hpos, hs.tag_eq s.idx ho⟩
    · exact ⟨hs, htag⟩
  show Sum.elim _ _ (upsertBody e.key s)
  rw [upsertBody]
  split
  · next r hr => rwa [hr] at hprobe
  · next s' hs' =>
      rw [hs'] at hprobe
      split_ifs
      · exact hprobe.1
      · exact hprobe

theorem remove (h : m.Stamped) (key : UInt64) : (m.remove key).1.Stamped := by
  rw [MemIndex.remove]
  split
  · next i hi =>
      have ho := h.occupied_of_matches (matches_of_find hi)
      exact h.replace ho (h.tag_eq i ho)
  · exact h

/-- **Which slots of a reachable index have an entry**, whatever the calls were. -/
theorem run {m' : MemIndex n} {ops : List IndexOp} (h : m.Stamped)
    (hrun : (indexMachine n).run m ops = some m') : m'.Stamped := by
  rw [indexMachine_run] at hrun
  obtain rfl := Option.some.inj hrun
  clear hrun
  induction ops generalizing m with
  | nil => exact h
  | cons op ops ih =>
      refine ih ?_
      cases op with
      | upsert e => exact h.upsert e
      | remove key => exact h.remove key

end Stamped

/-! ### The bytes of a segment -/

end MemIndex

/-- A header is read back from the front of a buffer. -/
theorem SegmentHeader.ofBytes_append (h : SegmentHeader) (data : List UInt8) :
    SegmentHeader.ofBytes (h.bytes ++ data) = h := by
  have hlayout : h.bytes ++ data =
      leBytes 4 h.magic.toNat ++ (leBytes 4 h.segmentId.toNat ++ (leBytes 8 h.version.toNat ++
        (leBytes 8 h.entryCount.toNat ++ (leBytes 8 h.dirtySequence.toNat ++
          (leBytes 4 h.checksum.toNat ++ (List.replicate 28 0 ++ data)))))) := by
    simp only [bytes, List.append_assoc]
  have hmagic : readU32 (h.bytes ++ data) 0 = h.magic := by
    rw [readU32, hlayout, fieldAt_front (length_leBytes _ _),
      leNat_leBytes_of_lt h.magic.toNat_lt, UInt32.ofNat_toNat]
  have hid : readU32 (h.bytes ++ data) 4 = h.segmentId := by
    rw [readU32, hlayout, fieldAt_append (length_leBytes _ _) (length_leBytes _ _),
      leNat_leBytes_of_lt h.segmentId.toNat_lt, UInt32.ofNat_toNat]
  have hversion : readU64 (h.bytes ++ data) 8 = h.version := by
    rw [readU64, hlayout, ← List.append_assoc, fieldAt_append (by simp) (length_leBytes _ _),
      leNat_leBytes_of_lt h.version.toNat_lt, UInt64.ofNat_toNat]
  have hcount : readU64 (h.bytes ++ data) 16 = h.entryCount := by
    rw [readU64, hlayout, ← List.append_assoc, ← List.append_assoc,
      fieldAt_append (by simp) (length_leBytes _ _),
      leNat_leBytes_of_lt h.entryCount.toNat_lt, UInt64.ofNat_toNat]
  have hsequence : readU64 (h.bytes ++ data) 24 = h.dirtySequence := by
    rw [readU64, hlayout, ← List.append_assoc, ← List.append_assoc, ← List.append_assoc,
      fieldAt_append (by simp) (length_leBytes _ _),
      leNat_leBytes_of_lt h.dirtySequence.toNat_lt, UInt64.ofNat_toNat]
  have hchecksum : readU32 (h.bytes ++ data) 32 = h.checksum := by
    rw [readU32, hlayout, ← List.append_assoc, ← List.append_assoc, ← List.append_assoc,
      ← List.append_assoc, fieldAt_append (by simp) (length_leBytes _ _),
      leNat_leBytes_of_lt h.checksum.toNat_lt, UInt32.ofNat_toNat]
  rw [ofBytes, hmagic, hid, hversion, hcount, hsequence, hchecksum]

@[simp] theorem SegmentHeader.length_bytes (h : SegmentHeader) :
    h.bytes.length = sizeofSegmentHeader := by
  simp only [bytes, List.length_append, length_leBytes, List.length_replicate,
    sizeofSegmentHeader]

/-- The bytes of entries in a row, cut at the size of one. -/
theorem slice_flatMap_bytes {es : List MemIndexEntry} {k : ℕ} {e : MemIndexEntry}
    (h : es[k]? = some e) :
    slice (es.flatMap MemIndexEntry.bytes) (k * sizeofMemIndexEntry) sizeofMemIndexEntry =
      e.bytes := by
  induction es generalizing k with
  | nil => cases h
  | cons x es ih =>
      cases k with
      | zero =>
          obtain rfl := Option.some.inj h
          rw [Nat.zero_mul, slice, List.drop_zero, List.flatMap_cons,
            List.take_left' (MemIndexEntry.length_bytes x)]
      | succ k =>
          rw [← ih h, slice, slice, List.flatMap_cons, Nat.succ_mul, Nat.add_comm,
            ← List.drop_drop, List.drop_left' (MemIndexEntry.length_bytes x)]

namespace MemIndex

variable {n : ℕ}

/-- What reading a segment stores in a slot, if anything. -/
def storedAt (m : MemIndex n) (segment : Segment) (i : Fin (2 ^ n)) : Option MemIndexEntry :=
  if entriesPerSegment (2 ^ n) ≤ maxSegmentEntries ∧
      segment.val * entriesPerSegment (2 ^ n) ≤ i.val then
    (m.segmentEntries segment)[i.val - segment.val * entriesPerSegment (2 ^ n)]?
  else none

/-- The slots of the range of a segment. -/
def segmentSlot (segment : Segment) (k : Fin (entriesPerSegment (2 ^ n))) : Fin (2 ^ n) :=
  ⟨segment.val * entriesPerSegment (2 ^ n) + k.val, by
    have hall : kMemIndexSegmentCount * entriesPerSegment (2 ^ n) ≤ 2 ^ n :=
      Nat.mul_div_le (2 ^ n) kMemIndexSegmentCount
    have hnext : (segment.val + 1) * entriesPerSegment (2 ^ n) ≤
        kMemIndexSegmentCount * entriesPerSegment (2 ^ n) :=
      Nat.mul_le_mul_right _ segment.isLt
    have hk := k.isLt
    rw [Nat.succ_mul] at hnext
    omega⟩

theorem inSegment_segmentSlot (segment : Segment) (k : Fin (entriesPerSegment (2 ^ n))) :
    InSegment (2 ^ n) segment (segmentSlot segment k).val :=
  ⟨Nat.le_add_right _ _, Nat.add_lt_add_left k.isLt _, (segmentSlot segment k).isLt⟩

theorem exists_segmentSlot {segment : Segment} {i : Fin (2 ^ n)}
    (h : InSegment (2 ^ n) segment i.val) : ∃ k, segmentSlot segment k = i := by
  obtain ⟨hle, hlt, -⟩ := h
  exact ⟨⟨i.val - segment.val * entriesPerSegment (2 ^ n), by omega⟩,
    Fin.ext (Nat.add_sub_of_le hle)⟩

theorem segmentSlot_lt_iff {segment : Segment} {j k : Fin (entriesPerSegment (2 ^ n))} :
    segmentSlot segment j < segmentSlot segment k ↔ j < k :=
  Nat.add_lt_add_iff_left

/-- The contents of a segment, slot by slot. -/
def slotContents (m : MemIndex n) (segment : Segment) : List MemIndexEntry :=
  List.ofFn fun k => m.entries (segmentSlot segment k)

/-- The occupied slots of a segment, in the order of its range. -/
theorem segmentSlots_eq (m : MemIndex n) (segment : Segment) : m.segmentSlots segment =
    (List.ofFn (segmentSlot (n := n) segment)).filter fun i => decide (m.Occupied i) := by
  have hleft : (m.segmentSlots segment).Pairwise (· < ·) :=
    (List.pairwise_lt_finRange _).filter _
  have hright : ((List.ofFn (segmentSlot (n := n) segment)).filter
      fun i => decide (m.Occupied i)).Pairwise (· < ·) :=
    (List.pairwise_ofFn.mpr fun _ _ hlt => segmentSlot_lt_iff.mpr hlt).filter _
  refine hleft.eq_of_mem_iff hright fun i => ?_
  rw [mem_segmentSlots, List.mem_filter, List.mem_ofFn, decide_eq_true_eq]
  refine and_congr_left fun _ => ⟨exists_segmentSlot, ?_⟩
  rintro ⟨k, rfl⟩
  exact inSegment_segmentSlot segment k

/-- A segment is serialised without its zeroed slots. -/
theorem Stamped.segmentEntries_eq {m : MemIndex n} (hm : m.Stamped) (segment : Segment) :
    m.segmentEntries segment =
      (m.slotContents segment).filter fun e => decide (e ≠ MemIndexEntry.zero) := by
  rw [MemIndex.segmentEntries_eq, segmentSlots_eq, slotContents]
  have hmap : (List.ofFn fun k => m.entries (segmentSlot segment k)) =
      (List.ofFn (segmentSlot (n := n) segment)).map m.entries := by
    rw [List.map_ofFn]
    rfl
  rw [hmap, List.filter_map]
  refine congrArg (List.map m.entries) (List.filter_congr fun i _ => ?_)
  exact decide_eq_decide.mpr (hm.occupied_iff i)

/-! ### What is stored -/

/-- A segment has no more entries than slots. -/
theorem length_segmentEntries_le (m : MemIndex n) (segment : Segment) :
    (m.segmentEntries segment).length ≤ entriesPerSegment (2 ^ n) := by
  rw [MemIndex.segmentEntries_eq, segmentSlots_eq, List.length_map]
  exact (List.length_filter_le _ _).trans_eq List.length_ofFn

theorem storedAt_of_not_inSegment {m : MemIndex n} {segment : Segment} {i : Fin (2 ^ n)}
    (h : ¬ InSegment (2 ^ n) segment i.val) : m.storedAt segment i = none := by
  rw [storedAt]
  split_ifs with hin
  · have hlen := m.length_segmentEntries_le segment
    refine List.getElem?_eq_none (hlen.trans (not_lt.mp fun hlt => h ⟨hin.2, ?_, i.isLt⟩))
    omega
  · rfl

theorem storedAt_segmentSlot {m : MemIndex n} {segment : Segment}
    (hfits : entriesPerSegment (2 ^ n) ≤ maxSegmentEntries)
    (k : Fin (entriesPerSegment (2 ^ n))) :
    m.storedAt segment (segmentSlot segment k) = (m.segmentEntries segment)[k.val]? := by
  rw [storedAt, if_pos ⟨hfits, Nat.le_add_right _ _⟩]
  exact congrArg _ (Nat.add_sub_cancel_left _ _)

/-- **What reading a segment stores**: its entries in a row, from its first slot on. -/
theorem entries_restoreSegment (m : MemIndex n) (versions : Segment → ℕ) (sequence : UInt32)
    (t : MemIndex n) (segment : Segment) (i : Fin (2 ^ n)) :
    (m.restoreSegment versions sequence t segment).entries i =
      (m.storedAt segment i).getD (t.entries i) := by
  rw [restoreSegment, serializeSegment]
  split_ifs with hsmall
  · -- the buffer is too small: no bytes, and nothing is read
    have hnone : t.deserializeSegment segment [] = none := by
      rw [deserializeSegment, if_pos (by decide)]
    rw [Option.getD_none, hnone, Option.elim_none, storedAt,
      if_neg fun h => absurd h.1 (not_le.mpr hsmall), Option.getD_none]
  · have hfits : entriesPerSegment (2 ^ n) ≤ maxSegmentEntries := not_lt.mp hsmall
    have hlen := m.length_segmentEntries_le segment
    have hcount : (m.segmentEntries segment).length * sizeofMemIndexEntry / sizeofMemIndexEntry =
        (m.segmentEntries segment).length := Nat.mul_div_cancel _ (by decide)
    rw [Option.getD_some, deserializeSegment, if_neg (by simp), SegmentHeader.ofBytes_append]
    dsimp only
    rw [if_neg (by simp), List.drop_left' (SegmentHeader.length_bytes _),
      if_neg (not_not.mpr rfl), Option.elim_some, length_flatMap_bytes, hcount]
    dsimp only
    rw [storedAt]
    split_ifs with hin hle hle
    · -- an entry of the buffer
      obtain ⟨-, hlt, -⟩ := hin
      have hget := List.getElem?_eq_getElem hlt
      rw [slice_flatMap_bytes hget, MemIndexEntry.ofBytes_bytes]
      exact (congrArg (Option.getD · _) hget).symm
    · exact absurd ⟨hfits, hin.1⟩ hle
    · -- behind the last entry
      have hout : (m.segmentEntries segment).length ≤
          i.val - segment.val * entriesPerSegment (2 ^ n) :=
        not_lt.mp fun hlt => hin ⟨hle.2, hlt, hlt.trans_le hlen⟩
      rw [List.getElem?_eq_none hout, Option.getD_none]
    · rfl

/-- The segments that are read leave the slots of the others alone. -/
theorem entries_foldl_restoreSegment (m : MemIndex n) (versions : Segment → ℕ)
    (sequence : UInt32) {segment : Segment} {i : Fin (2 ^ n)}
    (hi : InSegment (2 ^ n) segment i.val) {segments : List Segment} (hnd : segments.Nodup)
    (hmem : segment ∈ segments) (t : MemIndex n) :
    (segments.foldl (m.restoreSegment versions sequence) t).entries i =
      (m.storedAt segment i).getD (t.entries i) := by
  have hother : ∀ {segments : List Segment} (t : MemIndex n), segment ∉ segments →
      (segments.foldl (m.restoreSegment versions sequence) t).entries i = t.entries i := by
    intro segments
    induction segments with
    | nil => exact fun t _ => rfl
    | cons s segments ih =>
        intro t hnot
        rw [List.mem_cons, not_or] at hnot
        have hout : ¬ InSegment (2 ^ n) s i.val := fun hs => hnot.1 (hi.eq hs)
        rw [List.foldl_cons, ih _ hnot.2, entries_restoreSegment,
          storedAt_of_not_inSegment hout, Option.getD_none]
  induction segments generalizing t with
  | nil => exact absurd hmem List.not_mem_nil
  | cons s segments ih =>
      rw [List.nodup_cons] at hnd
      rw [List.foldl_cons]
      rcases List.mem_cons.mp hmem with rfl | hin
      · rw [hother _ hnd.1, entries_restoreSegment]
      · have hout : ¬ InSegment (2 ^ n) s i.val := fun hs => hnd.1 (hi.eq hs ▸ hin)
        rw [ih hnd.2 hin, entries_restoreSegment, storedAt_of_not_inSegment hout,
          Option.getD_none]

/-- A slot of no segment stays as it is. -/
theorem entries_foldl_of_not_covered (m : MemIndex n) (versions : Segment → ℕ)
    (sequence : UInt32) {i : Fin (2 ^ n)} (hi : ¬ Covered n i) (segments : List Segment)
    (t : MemIndex n) :
    (segments.foldl (m.restoreSegment versions sequence) t).entries i = t.entries i := by
  induction segments generalizing t with
  | nil => rfl
  | cons s segments ih =>
      have hout : ¬ InSegment (2 ^ n) s i.val :=
        fun hs => hi (exists_inSegment_iff.mp ⟨s, hs⟩)
      rw [List.foldl_cons, ih, entries_restoreSegment, storedAt_of_not_inSegment hout,
        Option.getD_none]

/-! ### When a segment comes back -/

/-- On a zeroed index a segment that fits its buffer comes back packed. -/
theorem Stamped.restoresSegment_iff_packed {m : MemIndex n} (hm : m.Stamped)
    (versions : Segment → ℕ) (sequence : UInt32) {segment : Segment}
    (hfits : entriesPerSegment (2 ^ n) ≤ maxSegmentEntries) :
    m.RestoresSegment versions sequence segment ↔
      Packing.packed (fun e => decide (e ≠ MemIndexEntry.zero)) MemIndexEntry.zero
        (m.slotContents segment) = m.slotContents segment := by
  have hslot : ∀ k : Fin (entriesPerSegment (2 ^ n)),
      (m.restoreSegment versions sequence (MemIndex.fresh n) segment).entries
        (segmentSlot segment k) =
      (Packing.packed (fun e => decide (e ≠ MemIndexEntry.zero)) MemIndexEntry.zero
        (m.slotContents segment)).getD k.val MemIndexEntry.zero := by
    intro k
    rw [entries_restoreSegment, storedAt_segmentSlot hfits, hm.segmentEntries_eq,
      Packing.getD_packed, List.getD_eq_getElem?_getD]
    rfl
  have hlen : (m.slotContents segment).length = entriesPerSegment (2 ^ n) := List.length_ofFn
  constructor
  · intro h
    refine List.ext_getElem (Packing.length_packed _ _ _) fun k hk hk' => ?_
    have := hslot ⟨k, hlen ▸ hk'⟩
    rw [h _ (inSegment_segmentSlot segment _), List.getD_eq_getElem _ _ hk] at this
    rw [← this]
    simp only [slotContents, List.getElem_ofFn]
  · rintro heq i hi
    obtain ⟨k, rfl⟩ := exists_segmentSlot hi
    rw [hslot, heq, slotContents, List.getD_eq_getElem _ _ (by simp), List.getElem_ofFn]

/-- **When a segment comes back as it was.** -/
theorem Stamped.restoresSegment_iff {m : MemIndex n} (hm : m.Stamped) (versions : Segment → ℕ)
    (sequence : UInt32) (segment : Segment) :
    m.RestoresSegment versions sequence segment ↔ m.SegmentPacked segment := by
  have hpacked := @Packing.packed_eq_self_iff _ (fun e => decide (e ≠ MemIndexEntry.zero))
    MemIndexEntry.zero (m.slotContents segment) fun e _ he => by simpa using he
  have hoccupied : ∀ k : Fin (entriesPerSegment (2 ^ n)),
      decide (m.entries (segmentSlot segment k) ≠ MemIndexEntry.zero) = true ↔
        m.Occupied (segmentSlot segment k) := by
    intro k
    rw [decide_eq_true_eq, hm.occupied_iff]
  constructor
  · intro h
    have hfits : ∀ i : Fin (2 ^ n), InSegment (2 ^ n) segment i.val → m.Occupied i →
        entriesPerSegment (2 ^ n) ≤ maxSegmentEntries := by
      intro i hi ho
      by_contra hsmall
      -- nothing was written, and the slot is still zeroed
      have hzero := h i hi
      rw [entries_restoreSegment, storedAt, if_neg fun hin => hsmall hin.1] at hzero
      exact (hm.occupied_iff i).mp ho hzero.symm
    refine ⟨hfits, fun i j hi hj hij ho => ?_⟩
    have hpairs := hpacked.mp
      ((hm.restoresSegment_iff_packed versions sequence (hfits j hj ho)).mp h)
    obtain ⟨a, rfl⟩ := exists_segmentSlot hi
    obtain ⟨b, rfl⟩ := exists_segmentSlot hj
    exact (hoccupied a).mp
      (List.pairwise_ofFn.mp hpairs (segmentSlot_lt_iff.mp hij) ((hoccupied b).mpr ho))
  · intro h
    by_cases hfits : entriesPerSegment (2 ^ n) ≤ maxSegmentEntries
    · refine (hm.restoresSegment_iff_packed versions sequence hfits).mpr (hpacked.mpr ?_)
      refine List.pairwise_ofFn.mpr fun a b hab hb => (hoccupied a).mpr ?_
      exact h.gapless _ _ (inSegment_segmentSlot segment a) (inSegment_segmentSlot segment b)
        (segmentSlot_lt_iff.mpr hab) ((hoccupied b).mp hb)
    · intro i hi
      rw [entries_restoreSegment, storedAt, if_neg fun hin => hfits hin.1,
        hm.unused i fun ho => hfits (h.fits i hi ho)]
      rfl

/-! ### When the keys are found -/

/-- A lookup finds something when it comes to a match. -/
theorem find_ne_none_iff {m : MemIndex n} {key : UInt64} : m.find key ≠ none ↔
    ∃ d ≤ 128, m.Matches key (probe n key d) ∧ Unstopped m.psl key d := by
  classical
  constructor
  · intro h
    obtain ⟨i, hi⟩ := Option.ne_none_iff_exists'.mp h
    obtain ⟨d, hd, rfl, hmatch, hpsl, -⟩ := find_eq_some_iff.mp hi
    exact ⟨d, hd, hmatch, hpsl⟩
  · rintro ⟨d, hd, hmatch, hpsl⟩
    have hex : ∃ j, m.Matches key (probe n key j) := ⟨d, hmatch⟩
    have hle : Nat.find hex ≤ d := Nat.find_min' hex hmatch
    have hfind := find_eq_some_iff.mpr ⟨Nat.find hex, hle.trans hd, rfl, Nat.find_spec hex,
      fun j hj => hpsl j (hj.trans hle), fun j hj => Nat.find_min hex hj⟩
    exact Option.ne_none_iff_exists'.mpr ⟨_, hfind⟩

/-- When every segment comes back, the slots of the segments have their entries, and the other
ones are zeroed. -/
theorem entries_restored {m : MemIndex n} {versions : Segment → ℕ} {sequence : UInt32}
    (h : ∀ segment, m.RestoresSegment versions sequence segment) (i : Fin (2 ^ n)) :
    (m.restored versions sequence).entries i =
      if Covered n i then m.entries i else MemIndexEntry.zero := by
  show ((List.finRange kMemIndexSegmentCount).foldl (m.restoreSegment versions sequence)
    (MemIndex.fresh n)).entries i = _
  split_ifs with hi
  · obtain ⟨segment, hseg⟩ := exists_inSegment_iff.mpr hi
    rw [entries_foldl_restoreSegment m versions sequence hseg (List.nodup_finRange _)
      (List.mem_finRange _), ← entries_restoreSegment m versions sequence]
    exact h segment i hseg
  · exact entries_foldl_of_not_covered m versions sequence hi _ _

/-- The lengths that they get. -/
theorem psl_restored {m : MemIndex n} {versions : Segment → ℕ} {sequence : UInt32}
    (h : ∀ segment, m.RestoresSegment versions sequence segment) :
    (m.restored versions sequence).psl = m.coveredPsl := by
  funext i
  have hentries : ((List.finRange kMemIndexSegmentCount).foldl
      (m.restoreSegment versions sequence) (MemIndex.fresh n)).entries i =
        if Covered n i then m.entries i else MemIndexEntry.zero := entries_restored h i
  rw [restored, rebuildPslArray_psl, rebuiltPsl, hentries, coveredPsl, rebuiltPsl]
  split_ifs <;> first | rfl | exact absurd ‹_› (by decide)

/-- When every segment comes back, the keys that are found are those in reach. -/
theorem find_restored_iff {m : MemIndex n} {versions : Segment → ℕ} {sequence : UInt32}
    (h : ∀ segment, m.RestoresSegment versions sequence segment) (key : UInt64) :
    (m.restored versions sequence).find key ≠ none ↔ m.InReach key := by
  have hmatches : ∀ i, (m.restored versions sequence).Matches key i ↔
      Covered n i ∧ m.Matches key i := by
    intro i
    rw [Matches, entries_restored h]
    split_ifs with hi
    · exact (and_iff_right hi).symm
    · refine iff_of_false (fun hmatch => ?_) fun hcovered => hi hcovered.1
      exact tag_zero_ne ((congrArg HashUtil.tag hmatch.2.1).trans hmatch.1.symm)
  rw [find_ne_none_iff, psl_restored h, InReach]
  simp only [hmatches, and_assoc]

/-- **When the segments bring an index back**, for every index that calls lead to: the entries
of each segment have no free slot in front of them and fit its buffer, and the lookups of their
keys come to them by slots of segments alone. -/
theorem restored_from_segments_iff {ops : List IndexOp} {m : MemIndex n}
    (hrun : (indexMachine n).run (fresh n) ops = some m) (versions : Segment → ℕ)
    (sequence : UInt32) : m.RestoredFromSegments versions sequence ↔
      (∀ segment, m.SegmentPacked segment) ∧
        ∀ i, Covered n i → m.LiveAt i → m.InReach (m.entries i).key := by
  have hm : m.Stamped := (Stamped.fresh n).run hrun
  constructor
  · intro h
    refine ⟨fun segment => (hm.restoresSegment_iff versions sequence segment).mp
      (h.segments segment), fun i hi hlive => ?_⟩
    exact (find_restored_iff h.segments _).mp (h.found i hi hlive)
  · rintro ⟨hpacked, hreach⟩
    have hsegments : ∀ segment, m.RestoresSegment versions sequence segment := fun segment =>
      (hm.restoresSegment_iff versions sequence segment).mpr (hpacked segment)
    exact ⟨hsegments, fun i hi hlive => (find_restored_iff hsegments _).mpr (hreach i hi hlive)⟩

/-- Key 1 alone, in a table whose segments have one slot each. -/
theorem restored_from_segments_oneKey :
    IndexAreas.oneKey.RestoredFromSegments (fun _ => 0) 1 := by
  have hrun : (indexMachine 7).run (fresh 7) [.upsert ⟨1, 0, 1, false, 1, 1, 0⟩] =
      some IndexAreas.oneKey := rfl
  have hone : entriesPerSegment (2 ^ 7) = 1 := by decide
  refine (restored_from_segments_iff hrun _ _).mpr ⟨fun segment => ⟨?_, ?_⟩, ?_⟩
  · intro _ _ _
    decide
  · rintro i j ⟨hi, -, -⟩ ⟨-, hj, -⟩ hij
    rw [hone] at hi hj
    omega
  · have hkey : ∀ i, IndexAreas.oneKey.LiveAt i → (IndexAreas.oneKey.entries i).key = 1 := by
      decide +kernel
    intro i _ hlive
    rw [hkey i hlive]
    refine ⟨0, Nat.zero_le _, by decide +kernel, ?_, fun j hj => ?_⟩
    · rw [Matches]
      decide +kernel
    · rw [Nat.le_zero.mp hj]
      exact Nat.zero_le _

/-- The segment of slots 162, 163 and 164 in a table of 256. -/
def segment54 : Segment := ⟨54, by decide⟩

/-- **An entry that comes back at another slot**: in a table of 256 slots key 1 has slot 164,
the last of segment 54. It comes back at slot 162, and slot 164 comes back empty. -/
theorem segment_moves_entry : ∃ m : MemIndex 8,
    (indexMachine 8).run (fresh 8) [.upsert (sampleEntry 1 1)] = some m ∧
      m.find 1 = some 164 ∧
      (m.restoreSegment (fun _ => 0) 0 (fresh 8) segment54).entries 162 = m.entries 164 ∧
      (m.restoreSegment (fun _ => 0) 0 (fresh 8) segment54).entries 164 = MemIndexEntry.zero ∧
      ¬ m.RestoredFromSegments (fun _ => 0) 0 := by
  obtain ⟨m, hm⟩ : ∃ m : MemIndex 8, m = ((fresh 8).upsert 1 (sampleEntry 1 1)).1 := ⟨_, rfl⟩
  have hfind : m.find 1 = some 164 := by
    rw [hm]
    decide +kernel
  have hfirst : m.storedAt segment54 162 = some (m.entries 164) := by
    rw [hm]
    decide +kernel
  have hlast : m.storedAt segment54 164 = none := by
    rw [hm]
    decide +kernel
  have hmoved : (m.restoreSegment (fun _ => 0) 0 (fresh 8) segment54).entries 164 =
      MemIndexEntry.zero := by
    rw [entries_restoreSegment, hlast]
    rfl
  refine ⟨m, ?_, hfind, ?_, hmoved, fun h => ?_⟩
  · rw [hm]
    rfl
  · rw [entries_restoreSegment, hfirst, Option.getD_some]
  · have hkept := h.segments segment54 164 (by rw [InSegment]; decide)
    rw [hmoved] at hkept
    have hmatch := matches_of_find hfind
    rw [Matches, ← hkept] at hmatch
    exact absurd hmatch.2.1 (by decide)

end MemIndex

end SpdkKv
