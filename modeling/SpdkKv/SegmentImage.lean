import SpdkKv.CheckpointSuccess
import SpdkKv.IndexLoad

/-!
# What a Checkpoint Writes and Recovery Reads

The checkpoint manager writes each dirty segment of the index to its own gigabyte of the
index blob, behind a header of its own. The recovery takes the blob for one image of the
whole index and looks for the header of such an image at its front.

## Main results

* `completeWrites_all`: a checkpoint with every segment dirty serialises all of them in order.
* `versions_checkpointBlob`: **the recovery takes no blob of a checkpoint for valid**.
* `checkpoint_blob_rejected`: so it accepts none, whatever the index contained.
-/

namespace SpdkKv

/-- Magic number of a segment, "SEGH". -/
def kSegmentMagic : UInt32 := 0x53454748

/-- Size of the buffer in which a segment is serialised. -/
def kSegmentBufferSize : ℕ := 64 * 1024 * 1024

/-- Size of a `SegmentHeader`. -/
def sizeofSegmentHeader : ℕ := 64

/-- The header of a segment; its padding is zero. -/
structure SegmentHeader where
  magic : UInt32
  segmentId : UInt32
  version : UInt64
  entryCount : UInt64
  dirtySequence : UInt64
  checksum : UInt32
  deriving DecidableEq, Repr

/-- The stored form of a header. -/
def SegmentHeader.bytes (h : SegmentHeader) : List UInt8 :=
  leBytes 4 h.magic.toNat ++ (leBytes 4 h.segmentId.toNat ++ (leBytes 8 h.version.toNat ++
    (leBytes 8 h.entryCount.toNat ++ (leBytes 8 h.dirtySequence.toNat ++
      (leBytes 4 h.checksum.toNat ++ List.replicate 28 0)))))

/-! ### Serialising a segment -/

namespace MemIndex

variable {n : ℕ}

/-- The entries that `serialize_segment` copies, in slot order. -/
def segmentEntries (m : MemIndex n) (segment : Segment) : List MemIndexEntry :=
  let entriesPerSegment := 2 ^ n / kMemIndexSegmentCount
  let startIdx := segment.val * entriesPerSegment
  ((List.finRange (2 ^ n)).filter fun i =>
    startIdx ≤ i.val && i.val < startIdx + entriesPerSegment && 0 < m.psl i).map m.entries

/-- `serialize_segment` into the buffer of the manager, with the version that the segment has
so far and the sequence of the checkpoint; nothing when the buffer is too small. -/
def serializeSegment (m : MemIndex n) (version : ℕ) (dirtySequence : UInt32)
    (segment : Segment) : Option (List UInt8) :=
  if (kSegmentBufferSize - sizeofSegmentHeader) / sizeofMemIndexEntry <
      2 ^ n / kMemIndexSegmentCount then none
  else
    let data := (m.segmentEntries segment).flatMap MemIndexEntry.bytes
    let header : SegmentHeader :=
      { magic := kSegmentMagic
        segmentId := UInt32.ofNat segment.val
        version := UInt64.ofNat (version + 1)
        entryCount := UInt64.ofNat (m.segmentEntries segment).length
        dirtySequence := UInt64.ofNat dirtySequence.toNat
        checksum := Crc32.calculate data }
    some (header.bytes ++ data)

/-- The write of a serialised segment: whole pages, filled up with zeros, at the place of the
segment. -/
def writeSegment (segment : Segment) (data : List UInt8) (blob : ByteMemory) : ByteMemory :=
  blob.write (segment.val * kMemIndexSegmentSize)
    (data ++ List.replicate (alignUp data.length kPageSize - data.length) 0)

/-- The blob after the segments of a list have been serialised and written one after the
other. -/
def writeSegments (m : MemIndex n) (versions : Segment → ℕ) (sequence : UInt32) :
    List Segment → ByteMemory → Option ByteMemory
  | [], blob => some blob
  | segment :: segments, blob =>
      (m.serializeSegment (versions segment) sequence segment).bind fun data =>
        writeSegments m versions sequence segments (writeSegment segment data blob)

/-- The blob after a checkpoint that wrote every segment. -/
def checkpointBlob (m : MemIndex n) (versions : Segment → ℕ) (sequence : UInt32)
    (blob : ByteMemory) : Option ByteMemory :=
  m.writeSegments versions sequence (List.finRange kMemIndexSegmentCount) blob

end MemIndex

/-! ### The order of the segments -/

namespace IncrementalCheckpoint

variable {io : CheckpointIo} {self : IncrementalCheckpoint}

/-- With a blob and without errors the next pending segment is serialised. -/
theorem processNextSegment_some (hblob : io.hasBlob = true) (hok : io.ioOk = true)
    {segment : Segment} (h : self.pendingSegments[self.currentSegmentIdx]? = some segment) :
    self.processNextSegment io = (self, [.serialize segment]) := by
  rw [processNextSegment]
  split
  · next hnone => rw [hnone] at h; cases h
  · next segment' hsome =>
      obtain rfl := Option.some.inj (hsome.symm.trans h)
      rw [hok, Bool.not_true, if_neg Bool.false_ne_true, if_pos hblob]

/-- After the last one the blob is synced. -/
theorem processNextSegment_none (hblob : io.hasBlob = true)
    (h : self.pendingSegments[self.currentSegmentIdx]? = none) :
    self.processNextSegment io = ({ self with state := .kSyncingData }, []) := by
  rw [processNextSegment]
  split
  · rw [if_pos hblob]
  · next hsome => rw [hsome] at h; cases h

/-- A request and the completions of the segment writes that follow it, with all effects in
order. -/
def completeWrites (io : CheckpointIo) (hasActiveBuffer : Bool) (self : IncrementalCheckpoint) :
    ℕ → IncrementalCheckpoint × List CheckpointEffect
  | 0 => self.startCheckpoint io hasActiveBuffer
  | k + 1 =>
      let r := completeWrites io hasActiveBuffer self k
      let r' := r.1.onSegmentWritten io true
      (r'.1, r.2 ++ r'.2)

/-- The manager while segment `k` is being written. -/
def writing (self : IncrementalCheckpoint) (hasActiveBuffer : Bool) (k : ℕ) :
    IncrementalCheckpoint :=
  { ({ self with checkpointStartSequence := self.globalSequence } :
      IncrementalCheckpoint).snapshotActiveBufferPositions hasActiveBuffer with
    dirtySegments := fun _ => false
    pendingSegments := List.finRange kMemIndexSegmentCount
    state := .kWritingSegments
    currentSegmentIdx := k }

/-- The segments that have been serialised when segment `k` is being written. -/
theorem completeWrites_eq (hblob : io.hasBlob = true) (hok : io.ioOk = true)
    (hidle : self.state = .kIdle) (hdirty : self.dirtySegments = fun _ => true)
    (hasActiveBuffer : Bool) {k : ℕ} (hk : k < kMemIndexSegmentCount) :
    self.completeWrites io hasActiveBuffer k = (self.writing hasActiveBuffer k,
      ((List.finRange kMemIndexSegmentCount).take (k + 1)).map .serialize) := by
  induction k with
  | zero =>
      have hall : (List.finRange kMemIndexSegmentCount).filter self.dirtySegments =
          List.finRange kMemIndexSegmentCount := by
        rw [hdirty]
        exact List.filter_true _
      have hnext : (self.writing hasActiveBuffer 0).processNextSegment io = _ :=
        processNextSegment_some hblob hok rfl
      rw [completeWrites, startCheckpoint, if_neg (not_not.mpr hidle)]
      dsimp only [snapshotActiveBufferPositions]
      rw [hall]
      exact hnext
  | succ k ih =>
      have hget : (self.writing hasActiveBuffer (k + 1)).pendingSegments[k + 1]? =
          some ⟨k + 1, hk⟩ := by
        simp [writing, hk]
      rw [completeWrites, ih (by omega)]
      dsimp only
      rw [onSegmentWritten, if_neg (by simp)]
      rw [show ({ self.writing hasActiveBuffer k with
          currentSegmentIdx := (self.writing hasActiveBuffer k).currentSegmentIdx + 1 } :
          IncrementalCheckpoint) = self.writing hasActiveBuffer (k + 1) from rfl,
        processNextSegment_some hblob hok hget]
      have hseg : (List.finRange kMemIndexSegmentCount)[k + 1]? = some ⟨k + 1, hk⟩ := hget
      have htake := @List.take_add_one _ (List.finRange kMemIndexSegmentCount) (k + 1)
      rw [htake, hseg, List.map_append]
      rfl

/-- **A checkpoint with every segment dirty serialises all of them in order**, and syncs the
blob when the last of them has been written. -/
theorem completeWrites_all (hblob : io.hasBlob = true) (hok : io.ioOk = true)
    (hidle : self.state = .kIdle) (hdirty : self.dirtySegments = fun _ => true)
    (hasActiveBuffer : Bool) :
    (self.completeWrites io hasActiveBuffer kMemIndexSegmentCount).1.state = .kSyncingData ∧
      (self.completeWrites io hasActiveBuffer kMemIndexSegmentCount).2 =
        (List.finRange kMemIndexSegmentCount).map .serialize := by
  have hlast := completeWrites_eq hblob hok hidle hdirty hasActiveBuffer
    (show kMemIndexSegmentCount - 1 < kMemIndexSegmentCount by decide)
  have hend : (self.writing hasActiveBuffer
      kMemIndexSegmentCount).pendingSegments[kMemIndexSegmentCount]? = none := by
    simp [writing]
  have hstep : self.completeWrites io hasActiveBuffer (kMemIndexSegmentCount - 1 + 1) =
      ({ self.writing hasActiveBuffer kMemIndexSegmentCount with state := .kSyncingData },
        (List.finRange kMemIndexSegmentCount).map .serialize) := by
    rw [completeWrites, hlast]
    dsimp only
    rw [onSegmentWritten, if_neg (by simp)]
    refine (congrArg (fun r : IncrementalCheckpoint × List CheckpointEffect => (r.1, _ ++ r.2))
      (processNextSegment_none hblob hend)).trans ?_
    rw [List.append_nil, List.take_of_length_le (by rw [List.length_finRange]; decide)]
  exact ⟨congrArg (fun r => r.1.state) hstep, congrArg Prod.snd hstep⟩

end IncrementalCheckpoint

/-! ### What the recovery makes of it -/

namespace MemIndex

variable {n : ℕ}

/-- Segments that fit the buffer are written. -/
theorem exists_writeSegments (m : MemIndex n)
    (hfit : 2 ^ n / kMemIndexSegmentCount ≤
      (kSegmentBufferSize - sizeofSegmentHeader) / sizeofMemIndexEntry)
    (versions : Segment → ℕ) (sequence : UInt32) (segments : List Segment) (blob : ByteMemory) :
    ∃ image, m.writeSegments versions sequence segments blob = some image := by
  induction segments generalizing blob with
  | nil => exact ⟨blob, rfl⟩
  | cons segment segments ih =>
      rw [writeSegments, serializeSegment, if_neg (Nat.not_lt.mpr hfit)]
      exact ih _

/-- A serialised segment begins with the first byte of its magic number. -/
theorem getD_serializeSegment {m : MemIndex n} {version : ℕ} {sequence : UInt32}
    {segment : Segment} {data : List UInt8}
    (h : m.serializeSegment version sequence segment = some data) (d : UInt8) :
    data.getD 0 d = 0x48 := by
  obtain ⟨-, heq⟩ := Option.ite_none_left_eq_some.mp h
  obtain rfl := Option.some.inj heq
  have hmagic : leBytes 4 kSegmentMagic.toNat = [0x48, 0x47, 0x45, 0x53] := by decide
  simp only [SegmentHeader.bytes, hmagic]
  rfl

/-- A segment other than the first leaves the front of the blob alone. -/
theorem writeSegment_front {segment : Segment} (h : segment.val ≠ 0) (data : List UInt8)
    (blob : ByteMemory) : writeSegment segment data blob 0 = blob 0 := by
  refine blob.write_of_outside (Or.inl ?_)
  exact Nat.mul_pos (Nat.pos_of_ne_zero h) (by decide)

theorem writeSegments_front {m : MemIndex n} {versions : Segment → ℕ} {sequence : UInt32}
    {segments : List Segment} (hne : ∀ segment ∈ segments, segment.val ≠ 0)
    {blob image : ByteMemory} (h : m.writeSegments versions sequence segments blob = some image) :
    image 0 = blob 0 := by
  induction segments generalizing blob with
  | nil =>
      obtain rfl := Option.some.inj h
      rfl
  | cons segment segments ih =>
      obtain ⟨data, -, hrest⟩ := Option.bind_eq_some_iff.mp h
      rw [ih (fun s hs => hne s (List.mem_cons_of_mem _ hs)) hrest,
        writeSegment_front (hne segment List.mem_cons_self)]

/-- The first segment begins at the front of the blob. -/
theorem writeSegment_first {segment : Segment} (h : segment.val = 0) {data : List UInt8}
    (hdata : 0 < data.length) (blob : ByteMemory) :
    writeSegment segment data blob 0 = data.getD 0 (blob 0) := by
  rw [writeSegment, h, Nat.zero_mul]
  simp only [ByteMemory.write, le_refl, if_true, Nat.sub_zero]
  exact List.getD_append _ _ _ _ hdata

/-- After a checkpoint that wrote every segment the blob begins like a segment. -/
theorem checkpointBlob_front {m : MemIndex n} {versions : Segment → ℕ} {sequence : UInt32}
    {blob image : ByteMemory} (h : m.checkpointBlob versions sequence blob = some image) :
    image 0 = 0x48 := by
  have hlist : List.finRange kMemIndexSegmentCount =
      CheckpointSystem.firstSegment :: (List.finRange 79).map Fin.succ := List.finRange_succ
  rw [checkpointBlob, hlist] at h
  obtain ⟨data, hdata, hrest⟩ := Option.bind_eq_some_iff.mp h
  have hne : ∀ segment ∈ (List.finRange 79).map Fin.succ, segment.val ≠ 0 := by
    intro segment hmem
    obtain ⟨s, -, rfl⟩ := List.mem_map.mp hmem
    exact Nat.succ_ne_zero _
  have hlen : 0 < data.length := by
    obtain ⟨-, heq⟩ := Option.ite_none_left_eq_some.mp hdata
    obtain rfl := Option.some.inj heq
    simp [SegmentHeader.bytes]
  rw [writeSegments_front hne hrest, writeSegment_first rfl hlen]
  exact getD_serializeSegment hdata _

end MemIndex

/-- A buffer whose first byte is not that of the magic number has no version. -/
theorem MemIndexBuffer.areaVersion_of_front {b : MemIndexBuffer} (h : b.bytes 0 = 0x48) :
    b.areaVersion = 0 := by
  have hmagic : (imageHeader b.bytes).magic ≠ kMemIndexMagic := by
    intro hmagic
    have hfield : fieldAt (b.bytes.read 0 sizeofSerializedHeader) 0 4 % 256 = 0x48 := by
      rw [fieldAt_succ, ByteMemory.getD_read, if_pos (by decide), h, Nat.add_mul_mod_self_left]
      rfl
    have hlow := congrArg (fun x : UInt32 => x.toNat % 256) hmagic
    simp only [imageHeader, SerializedMemIndexHeader.ofBytes, readU32, UInt32.toNat_ofNat'] at hlow
    rw [Nat.mod_mod_of_dvd _ (by decide), hfield] at hlow
    exact absurd hlow (by decide)
  simp only [areaVersion]
  split_ifs <;> rfl

namespace IndexAreas

variable {n : ℕ} {areas : IndexAreas} {area : IndexArea}

/-- **What recovery should make of an area**: it is valid, and the index that is loaded has
the live entries of the checkpointed one. -/
structure Accepts (areas : IndexAreas) (area : IndexArea) (m : MemIndex n) (sequence : UInt32) :
    Prop where
  valid : areas.loaded.versions area ≠ 0
  entries : ∀ key, (areas.load (.unloaded n sequence)).findEntry key = m.findEntry key

/-- **The recovery takes no blob of a checkpoint for valid.** -/
theorem versions_checkpointBlob {blob : AreaBlob} (hblob : areas.blob area = some blob)
    (hok : areas.NoChunkFails blob) (hfront : blob.bytes 0 = 0x48) :
    areas.loaded.versions area = 0 := by
  have htotal : 0 < areas.totalSize := by
    rw [totalSize]
    split_ifs with h
    · decide
    · exact Nat.pos_of_ne_zero fun h0 => h (UInt64.toNat_inj.mp h0)
  have himage : (blob.image areas.totalSize).areaVersion = 0 :=
    MemIndexBuffer.areaVersion_of_front ((if_pos htotal).trans hfront)
  cases area with
  | a =>
      rw [versions_a_loaded, loadedA, loadArea_some areas.ready_unloaded hblob hok]
      simp only [Function.update_self, himage]
  | b =>
      rw [loaded, loadArea_some areas.ready_loadedA hblob hok]
      simp only [Function.update_self, himage]

/-- **No blob of a checkpoint is accepted**: whatever the index contained, whatever was in the
blob before, and whichever area the blob is. -/
theorem checkpoint_blob_rejected {m : MemIndex n} {versions : Segment → ℕ}
    {checkpointSequence : UInt32} {before image : ByteMemory} {chunkFails : ℕ → Bool}
    (hcheckpoint : m.checkpointBlob versions checkpointSequence before = some image)
    (hblob : areas.blob area = some ⟨image, chunkFails⟩)
    (hok : areas.NoChunkFails ⟨image, chunkFails⟩) (sequence : UInt32) :
    ¬ areas.Accepts area m sequence := fun h =>
  h.valid (versions_checkpointBlob hblob hok (MemIndex.checkpointBlob_front hcheckpoint))

/-- Area A is a blob, area B does not exist, and every read succeeds. -/
def onlyA (image : ByteMemory) : IndexAreas where
  blob
    | .a => some ⟨image, fun _ => false⟩
    | .b => none
  memIndexSize := 0
  ioUnit := kPageSize
  segmentFails := fun _ => false

/-- The blob of an empty index is rejected. -/
theorem checkpoint_blob_rejected_fresh : ∃ image : ByteMemory,
    (MemIndex.fresh 7).checkpointBlob (fun _ => 0) 0 ByteMemory.zero = some image ∧
      ¬ (onlyA image).Accepts .a (MemIndex.fresh 7) 0 := by
  obtain ⟨image, h⟩ := (MemIndex.fresh 7).exists_writeSegments (by decide) (fun _ => 0) 0
    (List.finRange kMemIndexSegmentCount) ByteMemory.zero
  exact ⟨image, h, checkpoint_blob_rejected h rfl (fun _ _ => rfl) 0⟩

/-- An index of 128 slots that has one live key. -/
def oneKey : MemIndex 7 := ((MemIndex.fresh 7).upsert 1 ⟨1, 0, 1, false, 1, 1, 0⟩).1

/-- **A checkpoint is lost**: the blob with the entry of key 1 counts as invalid, and the index
that recovery starts from does not know the key. -/
theorem checkpoint_of_one_key_rejected : ∃ image : ByteMemory,
    oneKey.checkpointBlob (fun _ => 0) 1 ByteMemory.zero = some image ∧
      (onlyA image).loaded.versions .a = 0 ∧ (oneKey.findEntry 1).isSome = true ∧
      ((onlyA image).load (MemIndex.unloaded 7 1)).findEntry 1 = none := by
  obtain ⟨image, h⟩ := oneKey.exists_writeSegments (by decide) (fun _ => 0) 1
    (List.finRange kMemIndexSegmentCount) ByteMemory.zero
  have hversion : (onlyA image).loaded.versions .a = 0 :=
    versions_checkpointBlob rfl (fun _ _ => rfl) (MemIndex.checkpointBlob_front h)
  have hselected : (onlyA image).selected = .a := by
    have hb : (onlyA image).loaded.versions .b = 0 := by
      have hnone : (onlyA image).blob .b = none := rfl
      simp only [loaded, loadArea_none hnone, Function.update_self]
    rw [selected, if_pos (by rw [hb]; exact Nat.zero_le _)]
  have hload : (onlyA image).load (MemIndex.unloaded 7 1) = MemIndex.unloaded 7 1 := by
    rw [load, hselected, if_pos hversion]
  refine ⟨image, h, hversion, by decide +kernel, ?_⟩
  rw [hload]
  decide +kernel

end IndexAreas

end SpdkKv
