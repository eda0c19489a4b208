import SpdkKv.LoaderTask

/-!
# What the Index Loader Yields

The recovery by completions against the recovery as one function: `RecoverySource.recovered`
says what the loader yields from what the blobs hold and which reads fail, in the terms of
`IndexAreas.loadArea` and `IndexLoader.scanFiles`. A file whose chunk cannot be read is scanned
as if it ended there. `LoaderTask.Promises` relates a loader in the middle of its reads to that
result; each method of the loader keeps it.

## Main results

* `LoaderTask.Promises.complete`: **what one completion does** — it leaves the result as it was
  and one read less to come.
* `LoaderTask.exists_run_complete`: every recovery can be brought to its end.
* `LoaderTask.recovers_once`: **a recovery yields its result once**, whatever the order in which
  its reads complete.
* `LoaderTask.recovers_index`: **what it yields is `recoverIndex`**, when a superblock and the data
  files are read.
-/

namespace SpdkKv

variable {n : ℕ}

/-! ### The result -/

namespace ScanRange

/-- The chunks that a range is read in. -/
def chunks (range : ScanRange) : ℕ :=
  ((range.endPage - range.startPage) * kPageSize + kScanChunkSize - 1) / kScanChunkSize

/-- Where a chunk of a range begins. -/
def chunkOffset (range : ScanRange) (k : ℕ) : ℕ :=
  range.startPage * kPageSize + k * kScanChunkSize

end ScanRange

/-- The area that `compare_and_select_area` selects. -/
def AreaLoader.selected (s : AreaLoader) : IndexArea :=
  if s.versions .b ≤ s.versions .a then .a else .b

/-- The index filled from what the reads of the areas have left. -/
def IndexAreas.fillFrom (areas : IndexAreas) (s : AreaLoader) (m : MemIndex n) : MemIndex n :=
  if s.versions s.selected = 0 then m
  else if s.buffer.canUseMemoryDumpLoad n then
    match areas.blob s.selected with
    | none => s.buffer.loadByUpsert m
    | some blob => loadAsMemoryDump blob.bytes areas.ioUnit areas.segmentFails s.buffer m
  else s.buffer.loadByUpsert m

namespace RecoverySource

variable (source : RecoverySource)

/-- A chunk of a data file is not read. -/
def scanFails (idx offset : ℕ) : Bool :=
  source.noBuffer (.scan idx offset) || source.readFails (.scan idx offset)

/-- The first chunk of a range that fails. -/
def firstFailing (idx : ℕ) (range : ScanRange) : Option ℕ :=
  (List.range range.chunks).find? fun k => source.scanFails idx (range.chunkOffset k)

/-- **A range as far as its chunks are read**. -/
def readable (idx : ℕ) (range : ScanRange) : ScanRange :=
  (source.firstFailing idx range).elim range fun k =>
    { range with endPage := range.startPage + k * (kScanChunkSize / kPageSize) }

/-- The ranges from the index `idx` on, as far as they are read. -/
def readableRanges (idx : ℕ) (ranges : List ScanRange) : List ScanRange :=
  (ranges.zipIdx idx).map fun p => source.readable p.2 p.1

/-- The ranges to scan. -/
def rangesOf (superblock : List UInt8) : List ScanRange :=
  (superblockCheckpoint superblock).buildScanRangesFromBlobs source.images.physicalEnd
    source.dataBlobs

/-- The rest of the recovery from the range with the index `idx` on. -/
def scanned (superblock : List UInt8) (idx : ℕ) (ranges : List ScanRange)
    (loader : IndexLoader n) : IndexLoader n :=
  (loader.scanFiles source.images source.dataBlobs
    (source.readableRanges idx ranges)).finalizeRecovery (superblockCheckpoint superblock)

/-- The rest of the recovery when the index areas have been looked at. -/
def rebuilt (superblock : List UInt8) (loader : IndexLoader n) : IndexLoader n :=
  source.scanned superblock 0
    (if source.hasSpdkResources then source.rangesOf superblock else [])
    { loader with
      recoveredMaxSequence := (superblockCheckpoint superblock).checkpointGlobalSeq }

/-- An area from its chunk `i` on. -/
def areaFrom (superblock : List UInt8) (area : IndexArea) (blob : AreaBlob) (i : ℕ)
    (s : AreaLoader) : AreaLoader :=
  let areas := source.areas superblock
  let b := readChunks blob areas.totalSize (areas.chunkCount - i) i s.buffer
  ⟨b, Function.update s.versions area b.areaVersion⟩

/-- What `load_mem_index_area` leaves. -/
def loadedArea (superblock : List UInt8) (area : IndexArea) (s : AreaLoader) : AreaLoader :=
  if source.hasSpdkResources then (source.areas superblock).loadArea area s
  else
    match area with
    | .a => ⟨s.buffer,
        Function.update s.versions .a (superblockCheckpointSequence superblock).toNat⟩
    | .b => ⟨s.buffer, Function.update s.versions .b 0⟩

/-- The rest of the recovery behind both areas. -/
def afterAreas (superblock : List UInt8) (s : AreaLoader) (loader : IndexLoader n) :
    IndexLoader n :=
  source.rebuilt superblock { loader with
    memIndex := if source.hasSpdkResources then
      (source.areas superblock).fillFrom s loader.memIndex else loader.memIndex }

/-- The rest of the recovery behind an area. -/
def afterArea (superblock : List UInt8) (area : IndexArea) (s : AreaLoader)
    (loader : IndexLoader n) : IndexLoader n :=
  match area with
  | .a => source.afterAreas superblock (source.loadedArea superblock .b s) loader
  | .b => source.afterAreas superblock s loader

/-- The copy that is taken, when the read of one is submitted. -/
def readCopy (blob : ByteMemory) (copy : SuperblockCopy) : Option (List UInt8) :=
  if !source.readFails (.superblock copy) && (readSuperblock (superblockAt blob copy)).isSome then
    some ((superblockAt blob copy).take sizeofSuperblock)
  else none

/-- The superblock, when the read of a copy is submitted. -/
def superblockFrom (blob : ByteMemory) : SuperblockCopy → Option (List UInt8)
  | .primary => source.readCopy blob .primary <|> source.readCopy blob .backup
  | .backup => source.readCopy blob .backup

/-- The recovery with a superblock, or without one. -/
def fromSuperblock (superblock : Option (List UInt8)) (loader : IndexLoader n) :
    KvError × IndexLoader n :=
  match superblock with
  | some sb => (.kSuccess, source.afterArea sb .a
      (source.loadedArea sb .a IndexAreas.unloaded) loader)
  | none => (.kCorruption, loader)

/-- **What a recovery yields**: a status, and the index with the largest sequence met. -/
def recovered (superblock : List UInt8) (loader : IndexLoader n) : KvError × IndexLoader n :=
  match source.hasSpdkResources, source.superblockBlob with
  | true, some blob =>
      if source.noBuffer (.superblock .primary) then (.kInternalError, loader)
      else source.fromSuperblock (source.superblockFrom blob .primary) loader
  | _, _ => source.fromSuperblock
      (if validateSuperblock superblock then some superblock else none) loader

/-! ### The reads it takes -/

/-- Reads of data files. -/
def rangeReads (ranges : List ScanRange) : ℕ := (ranges.map ScanRange.chunks).sum

/-- Reads of all data files. -/
def fileReads (superblock : List UInt8) : ℕ := rangeReads (source.rangesOf superblock)

/-- Reads behind both areas. -/
def readsAfterAreas (superblock : List UInt8) : ℕ :=
  kMemIndexSegmentCount + source.fileReads superblock

/-- Reads behind an area. -/
def readsAfter (superblock : List UInt8) : IndexArea → ℕ
  | .a => (source.areas superblock).chunkCount + source.readsAfterAreas superblock
  | .b => source.readsAfterAreas superblock

/-- Reads behind the superblock. -/
def readsBehind (superblock : Option (List UInt8)) : ℕ :=
  superblock.elim 0 fun sb => (source.areas sb).chunkCount + source.readsAfter sb .a

/-- Reads from a copy of the superblock on. -/
def readsFrom (blob : ByteMemory) : SuperblockCopy → ℕ
  | .primary => 2 + source.readsBehind (source.superblockFrom blob .primary)
  | .backup => 1 + source.readsBehind (source.superblockFrom blob .backup)

/-- **As many reads as a recovery takes at most**. -/
def readBound (superblock : List UInt8) : ℕ :=
  match source.superblockBlob with
  | some blob => max (source.readsFrom blob .primary) (source.readsBehind (some superblock))
  | none => source.readsBehind (some superblock)

end RecoverySource

/-! ### Scanning a range -/

namespace ScanRange

variable {range : ScanRange} {k : ℕ}

theorem kScanChunkSize_eq_pages : kScanChunkSize / kPageSize * kPageSize = kScanChunkSize := by
  decide

/-- The chunks are those that begin in front of the end. -/
theorem lt_chunks_iff : k < range.chunks ↔ range.chunkOffset k < range.endPage * kPageSize := by
  have hpos : 0 < kScanChunkSize := by decide
  rw [chunks, chunkOffset, Nat.lt_iff_add_one_le, Nat.le_div_iff_mul_le hpos, Nat.sub_mul,
    Nat.add_mul, Nat.one_mul]
  omega

theorem chunkOffset_succ : range.chunkOffset (k + 1) = range.chunkOffset k + kScanChunkSize := by
  rw [chunkOffset, chunkOffset, Nat.add_mul, Nat.one_mul, Nat.add_assoc]

theorem chunkOffset_zero : range.chunkOffset 0 = range.startPage * kPageSize := by
  rw [chunkOffset, Nat.zero_mul, Nat.add_zero]

end ScanRange

namespace RecoverySource

variable {source : RecoverySource} {idx k : ℕ} {range : ScanRange}

/-- No chunk in front of `k` failed. -/
def ReadTo (source : RecoverySource) (idx : ℕ) (range : ScanRange) (k : ℕ) : Prop :=
  ∀ j < k, source.scanFails idx (range.chunkOffset j) = false

theorem readTo_zero : source.ReadTo idx range 0 := fun _ h => absurd h (Nat.not_lt_zero _)

theorem ReadTo.succ (h : source.ReadTo idx range k)
    (hk : source.scanFails idx (range.chunkOffset k) = false) : source.ReadTo idx range (k + 1) :=
  fun j hj => by
    rcases Nat.lt_succ_iff_lt_or_eq.mp hj with hlt | rfl
    · exact h j hlt
    · exact hk

@[simp] theorem fileId_readable : (source.readable idx range).fileId = range.fileId := by
  rw [readable]
  cases source.firstFailing idx range <;> rfl

@[simp] theorem startPage_readable :
    (source.readable idx range).startPage = range.startPage := by
  rw [readable]
  cases source.firstFailing idx range <;> rfl

/-- A range ends where the first chunk fails. -/
theorem readable_of_some (h : source.firstFailing idx range = some k) :
    source.ReadTo idx range k ∧ k < range.chunks ∧
      source.scanFails idx (range.chunkOffset k) = true ∧
      (source.readable idx range).endPage * kPageSize = range.chunkOffset k := by
  obtain ⟨hfails, hk, hbefore⟩ := List.find?_range_eq_some.mp h
  refine ⟨fun i hi => by simpa using hbefore i hi, List.mem_range.mp hk, hfails, ?_⟩
  rw [readable, h, Option.elim_some, ScanRange.chunkOffset, Nat.add_mul, Nat.mul_assoc,
    ScanRange.kScanChunkSize_eq_pages]

theorem firstFailing_of_fails (h : source.ReadTo idx range k) (hk : k < range.chunks)
    (hfails : source.scanFails idx (range.chunkOffset k) = true) :
    source.firstFailing idx range = some k := by
  refine List.find?_range_eq_some.mpr ⟨hfails, List.mem_range.mpr hk, fun j hj => ?_⟩
  rw [h j hj]
  rfl

/-- The end of a range that is read in part. -/
theorem readable_cases (source : RecoverySource) (idx : ℕ) (range : ScanRange) :
    source.readable idx range = range ∨
      ∃ j < range.chunks, source.scanFails idx (range.chunkOffset j) = true ∧
        (source.readable idx range).endPage * kPageSize = range.chunkOffset j := by
  cases hfirst : source.firstFailing idx range with
  | none => exact .inl (by rw [readable, hfirst, Option.elim_none])
  | some j => exact .inr ⟨j, (readable_of_some hfirst).2⟩

theorem endPage_readable_le (source : RecoverySource) (idx : ℕ) (range : ScanRange) :
    (source.readable idx range).endPage * kPageSize ≤ range.endPage * kPageSize := by
  rcases source.readable_cases idx range with hall | ⟨j, hj, -, hend⟩
  · rw [hall]
  · rw [hend]
    exact (ScanRange.lt_chunks_iff.mp hj).le

/-- Behind a chunk that is read there is as much to read as in the range. -/
theorem min_readable (h : source.ReadTo idx range (k + 1)) :
    min kScanChunkSize ((source.readable idx range).endPage * kPageSize - range.chunkOffset k) =
      min kScanChunkSize (range.endPage * kPageSize - range.chunkOffset k) := by
  rcases source.readable_cases idx range with hall | ⟨j, hj, hfails, hend⟩
  · rw [hall]
  · -- the first chunk that fails lies behind
    have hbehind : k + 1 ≤ j := by
      by_contra hlt
      rw [h j (by omega)] at hfails
      exact Bool.false_ne_true hfails
    have hoffset : range.chunkOffset (k + 1) ≤ range.chunkOffset j :=
      Nat.add_le_add_left (Nat.mul_le_mul_right _ hbehind) _
    have hlt := ScanRange.lt_chunks_iff.mp hj
    rw [ScanRange.chunkOffset_succ] at hoffset
    rw [hend, Nat.min_eq_left (Nat.le_sub_of_add_le' hoffset),
      Nat.min_eq_left (Nat.le_sub_of_add_le' (hoffset.trans hlt.le))]

variable (blob : List UInt8) (loader : IndexLoader n)

/-- One turn of the scan in front of the end. -/
theorem scanLoop_body {offset readSize : ℕ} {parsed : IndexLoader n × ℕ}
    (h : offset < range.endPage * kPageSize)
    (hread : min kScanChunkSize (range.endPage * kPageSize - offset) = readSize)
    (hparsed : loader.parseAndRebuildEntries (slice blob offset readSize) range.fileId offset =
      parsed) :
    (IndexLoader.scanLoop blob range).body (offset, loader) =
      if parsed.2 = 0 then Sum.inr parsed.1 else Sum.inl (offset + readSize, parsed.1) := by
  subst hparsed hread
  exact if_neg (Nat.not_le_of_lt h)

/-- The scan of a range at its end. -/
theorem scan_of_end {offset : ℕ} (h : range.endPage * kPageSize ≤ offset) :
    (IndexLoader.scanLoop blob (source.readable idx range)).run (offset, loader) = loader := by
  have hend := (source.endPage_readable_le idx range).trans h
  rw [IndexLoader.scanLoop_run, Nat.sub_eq_zero_of_le hend, slice, List.take_zero, scanRecords_nil]
  rfl

/-- The scan of a range at a chunk that fails. -/
theorem scan_of_fails (h : source.ReadTo idx range k)
    (hk : range.chunkOffset k < range.endPage * kPageSize)
    (hfails : source.scanFails idx (range.chunkOffset k) = true) :
    (IndexLoader.scanLoop blob (source.readable idx range)).run (range.chunkOffset k, loader) =
      loader := by
  have hfirst := firstFailing_of_fails h (ScanRange.lt_chunks_iff.mpr hk) hfails
  have hend := (readable_of_some hfirst).2.2.2.le
  rw [IndexLoader.scanLoop_run, Nat.sub_eq_zero_of_le hend, slice, List.take_zero, scanRecords_nil]
  rfl

/-- The scan of a range at a chunk that is read. -/
theorem scan_of_read (h : source.ReadTo idx range (k + 1))
    (hk : range.chunkOffset k < range.endPage * kPageSize) {readSize : ℕ}
    (hread : min kScanChunkSize (range.endPage * kPageSize - range.chunkOffset k) = readSize)
    {parsed : IndexLoader n × ℕ}
    (hparsed : loader.parseAndRebuildEntries (slice blob (range.chunkOffset k) readSize)
      range.fileId (range.chunkOffset k) = parsed) :
    (IndexLoader.scanLoop blob (source.readable idx range)).run (range.chunkOffset k, loader) =
      if parsed.2 = 0 then parsed.1
      else (IndexLoader.scanLoop blob (source.readable idx range)).run
        (range.chunkOffset k + readSize, parsed.1) := by
  have hsize := min_readable h
  have hbefore : range.chunkOffset k < (source.readable idx range).endPage * kPageSize := by
    by_contra hle
    have hpos : 0 < min kScanChunkSize (range.endPage * kPageSize - range.chunkOffset k) :=
      Nat.lt_min.mpr ⟨by decide, Nat.sub_pos_of_lt hk⟩
    rw [← hsize, Nat.sub_eq_zero_of_le (Nat.le_of_not_lt hle), Nat.min_zero] at hpos
    exact lt_irrefl 0 hpos
  rw [← @fileId_readable source idx range] at hparsed
  have hbody := scanLoop_body blob loader hbefore (hsize.trans hread) hparsed
  by_cases hzero : parsed.2 = 0
  · rw [if_pos hzero]
    exact Loop.run_of_done _ (hbody.trans (if_pos hzero))
  · rw [if_neg hzero]
    exact Loop.run_of_again _ (hbody.trans (if_neg hzero))

theorem readableRanges_cons (rest : List ScanRange) :
    source.readableRanges idx (range :: rest) =
      source.readable idx range :: source.readableRanges (idx + 1) rest := rfl

theorem scanFiles_cons (images : BlobImages) (dataBlobs : List DataBlobInfo)
    (rest : List ScanRange) : loader.scanFiles images dataBlobs (range :: rest) =
      (match blobOf dataBlobs range.fileId with
        | none => loader
        | some blob => loader.scanBlob (images.contents blob) range).scanFiles images dataBlobs
          rest := rfl

/-- The ranges from one on. -/
theorem scanned_cons (superblock : List UInt8) (rest : List ScanRange) :
    source.scanned superblock idx (range :: rest) loader =
      source.scanned superblock (idx + 1) rest (match blobOf source.dataBlobs range.fileId with
        | none => loader
        | some blob => (IndexLoader.scanLoop (source.images.contents blob)
            (source.readable idx range)).run (range.chunkOffset 0, loader)) := by
  rw [scanned, scanned, readableRanges_cons, scanFiles_cons, fileId_readable]
  cases blobOf source.dataBlobs range.fileId with
  | none => rfl
  | some blob =>
      dsimp only
      rw [IndexLoader.scanBlob, startPage_readable, ScanRange.chunkOffset_zero]

end RecoverySource

/-! ### What a loader promises -/

namespace LoaderTask

variable {source : RecoverySource}

/-- The recovery has been started and is not over. -/
structure Running (s : LoaderTask n) : Prop where
  callbacks : s.callbacks = []
  started : s.state ≠ .kInit
  notDone : s.state ≠ .kDone
  noError : s.state ≠ .kError

/-- The other members do not matter. -/
theorem Running.of_eq {s t : LoaderTask n} (h : s.Running) (hcallbacks : t.callbacks = s.callbacks)
    (hstate : t.state = s.state) : t.Running where
  callbacks := hcallbacks.trans h.callbacks
  started := by rw [hstate]; exact h.started
  notDone := by rw [hstate]; exact h.notDone
  noError := by rw [hstate]; exact h.noError

/-- The recovery goes on to another state. -/
theorem Running.goesTo {s t : LoaderTask n} (h : s.Running) (hcallbacks : t.callbacks = s.callbacks)
    (hstate : t.state ≠ .kInit ∧ t.state ≠ .kDone ∧ t.state ≠ .kError) : t.Running :=
  ⟨hcallbacks.trans h.callbacks, hstate.1, hstate.2.1, hstate.2.2⟩

/-- One of the reads of a direct load. -/
def segmentStep (source : RecoverySource) (b : MemIndexBuffer) (blob : ByteMemory)
    (memory : ByteMemory) (seg : ℕ) : ByteMemory :=
  if source.readFails (.segment seg) then memory
  else copySegment blob (imageHeader b.bytes).capacity.toNat source.ioUnit seg memory

/-- **What a loader will yield, with at most `k` reads to come**: one case for each kind of
read that it may wait for. -/
inductive Promises (source : RecoverySource) (r : KvError × IndexLoader n) (k : ℕ)
    (s : LoaderTask n) : Prop
  | ended (hreads : s.reads = []) (hcallbacks : s.callbacks = [r.1])
      (hstate : s.state = if r.1 = .kSuccess then .kDone else .kError)
      (hr : r.2 = s.loader)
  | superblock (hrun : s.Running) (hresources : source.hasSpdkResources = true)
      (copy : SuperblockCopy) (blob : ByteMemory) (hblob : source.superblockBlob = some blob)
      (hreads : s.reads = [.superblock copy]) (hareas : s.areas = IndexAreas.unloaded)
      (hk : source.readsFrom blob copy ≤ k)
      (hr : r = source.fromSuperblock (source.superblockFrom blob copy) s.loader)
  | chunk (hrun : s.Running) (hresources : source.hasSpdkResources = true)
      (area : IndexArea) (blob : AreaBlob) (i : ℕ)
      (hblob : (source.areas s.superblock).blob area = some blob)
      (htotal : s.memIndexTotalSize = (source.areas s.superblock).totalSize)
      (hoffset : s.memIndexReadOffset = i * kMemIndexChunkSize)
      (hi : i < (source.areas s.superblock).chunkCount)
      (hreads : s.reads = [.chunk area s.memIndexReadOffset])
      (hbuffer : source.noBuffer (.chunk area s.memIndexReadOffset) = false)
      (hsize : s.memIndexReadOffset + min (s.memIndexTotalSize - s.memIndexReadOffset)
        kMemIndexChunkSize ≤ s.areas.buffer.size)
      (hk : (source.areas s.superblock).chunkCount - i +
        source.readsAfter s.superblock area ≤ k)
      (hr : r = (.kSuccess, source.afterArea s.superblock area
        (source.areaFrom s.superblock area blob i s.areas) s.loader))
  | segments (hrun : s.Running) (hresources : source.hasSpdkResources = true)
      (blob : ByteMemory) (loaded pending : List ℕ)
      (hblob : source.memIndexBlob s.currentLoadArea = some blob)
      (hperm : (loaded ++ pending).Perm (List.range kMemIndexSegmentCount))
      (hpending : pending ≠ []) (hreads : s.reads = pending.map .segment)
      (hcount : s.pendingSegmentLoads = pending.length)
      (herror : s.hasLoadError = loaded.any fun seg => source.readFails (.segment seg))
      (hmemory : s.tableMemory = loaded.foldl (segmentStep source s.areas.buffer blob)
        s.loader.memIndex.entryMemory)
      (hk : pending.length + source.fileReads s.superblock ≤ k)
      (hr : r = (.kSuccess, source.rebuilt s.superblock { s.loader with
        memIndex := loadAsMemoryDump blob source.ioUnit (fun seg => source.readFails
          (.segment seg)) s.areas.buffer s.loader.memIndex }))
  | scan (hrun : s.Running) (hresources : source.hasSpdkResources = true)
      (range : ScanRange) (rest : List ScanRange) (blob j : ℕ)
      (hblob : blobOf source.dataBlobs range.fileId = some blob)
      (hranges : s.scanRanges = range :: rest)
      (hoffset : s.currentScanOffset = range.chunkOffset j)
      (hend : range.chunkOffset j < range.endPage * kPageSize)
      (hreads : s.reads = [.scan s.currentScanIdx s.currentScanOffset])
      (hbuffer : source.noBuffer (.scan s.currentScanIdx s.currentScanOffset) = false)
      (hread : source.ReadTo s.currentScanIdx range j)
      (hk : range.chunks - j + RecoverySource.rangeReads rest ≤ k)
      (hr : r = (.kSuccess, source.scanned s.superblock (s.currentScanIdx + 1) rest
        ((IndexLoader.scanLoop (source.images.contents blob)
          (source.readable s.currentScanIdx range)).run (range.chunkOffset j, s.loader))))

/-! ### The data files -/

section Methods

variable {s : LoaderTask n} {k : ℕ}

/-- The end of a recovery. -/
theorem finalizeRecovery_promises (hcallbacks : s.callbacks = []) (hreads : s.reads = []) :
    Promises source (.kSuccess, s.loader.finalizeRecovery (superblockCheckpoint s.superblock)) k
      { s with state := .kFinalizingRecovery }.finalizeRecovery :=
  .ended hreads (by simp [finalizeRecovery, hcallbacks]) rfl rfl

/-- A chunk of a data file. -/
theorem scanBlobChunk_promises (hrun : s.Running) (hresources : source.hasSpdkResources = true)
    {idx offset : ℕ} {range : ScanRange} {rest : List ScanRange} {next : LoaderTask n}
    (hnext : Promises source (.kSuccess, source.scanned s.superblock (idx + 1) rest s.loader) k
      next)
    (hoffset : range.endPage * kPageSize ≤ offset ∨ ∃ j, offset = range.chunkOffset j ∧
      source.ReadTo idx range j ∧ range.chunks - j + RecoverySource.rangeReads rest ≤ k) :
    Promises source (.kSuccess, source.scanned s.superblock (idx + 1) rest
      (match blobOf source.dataBlobs range.fileId with
        | none => s.loader
        | some blob => (IndexLoader.scanLoop (source.images.contents blob)
            (source.readable idx range)).run (offset, s.loader))) k
      (s.scanBlobChunk source idx range rest offset next) := by
  rw [scanBlobChunk]
  by_cases hend : range.endPage * kPageSize ≤ offset
  · rw [if_pos hend]
    cases blobOf source.dataBlobs range.fileId with
    | none => exact hnext
    | some blob =>
        dsimp only
        rwa [RecoverySource.scan_of_end _ _ hend]
  · obtain ⟨j, rfl, hread, hk⟩ := hoffset.resolve_left hend
    have hlt := Nat.lt_of_not_le hend
    rw [if_neg hend]
    cases hblob : blobOf source.dataBlobs range.fileId with
    | none => exact hnext
    | some blob =>
        dsimp only
        split_ifs with hbuffer
        · have hfails : source.scanFails idx (range.chunkOffset j) = true := by
            rw [RecoverySource.scanFails, hbuffer, Bool.true_or]
          rwa [RecoverySource.scan_of_fails _ _ hread hlt hfails]
        · exact .scan (hrun.of_eq rfl rfl) hresources range rest blob j hblob rfl rfl hlt rfl
            (Bool.eq_false_iff.mpr hbuffer) hread hk rfl

/-- The data files from one on. -/
theorem scanNextFileBlob_promises (hrun : s.Running) (hreads : s.reads = [])
    (hresources : source.hasSpdkResources = true) {ranges : List ScanRange}
    (hk : RecoverySource.rangeReads ranges ≤ k) (idx : ℕ) :
    Promises source (.kSuccess, source.scanned s.superblock idx ranges s.loader) k
      (s.scanNextFileBlob source idx ranges) := by
  induction ranges generalizing idx with
  | nil => exact finalizeRecovery_promises hrun.callbacks hreads
  | cons range rest ih =>
      have hcons : RecoverySource.rangeReads (range :: rest) =
          range.chunks + RecoverySource.rangeReads rest := by
        simp [RecoverySource.rangeReads]
      rw [RecoverySource.scanned_cons, scanNextFileBlob, ← ScanRange.chunkOffset_zero]
      refine scanBlobChunk_promises hrun hresources (ih (by omega) (idx + 1)) (.inr ⟨0, rfl,
        RecoverySource.readTo_zero, by omega⟩)

/-- The rebuild from the data files. -/
theorem startIncrementalRebuild_promises (hrun : s.Running) (hreads : s.reads = [])
    (hk : source.fileReads s.superblock ≤ k) :
    Promises source (.kSuccess, source.rebuilt s.superblock s.loader) k
      (s.startIncrementalRebuild source) := by
  -- the loader with the sequence of the checkpoint
  let t : LoaderTask n := { s with loader := { s.loader with
    recoveredMaxSequence := (superblockCheckpoint s.superblock).checkpointGlobalSeq } }
  have ht : t.Running := hrun.of_eq rfl rfl
  have hdone : Promises source (.kSuccess, source.scanned s.superblock 0 [] t.loader) k
      { t with state := .kFinalizingRecovery }.finalizeRecovery :=
    finalizeRecovery_promises (s := t) hrun.callbacks hreads
  rw [startIncrementalRebuild, RecoverySource.rebuilt]
  dsimp only
  cases hresources : source.hasSpdkResources with
  | false =>
      rw [Bool.false_and, if_neg Bool.false_ne_true, if_neg Bool.false_ne_true,
        if_neg Bool.false_ne_true, ite_self]
      exact hdone
  | true =>
      rw [if_pos rfl, if_pos rfl, ← RecoverySource.rangesOf]
      cases hranges : source.rangesOf s.superblock with
      | nil => exact hdone
      | cons range rest =>
          have hblobs : source.dataBlobs ≠ [] := fun hnil => by
            rw [RecoverySource.rangesOf, CheckpointPosition.buildScanRangesFromBlobs,
              hnil] at hranges
            exact absurd hranges (by simp)
          rw [RecoverySource.fileReads, hranges] at hk
          have hscan := scanNextFileBlob_promises ht hreads hresources hk 0
          simpa [hblobs] using hscan

/-! ### The index areas -/

/-- The index is filled, and the data files follow. -/
theorem rebuild_promises (hrun : s.Running) (hreads : s.reads = [])
    (hk : source.fileReads s.superblock ≤ k) (m : MemIndex n) :
    Promises source (.kSuccess, source.rebuilt s.superblock { s.loader with memIndex := m }) k
      ({ s with
        loader := { s.loader with memIndex := m }
        state := .kRebuildingIncremental }.startIncrementalRebuild source) :=
  startIncrementalRebuild_promises (s := { s with
    loader := { s.loader with memIndex := m }, state := .kRebuildingIncremental })
    (hrun.goesTo rfl (by simp)) hreads hk

/-- The direct load of an area. -/
theorem loadAsMemoryDumpFromBlob_promises (hrun : s.Running) (hreads : s.reads = [])
    (hresources : source.hasSpdkResources = true)
    (hk : source.readsAfterAreas s.superblock ≤ k) (area : IndexArea) :
    Promises source (.kSuccess, source.rebuilt s.superblock { s.loader with
      memIndex := match (source.areas s.superblock).blob area with
        | none => s.areas.buffer.loadByUpsert s.loader.memIndex
        | some blob => loadAsMemoryDump blob.bytes source.ioUnit
            (fun seg => source.readFails (.segment seg)) s.areas.buffer s.loader.memIndex }) k
      (s.loadAsMemoryDumpFromBlob source area) := by
  rw [RecoverySource.readsAfterAreas] at hk
  rw [loadAsMemoryDumpFromBlob, RecoverySource.areas]
  dsimp only
  cases hblob : source.memIndexBlob area with
  | none => exact rebuild_promises hrun hreads (by omega) _
  | some blob =>
      refine .segments (hrun.of_eq rfl rfl) hresources blob [] (List.range kMemIndexSegmentCount)
        hblob (List.Perm.refl _) (by decide) rfl (List.length_range).symm rfl rfl ?_ rfl
      rw [List.length_range]
      exact hk

/-- The index is filled from an area. -/
theorem deserializeMemIndex_promises (hrun : s.Running) (hreads : s.reads = [])
    (hk : source.readsAfterAreas s.superblock ≤ k) (area : IndexArea) :
    Promises source (.kSuccess, source.rebuilt s.superblock { s.loader with
      memIndex := if source.hasSpdkResources then
        if s.areas.buffer.canUseMemoryDumpLoad n then
          match (source.areas s.superblock).blob area with
          | none => s.areas.buffer.loadByUpsert s.loader.memIndex
          | some blob => loadAsMemoryDump blob.bytes source.ioUnit
              (fun seg => source.readFails (.segment seg)) s.areas.buffer s.loader.memIndex
        else s.areas.buffer.loadByUpsert s.loader.memIndex
      else s.loader.memIndex }) k (s.deserializeMemIndex source area) := by
  have hfiles : source.fileReads s.superblock ≤ k := by
    rw [RecoverySource.readsAfterAreas] at hk
    omega
  rw [deserializeMemIndex]
  split_ifs with hresources hdump
  · exact loadAsMemoryDumpFromBlob_promises hrun hreads hresources hk area
  · exact rebuild_promises hrun hreads hfiles _
  · exact rebuild_promises hrun hreads hfiles s.loader.memIndex

/-- The selected area is put into the index. -/
theorem compareAndSelectArea_promises (hrun : s.Running) (hreads : s.reads = [])
    (hk : source.readsAfterAreas s.superblock ≤ k) :
    Promises source (.kSuccess, source.afterAreas s.superblock s.areas s.loader) k
      (s.compareAndSelectArea source) := by
  have hfiles : source.fileReads s.superblock ≤ k := by
    rw [RecoverySource.readsAfterAreas] at hk
    omega
  rw [compareAndSelectArea, RecoverySource.afterAreas, ← AreaLoader.selected]
  dsimp only
  by_cases hversion : s.areas.versions s.areas.selected = 0
  · rw [IndexAreas.fillFrom, if_pos hversion, if_pos hversion, ite_self]
    exact startIncrementalRebuild_promises (s := { s with
      selectedArea := some s.areas.selected, state := .kScanningDataFiles })
      (hrun.goesTo rfl (by simp)) hreads hfiles
  · rw [IndexAreas.fillFrom, if_neg hversion, if_neg hversion]
    exact deserializeMemIndex_promises (s := { s with
      selectedArea := some s.areas.selected, state := .kDeserializing })
      (hrun.goesTo rfl (by simp)) hreads hk s.areas.selected

/-- The version of an area is set again. -/
theorem setVersion_setVersion (s : LoaderTask n) (area : IndexArea) (v w : ℕ) :
    (s.setVersion area v).setVersion area w = s.setVersion area w := by
  rw [setVersion, setVersion, setVersion]
  simp

/-- The blob of an area, and its chunks that are not read. -/
theorem areas_blob_eq_some {superblock : List UInt8} {area : IndexArea} {blob : AreaBlob}
    (h : (source.areas superblock).blob area = some blob) :
    source.memIndexBlob area = some blob.bytes ∧ ∀ i, blob.chunkFails i =
      (source.noBuffer (.chunk area (i * kMemIndexChunkSize)) ||
        source.readFails (.chunk area (i * kMemIndexChunkSize))) := by
  obtain ⟨bytes, hbytes, rfl⟩ := Option.map_eq_some_iff.mp h
  exact ⟨hbytes, fun _ => rfl⟩

theorem areas_blob_of_none {area : IndexArea} (superblock : List UInt8)
    (h : source.memIndexBlob area = none) : (source.areas superblock).blob area = none :=
  Option.map_eq_none_iff.mpr h

theorem areas_blob_of_some {area : IndexArea} {bytes : ByteMemory} (superblock : List UInt8)
    (h : source.memIndexBlob area = some bytes) :
    ∃ blob, (source.areas superblock).blob area = some blob :=
  ⟨_, Option.map_eq_some_iff.mpr ⟨bytes, h, rfl⟩⟩

theorem ensure_of_le {b : MemIndexBuffer} {size : ℕ} (h : size ≤ b.size) : b.ensure size = b :=
  if_neg (Nat.not_lt_of_le h)

theorem size_ensure_ge (b : MemIndexBuffer) (size : ℕ) : size ≤ (b.ensure size).size := by
  rw [MemIndexBuffer.ensure]
  split_ifs with h
  · exact le_rfl
  · exact Nat.le_of_not_lt h

theorem ensure_ensure (b : MemIndexBuffer) (size : ℕ) : (b.ensure size).ensure size =
    b.ensure size :=
  ensure_of_le (size_ensure_ge b size)

/-- The chunks of an area, if what follows the area keeps its promise. -/
theorem readNextMemIndexChunk_promises (hrun : s.Running) (hreads : s.reads = [])
    (hresources : source.hasSpdkResources = true) {area : IndexArea} {blob : AreaBlob} {i : ℕ}
    (hblob : (source.areas s.superblock).blob area = some blob)
    (htotal : s.memIndexTotalSize = (source.areas s.superblock).totalSize)
    (hoffset : s.memIndexReadOffset = min (i * kMemIndexChunkSize) s.memIndexTotalSize)
    (hi : i ≤ (source.areas s.superblock).chunkCount)
    (hk : (source.areas s.superblock).chunkCount - i + source.readsAfter s.superblock area ≤ k)
    (hnext : ∀ t : LoaderTask n, t.Running → t.reads = [] → t.superblock = s.superblock →
      Promises source (.kSuccess, source.afterArea t.superblock area t.areas t.loader) k
        (LoaderTask.afterArea source area t)) :
    Promises source (.kSuccess, source.afterArea s.superblock area
      (source.areaFrom s.superblock area blob i s.areas) s.loader) k
      (s.readNextMemIndexChunk source area (LoaderTask.afterArea source area)) := by
  have hchunk : 0 < kMemIndexChunkSize := by decide
  have hlast : ∀ a, Promises source (.kSuccess, source.afterArea s.superblock area a s.loader) k
      (LoaderTask.afterArea source area { s with areas := a }) := fun a =>
    hnext { s with areas := a } (hrun.of_eq rfl rfl) hreads rfl
  rw [readNextMemIndexChunk]
  dsimp only
  rcases Nat.lt_or_eq_of_le hi with hlt | rfl
  · -- a chunk is left
    have hbefore := IndexAreas.chunk_lt hlt
    rw [← htotal] at hbefore
    rw [Nat.min_eq_left hbefore.le] at hoffset
    have hsome : (source.areas s.superblock).chunkCount - i =
        (source.areas s.superblock).chunkCount - (i + 1) + 1 := by omega
    obtain ⟨-, hfails⟩ := areas_blob_eq_some hblob
    rw [if_neg (by omega)]
    split_ifs with hbuffer
    · rw [setVersion_setVersion]
      rw [hoffset] at hbuffer
      have hfail : blob.chunkFails i = true := by rw [hfails, hbuffer, Bool.true_or]
      rw [RecoverySource.areaFrom, hsome, readChunks, if_pos hfail, ← htotal, ← hoffset]
      exact hlast ⟨_, _⟩
    · refine .chunk (hrun.of_eq rfl rfl) hresources area blob i hblob htotal hoffset hlt rfl
        (Bool.eq_false_iff.mpr hbuffer) (size_ensure_ge _ _) hk ?_
      dsimp only
      rw [RecoverySource.areaFrom, RecoverySource.areaFrom, hsome, readChunks, readChunks, ← htotal,
        ← hoffset]
      dsimp only
      rw [ensure_ensure]
  · -- the area has been read
    rw [Nat.min_eq_right (by rw [htotal]; exact IndexAreas.totalSize_le _)] at hoffset
    rw [if_pos (by rw [hoffset]; omega), RecoverySource.areaFrom, Nat.sub_self, readChunks]
    exact hlast ⟨_, _⟩

/-- An area, if what follows it keeps its promise. -/
theorem loadMemIndexArea_promises (hrun : s.Running) (hreads : s.reads = [])
    (area : IndexArea) (hk : (source.areas s.superblock).chunkCount +
      source.readsAfter s.superblock area ≤ k)
    (hnext : ∀ t : LoaderTask n, t.Running → t.reads = [] → t.superblock = s.superblock →
      Promises source (.kSuccess, source.afterArea t.superblock area t.areas t.loader) k
        (LoaderTask.afterArea source area t)) :
    Promises source (.kSuccess, source.afterArea s.superblock area
      (source.loadedArea s.superblock area s.areas) s.loader) k
      (s.loadMemIndexArea source area (LoaderTask.afterArea source area)) := by
  have hlast : ∀ a, Promises source (.kSuccess, source.afterArea s.superblock area a s.loader) k
      (LoaderTask.afterArea source area { s with areas := a }) := fun a =>
    hnext { s with areas := a } (hrun.of_eq rfl rfl) hreads rfl
  unfold loadMemIndexArea RecoverySource.loadedArea
  split_ifs with hresources
  · cases hbytes : source.memIndexBlob area with
    | none =>
        rw [IndexAreas.loadArea_none (areas_blob_of_none s.superblock hbytes)]
        exact hlast ⟨_, _⟩
    | some bytes =>
        obtain ⟨blob, hblob⟩ := areas_blob_of_some s.superblock hbytes
        have hread := readNextMemIndexChunk_promises (i := 0) (s := { s with
          memIndexTotalSize := (source.areas s.superblock).totalSize
          areas := ⟨s.areas.buffer.ensureHeader, s.areas.versions⟩
          currentLoadArea := area
          memIndexReadOffset := 0 })
          (hrun.of_eq rfl rfl) hreads hresources hblob rfl (by simp) (Nat.zero_le _) hk hnext
        rw [IndexAreas.loadArea, hblob]
        exact hread
  · cases area with
    | a => exact hlast ⟨_, _⟩
    | b => exact hlast ⟨_, _⟩

/-- Both areas are there. -/
theorem afterArea_b_promises (hrun : s.Running) (hreads : s.reads = [])
    (hk : source.readsAfterAreas s.superblock ≤ k) :
    Promises source (.kSuccess, source.afterArea s.superblock .b s.areas s.loader) k
      (LoaderTask.afterArea source .b s) :=
  compareAndSelectArea_promises (s := { s with state := .kComparingVersions })
    (hrun.goesTo rfl (by simp)) hreads hk

theorem afterArea_a (s : LoaderTask n) : LoaderTask.afterArea source .a s =
    { s with state := .kLoadingMemIndexB }.loadMemIndexArea source .b
      (LoaderTask.afterArea source .b) := rfl

/-- **What follows an area**. -/
theorem afterArea_promises (hrun : s.Running) (hreads : s.reads = []) (area : IndexArea)
    (hk : source.readsAfter s.superblock area ≤ k) :
    Promises source (.kSuccess, source.afterArea s.superblock area s.areas s.loader) k
      (LoaderTask.afterArea source area s) := by
  cases area with
  | b => exact afterArea_b_promises hrun hreads hk
  | a =>
      have hareas : source.readsAfterAreas s.superblock ≤ k :=
        (Nat.le_add_left _ _).trans hk
      rw [afterArea_a]
      exact loadMemIndexArea_promises (s := { s with state := .kLoadingMemIndexB })
        (hrun.goesTo rfl (by simp)) hreads .b hk fun t ht hnone hsame =>
          afterArea_b_promises ht hnone (by rwa [hsame])

theorem fromSuperblock_some (superblock : List UInt8) (loader : IndexLoader n) :
    source.fromSuperblock (some superblock) loader = (.kSuccess, source.afterArea superblock .a
      (source.loadedArea superblock .a IndexAreas.unloaded) loader) := rfl

theorem readsBehind_some (superblock : List UInt8) : source.readsBehind (some superblock) =
    (source.areas superblock).chunkCount + source.readsAfter superblock .a := by
  rw [RecoverySource.readsBehind, Option.elim_some]

/-- The areas, and what follows. -/
theorem loadAreas_promises (hrun : s.Running) (hreads : s.reads = [])
    (hareas : s.areas = IndexAreas.unloaded)
    (hk : source.readsBehind (some s.superblock) ≤ k) :
    Promises source (source.fromSuperblock (some s.superblock) s.loader) k
      (s.loadAreas source) := by
  rw [readsBehind_some] at hk
  rw [fromSuperblock_some, ← hareas, loadAreas]
  exact loadMemIndexArea_promises (s := { s with state := .kLoadingMemIndexA })
    (hrun.goesTo rfl (by simp)) hreads .a hk fun t ht hnone hsame =>
      afterArea_promises ht hnone .a (by rw [hsame]; exact (Nat.le_add_left _ _).trans hk)

/-! ### Completions -/

/-- The only read under way. -/
theorem of_getElem?_singleton {read read' : LoaderRead} {i : ℕ}
    (h : [read][i]? = some read') : i = 0 ∧ read = read' := by
  obtain ⟨hi, hread⟩ := List.getElem?_eq_some_iff.mp h
  obtain rfl : i = 0 := by simpa using hi
  exact ⟨rfl, hread⟩

/-- A recovery that ends with an error. -/
theorem fail_promises (hrun : s.Running) (hreads : s.reads = []) {err : KvError}
    (herr : err ≠ .kSuccess) : Promises source (err, s.loader) k (s.fail err) :=
  .ended hreads (by simp [fail, hrun.callbacks]) (by simp [fail, herr]) rfl

theorem readsFrom_eq (blob : ByteMemory) (copy : SuperblockCopy) :
    source.readsBehind (source.superblockFrom blob copy) + 1 ≤ source.readsFrom blob copy := by
  cases copy with
  | primary =>
      rw [RecoverySource.readsFrom]
      omega
  | backup =>
      rw [RecoverySource.readsFrom]
      omega

/-- A copy that is taken. -/
theorem superblockFrom_of_some {blob : ByteMemory} {copy : SuperblockCopy} {sb : List UInt8}
    (h : source.readCopy blob copy = some sb) : source.superblockFrom blob copy = some sb := by
  cases copy with
  | primary =>
      rw [RecoverySource.superblockFrom, h]
      rfl
  | backup => rw [RecoverySource.superblockFrom, h]

/-- A copy of the superblock. -/
theorem onSuperblockRead_promises (hrun : s.Running) (hreads : s.reads = [])
    (hresources : source.hasSpdkResources = true) {copy : SuperblockCopy} {blob : ByteMemory}
    (hblob : source.superblockBlob = some blob) (hareas : s.areas = IndexAreas.unloaded)
    (hk : source.readsFrom blob copy ≤ k + 1) :
    Promises source (source.fromSuperblock (source.superblockFrom blob copy) s.loader) k
      (s.onSuperblockRead source copy blob) := by
  have hbehind := (readsFrom_eq blob copy).trans hk
  unfold onSuperblockRead
  dsimp only
  by_cases hgood : (!source.readFails (.superblock copy) &&
      (readSuperblock (RecoverySource.superblockAt blob copy)).isSome) = true
  · -- the copy is taken
    have hcopy := superblockFrom_of_some (if_pos hgood : source.readCopy blob copy = _)
    rw [hcopy] at hbehind
    rw [if_pos hgood, hcopy]
    generalize (RecoverySource.superblockAt blob copy).take sizeofSuperblock = sb at hbehind ⊢
    exact loadAreas_promises (s := { s with superblock := sb }) (hrun.of_eq rfl rfl) hreads hareas
      (show source.readsBehind (some sb) ≤ k by omega)
  · have hnone : source.readCopy blob copy = none := if_neg hgood
    rw [if_neg hgood]
    cases copy with
    | primary =>
        have hbackup : source.superblockFrom blob .primary =
            source.superblockFrom blob .backup := by
          rw [RecoverySource.superblockFrom, hnone, RecoverySource.superblockFrom]
          rfl
        refine .superblock (hrun.goesTo rfl (by simp)) hresources .backup blob hblob
          rfl hareas ?_ (by rw [hbackup])
        rw [RecoverySource.readsFrom, hbackup] at hk
        rw [RecoverySource.readsFrom]
        omega
    | backup =>
        rw [RecoverySource.superblockFrom, hnone]
        exact fail_promises hrun hreads (by simp)

/-- The rest of an area at a chunk that fails. -/
theorem areaFrom_of_fails {superblock : List UInt8} {area : IndexArea} {blob : AreaBlob} {i : ℕ}
    {a : AreaLoader} (hi : i < (source.areas superblock).chunkCount)
    (hensure : a.buffer.ensure (i * kMemIndexChunkSize +
      min ((source.areas superblock).totalSize - i * kMemIndexChunkSize) kMemIndexChunkSize) =
        a.buffer)
    (hfails : blob.chunkFails i = true) : source.areaFrom superblock area blob i a =
      ⟨a.buffer, Function.update a.versions area a.buffer.areaVersion⟩ := by
  have hsome : (source.areas superblock).chunkCount - i =
      (source.areas superblock).chunkCount - (i + 1) + 1 := by omega
  rw [RecoverySource.areaFrom, hsome, readChunks, if_pos hfails, hensure]

/-- The rest of an area at a chunk that is read. -/
theorem areaFrom_of_read {superblock : List UInt8} {area : IndexArea} {blob : AreaBlob} {i : ℕ}
    {a : AreaLoader} (hi : i < (source.areas superblock).chunkCount)
    (hensure : a.buffer.ensure (i * kMemIndexChunkSize +
      min ((source.areas superblock).totalSize - i * kMemIndexChunkSize) kMemIndexChunkSize) =
        a.buffer)
    (hread : blob.chunkFails i = false) : source.areaFrom superblock area blob i a =
      source.areaFrom superblock area blob (i + 1) ⟨a.buffer.fill blob.bytes
        (i * kMemIndexChunkSize) (min ((source.areas superblock).totalSize -
          i * kMemIndexChunkSize) kMemIndexChunkSize), a.versions⟩ := by
  have hsome : (source.areas superblock).chunkCount - i =
      (source.areas superblock).chunkCount - (i + 1) + 1 := by omega
  rw [RecoverySource.areaFrom, RecoverySource.areaFrom, hsome, readChunks,
    if_neg (by rw [hread]; exact Bool.false_ne_true), hensure]

/-- A chunk of an area. -/
theorem onMemIndexChunkLoaded_promises (hrun : s.Running) (hreads : s.reads = [])
    (hresources : source.hasSpdkResources = true) {area : IndexArea} {blob : AreaBlob} {i : ℕ}
    (hblob : (source.areas s.superblock).blob area = some blob)
    (htotal : s.memIndexTotalSize = (source.areas s.superblock).totalSize)
    (hoffset : s.memIndexReadOffset = i * kMemIndexChunkSize)
    (hi : i < (source.areas s.superblock).chunkCount)
    (hbuffer : source.noBuffer (.chunk area s.memIndexReadOffset) = false)
    (hsize : s.memIndexReadOffset + min (s.memIndexTotalSize - s.memIndexReadOffset)
      kMemIndexChunkSize ≤ s.areas.buffer.size)
    (hk : (source.areas s.superblock).chunkCount - i + source.readsAfter s.superblock area ≤
      k + 1) :
    Promises source (.kSuccess, source.afterArea s.superblock area
      (source.areaFrom s.superblock area blob i s.areas) s.loader) k
      (s.onMemIndexChunkLoaded source area blob.bytes) := by
  obtain ⟨-, hfails⟩ := areas_blob_eq_some hblob
  have hless : (source.areas s.superblock).chunkCount - (i + 1) +
      source.readsAfter s.superblock area ≤ k := by omega
  rw [hoffset, htotal] at hsize
  have hensure := ensure_of_le hsize
  have hafter : ∀ t : LoaderTask n, t.Running → t.reads = [] → t.superblock = s.superblock →
      Promises source (.kSuccess, source.afterArea t.superblock area t.areas t.loader) k
        (LoaderTask.afterArea source area t) := fun t ht hnone hsame =>
    afterArea_promises ht hnone area (by rw [hsame]; omega)
  have hfail : blob.chunkFails i = source.readFails (.chunk area (i * kMemIndexChunkSize)) := by
    rw [hfails, ← hoffset, hbuffer, Bool.false_or]
  rw [onMemIndexChunkLoaded, hoffset]
  dsimp only
  split_ifs with hstatus
  · -- the area is as far as it was read
    rw [setVersion_setVersion, areaFrom_of_fails hi hensure (hfail.trans hstatus)]
    exact hafter (s.setVersion area s.areas.buffer.areaVersion) (hrun.of_eq rfl rfl) hreads rfl
  · rw [areaFrom_of_read hi hensure (hfail.trans (Bool.eq_false_iff.mpr hstatus)), ← htotal]
    generalize s.areas.buffer.fill blob.bytes (i * kMemIndexChunkSize)
      (min (s.memIndexTotalSize - i * kMemIndexChunkSize) kMemIndexChunkSize) = filled
    refine readNextMemIndexChunk_promises (i := i + 1) (s := { s with
      areas := ⟨filled, s.areas.versions⟩
      memIndexReadOffset := min (i * kMemIndexChunkSize + kMemIndexChunkSize)
        s.memIndexTotalSize })
      (hrun.of_eq rfl rfl) hreads hresources hblob htotal ?_ hi hless hafter
    rw [Nat.add_mul, Nat.one_mul]

/-- Different segments can be read in any order. -/
theorem segmentStep_comm (b : MemIndexBuffer) (blob memory : ByteMemory) (seg seg' : ℕ) :
    segmentStep source b blob (segmentStep source b blob memory seg) seg' =
      segmentStep source b blob (segmentStep source b blob memory seg') seg := by
  rcases eq_or_ne seg seg' with rfl | hne
  · rfl
  simp only [segmentStep]
  split_ifs
  · rfl
  · rfl
  · rfl
  rw [copySegment, copySegment, copySegment, copySegment]
  refine ByteMemory.copy_comm _ ?_
  -- a segment ends in front of the next one
  generalize (imageHeader b.bytes).capacity.toNat * sizeofMemIndexEntry / kMemIndexSegmentCount =
    size
  have hlen : size / source.ioUnit * source.ioUnit ≤ size := Nat.div_mul_le_self _ _
  rcases Nat.lt_or_gt_of_ne hne with hlt | hlt
  · have hmul := Nat.mul_le_mul_right size (Nat.succ_le_of_lt hlt)
    rw [Nat.succ_mul] at hmul
    exact .inl (by omega)
  · have hmul := Nat.mul_le_mul_right size (Nat.succ_le_of_lt hlt)
    rw [Nat.succ_mul] at hmul
    exact .inr (by omega)

/-- **All segments**, in whatever order they were read. -/
theorem foldl_segmentStep {loaded : List ℕ}
    (hperm : loaded.Perm (List.range kMemIndexSegmentCount)) (b : MemIndexBuffer)
    (blob memory : ByteMemory) :
    loaded.foldl (segmentStep source b blob) memory =
      dumpSegments blob (imageHeader b.bytes).capacity.toNat source.ioUnit
        (fun seg => source.readFails (.segment seg)) memory :=
  hperm.foldl_eq' (fun seg _ seg' _ memory => segmentStep_comm b blob memory seg seg') memory

/-- A segment of a direct load. -/
theorem onDirectSegmentLoaded_promises (hrun : s.Running)
    (hresources : source.hasSpdkResources = true) {blob : ByteMemory} {loaded pending : List ℕ}
    {seg : ℕ} (hblob : source.memIndexBlob s.currentLoadArea = some blob)
    (hperm : (loaded ++ seg :: pending).Perm (List.range kMemIndexSegmentCount))
    (hreads : s.reads = pending.map .segment)
    (hcount : s.pendingSegmentLoads = pending.length + 1)
    (herror : s.hasLoadError = loaded.any fun seg => source.readFails (.segment seg))
    (hmemory : s.tableMemory = loaded.foldl (segmentStep source s.areas.buffer blob)
      s.loader.memIndex.entryMemory)
    (hk : pending.length + 1 + source.fileReads s.superblock ≤ k + 1) :
    Promises source (.kSuccess, source.rebuilt s.superblock { s.loader with
      memIndex := loadAsMemoryDump blob source.ioUnit (fun seg => source.readFails
        (.segment seg)) s.areas.buffer s.loader.memIndex }) k
      (s.onDirectSegmentLoaded source seg blob) := by
  have hperm : ((loaded ++ [seg]) ++ pending).Perm (List.range kMemIndexSegmentCount) := by
    rwa [List.append_assoc]
  have hmemory : segmentStep source s.areas.buffer blob s.tableMemory seg =
      (loaded ++ [seg]).foldl (segmentStep source s.areas.buffer blob)
        s.loader.memIndex.entryMemory := by
    rw [List.foldl_append, ← hmemory]
    rfl
  have herror : (s.hasLoadError || source.readFails (.segment seg)) =
      (loaded ++ [seg]).any fun seg => source.readFails (.segment seg) := by
    simp [herror]
  have hlen : s.pendingSegmentLoads - 1 = pending.length := by omega
  unfold onDirectSegmentLoaded
  dsimp only
  rw [← segmentStep, hmemory, herror, hlen]
  by_cases hlast : pending.length = 0
  · -- all segments have been read
    have hnil := List.length_eq_zero_iff.mp hlast
    rw [hnil, List.append_nil] at hperm
    rw [if_pos hlast, hperm.any_eq, foldl_segmentStep hperm, loadAsMemoryDump]
    refine rebuild_promises (s := { s with
      tableMemory := dumpSegments blob (imageHeader s.areas.buffer.bytes).capacity.toNat
        source.ioUnit (fun seg => source.readFails (.segment seg)) s.loader.memIndex.entryMemory
      hasLoadError := (List.range kMemIndexSegmentCount).any fun seg =>
        source.readFails (.segment seg)
      pendingSegmentLoads := pending.length })
      (hrun.of_eq rfl rfl) ?_ (by dsimp only; omega) _
    rw [hreads, hnil]
    rfl
  · rw [if_neg hlast]
    refine .segments (hrun.of_eq rfl rfl) hresources blob (loaded ++ [seg]) pending hblob hperm
      (fun hnil => hlast (by rw [hnil]; rfl)) hreads rfl rfl rfl (by dsimp only; omega) rfl

/-- A chunk of a data file. -/
theorem onScanChunkRead_promises (hrun : s.Running) (hreads : s.reads = [])
    (hresources : source.hasSpdkResources = true) {range : ScanRange} {rest : List ScanRange}
    {blob j : ℕ} (hblob : blobOf source.dataBlobs range.fileId = some blob)
    (hoffset : s.currentScanOffset = range.chunkOffset j)
    (hend : range.chunkOffset j < range.endPage * kPageSize)
    (hbuffer : source.noBuffer (.scan s.currentScanIdx s.currentScanOffset) = false)
    (hread : source.ReadTo s.currentScanIdx range j)
    (hk : range.chunks - j + RecoverySource.rangeReads rest ≤ k + 1) :
    Promises source (.kSuccess, source.scanned s.superblock (s.currentScanIdx + 1) rest
      ((IndexLoader.scanLoop (source.images.contents blob)
        (source.readable s.currentScanIdx range)).run (range.chunkOffset j, s.loader))) k
      (s.onScanChunkRead source blob s.currentScanIdx range rest) := by
  have hj := ScanRange.lt_chunks_iff.mpr hend
  have hrest : RecoverySource.rangeReads rest ≤ k := by omega
  unfold onScanChunkRead
  dsimp only
  rw [hoffset] at hbuffer ⊢
  by_cases hstatus : source.readFails (.scan s.currentScanIdx (range.chunkOffset j)) = true
  · -- the file is left
    have hfails : source.scanFails s.currentScanIdx (range.chunkOffset j) = true := by
      rw [RecoverySource.scanFails, hstatus, Bool.or_true]
    rw [if_pos hstatus, RecoverySource.scan_of_fails _ _ hread hend hfails]
    exact scanNextFileBlob_promises hrun hreads hresources hrest _
  · have hok : source.scanFails s.currentScanIdx (range.chunkOffset j) = false := by
      rw [RecoverySource.scanFails, hbuffer, Bool.eq_false_iff.mpr hstatus, Bool.false_or]
    rw [if_neg hstatus, RecoverySource.scan_of_read _ _ (hread.succ hok) hend rfl rfl]
    generalize hsize : min kScanChunkSize (range.endPage * kPageSize - range.chunkOffset j) =
      readSize
    generalize s.loader.parseAndRebuildEntries (slice (source.images.contents blob)
      (range.chunkOffset j) readSize) range.fileId (range.chunkOffset j) = parsed
    obtain ⟨loader, entries⟩ := parsed
    -- the loader with the records of the chunk
    generalize ht : ({ s with loader := loader, currentScanOffset := range.chunkOffset j } :
      LoaderTask n) = t
    have hrunning : t.Running := by
      subst ht
      exact hrun.of_eq rfl rfl
    have hreads' : t.reads = [] := by rw [← ht, hreads]
    have hsame : s.superblock = t.superblock ∧ loader = t.loader := by
      subst ht
      exact ⟨rfl, rfl⟩
    have hnext := scanNextFileBlob_promises hrunning hreads' hresources hrest
      (s.currentScanIdx + 1)
    dsimp only
    rw [hsame.1, hsame.2]
    by_cases hzero : entries = 0
    · rw [if_pos hzero, if_pos hzero]
      exact hnext
    · -- the next chunk, or the end of the range
      have hoffset : range.endPage * kPageSize ≤ range.chunkOffset j + readSize ∨
          ∃ i, range.chunkOffset j + readSize = range.chunkOffset i ∧
            source.ReadTo s.currentScanIdx range i ∧
            range.chunks - i + RecoverySource.rangeReads rest ≤ k := by
        rcases Nat.le_total kScanChunkSize (range.endPage * kPageSize - range.chunkOffset j) with
          hle | hle
        · rw [Nat.min_eq_left hle] at hsize
          exact .inr ⟨j + 1, by rw [ScanRange.chunkOffset_succ, hsize], hread.succ hok, by omega⟩
        · rw [Nat.min_eq_right hle] at hsize
          exact .inl (by rw [← hsize, Nat.add_sub_cancel' hend.le])
      have hchunk := scanBlobChunk_promises hrunning hresources hnext hoffset
      rw [hblob] at hchunk
      rw [if_neg hzero, if_neg hzero]
      exact hchunk

theorem complete_superblock (t : LoaderTask n) (copy : SuperblockCopy) {blob : ByteMemory}
    (h : source.superblockBlob = some blob) :
    t.complete source (.superblock copy) = some (t.onSuperblockRead source copy blob) := by
  rw [LoaderTask.complete, h, Option.map_some]

theorem complete_chunk (t : LoaderTask n) {area : IndexArea} (offset : ℕ) {blob : ByteMemory}
    (h : source.memIndexBlob area = some blob) : t.complete source (.chunk area offset) =
      some (t.onMemIndexChunkLoaded source area blob) := by
  rw [LoaderTask.complete, h, Option.map_some]

theorem complete_segment (t : LoaderTask n) (seg : ℕ) {blob : ByteMemory}
    (h : source.memIndexBlob t.currentLoadArea = some blob) :
    t.complete source (.segment seg) = some (t.onDirectSegmentLoaded source seg blob) := by
  rw [LoaderTask.complete, h, Option.map_some]

theorem complete_scan (t : LoaderTask n) (idx offset : ℕ) {range : ScanRange}
    {rest : List ScanRange} {blob : ℕ} (hranges : t.scanRanges = range :: rest)
    (h : blobOf source.dataBlobs range.fileId = some blob) :
    t.complete source (.scan idx offset) =
      some (t.onScanChunkRead source blob idx range rest) := by
  rw [LoaderTask.complete, hranges]
  exact Option.map_eq_some_iff.mpr ⟨blob, h, rfl⟩

/-- **What one completion does**: it leaves the result as it was, and one read less to come. -/
theorem Promises.complete {r : KvError × IndexLoader n} (h : Promises source r k s) {i : ℕ}
    {read : LoaderRead} (hread : s.reads[i]? = some read) : ∃ k' s', k = k' + 1 ∧
      ({ s with reads := s.reads.eraseIdx i } : LoaderTask n).complete source read = some s' ∧
      Promises source r k' s' := by
  have hrunning : ∀ reads, s.Running → ({ s with reads := reads } : LoaderTask n).Running :=
    fun _ hrun => hrun.of_eq rfl rfl
  cases h with
  | ended hreads hcallbacks hstate hr =>
      rw [hreads] at hread
      exact absurd hread (by simp)
  | superblock hrun hresources copy blob hblob hreads hareas hk hr =>
      obtain ⟨rfl, rfl⟩ := of_getElem?_singleton (hreads ▸ hread)
      have hnone : s.reads.eraseIdx 0 = [] := by rw [hreads, List.eraseIdx_cons_zero]
      have hpos : 1 ≤ source.readsFrom blob copy :=
        (Nat.succ_le_succ (Nat.zero_le _)).trans (readsFrom_eq blob copy)
      obtain ⟨k, rfl⟩ : ∃ k', k = k' + 1 := ⟨k - 1, by omega⟩
      refine ⟨k, _, rfl, complete_superblock _ copy hblob, ?_⟩
      rw [hr]
      exact onSuperblockRead_promises (hrunning _ hrun) hnone hresources hblob hareas hk
  | chunk hrun hresources area blob j hblob htotal hoffset hi hreads hbuffer hsize hk hr =>
      obtain ⟨rfl, rfl⟩ := of_getElem?_singleton (hreads ▸ hread)
      obtain ⟨k, rfl⟩ : ∃ k', k = k' + 1 := ⟨k - 1, by omega⟩
      obtain ⟨hbytes, -⟩ := areas_blob_eq_some hblob
      have hnone : s.reads.eraseIdx 0 = [] := by rw [hreads, List.eraseIdx_cons_zero]
      refine ⟨k, _, rfl, complete_chunk _ _ hbytes, ?_⟩
      rw [hr]
      exact onMemIndexChunkLoaded_promises (hrunning _ hrun) hnone hresources hblob htotal hoffset
        hi hbuffer hsize hk
  | segments hrun hresources blob loaded pending hblob hperm hpending hreads hcount herror hmemory
      hk hr =>
      have hlen := List.length_pos_of_ne_nil hpending
      obtain ⟨k, rfl⟩ : ∃ k', k = k' + 1 := ⟨k - 1, by omega⟩
      rw [hreads, List.getElem?_map] at hread
      obtain ⟨seg, hseg, rfl⟩ := Option.map_eq_some_iff.mp hread
      obtain ⟨hi, hget⟩ := List.getElem?_eq_some_iff.mp hseg
      have hperm' : (seg :: pending.eraseIdx i).Perm pending := by
        rw [← hget]
        exact List.getElem_cons_eraseIdx_perm hi
      have hcount' : s.pendingSegmentLoads = (pending.eraseIdx i).length + 1 := by
        rw [hcount, List.length_eraseIdx_of_lt hi]
        omega
      refine ⟨k, _, rfl, complete_segment _ seg hblob, ?_⟩
      rw [hr]
      have hreads' : s.reads.eraseIdx i = (pending.eraseIdx i).map .segment := by
        rw [hreads, List.eraseIdx_map]
      have hk' : (pending.eraseIdx i).length + 1 + source.fileReads s.superblock ≤ k + 1 := by
        rw [← hcount', hcount]
        exact hk
      exact onDirectSegmentLoaded_promises (hrunning (s.reads.eraseIdx i) hrun) hresources hblob
        ((hperm'.append_left loaded).trans hperm) hreads' hcount' herror hmemory hk'
  | scan hrun hresources range rest blob j hblob hranges hoffset hend hreads hbuffer hreadTo hk
      hr =>
      obtain ⟨rfl, rfl⟩ := of_getElem?_singleton (hreads ▸ hread)
      have hj := ScanRange.lt_chunks_iff.mpr hend
      have hnone : s.reads.eraseIdx 0 = [] := by rw [hreads, List.eraseIdx_cons_zero]
      obtain ⟨k, rfl⟩ : ∃ k', k = k' + 1 := ⟨k - 1, by omega⟩
      refine ⟨k, _, rfl, complete_scan _ _ _ hranges hblob, ?_⟩
      rw [hr]
      exact onScanChunkRead_promises (hrunning _ hrun) hnone hresources hblob hoffset hend hbuffer
        hreadTo hk

/-- A call of `start_recovery` during a recovery, or behind it, is refused. -/
theorem Promises.rejected {r : KvError × IndexLoader n} (h : Promises source r k s) (count : ℕ) :
    Promises source r k { s with rejected := count } := by
  have hrunning : s.Running → ({ s with rejected := count } : LoaderTask n).Running :=
    fun hrun => hrun.of_eq rfl rfl
  cases h with
  | ended hreads hcallbacks hstate hr => exact .ended hreads hcallbacks hstate hr
  | superblock hrun hresources copy blob hblob hreads hareas hk hr =>
      exact .superblock (hrunning hrun) hresources copy blob hblob hreads hareas hk hr
  | chunk hrun hresources area blob i hblob htotal hoffset hi hreads hbuffer hsize hk hr =>
      exact .chunk (hrunning hrun) hresources area blob i hblob htotal hoffset hi hreads hbuffer
        hsize hk hr
  | segments hrun hresources blob loaded pending hblob hperm hpending hreads hcount herror hmemory
      hk hr =>
      exact .segments (hrunning hrun) hresources blob loaded pending hblob hperm hpending hreads
        hcount herror hmemory hk hr
  | scan hrun hresources range rest blob j hblob hranges hoffset hend hreads hbuffer hread hk hr =>
      exact .scan (hrunning hrun) hresources range rest blob j hblob hranges hoffset hend hreads
        hbuffer hread hk hr

/-- Either the recovery is over, with what was promised, or a read is under way. -/
theorem Promises.ended_or_running {r : KvError × IndexLoader n} (h : Promises source r k s) :
    (s.callbacks = [r.1] ∧ s.state = (if r.1 = .kSuccess then .kDone else .kError) ∧
      s.loader = r.2) ∨ s.Running ∧ ∃ read, s.reads[0]? = some read := by
  cases h with
  | ended hreads hcallbacks hstate hr => exact .inl ⟨hcallbacks, hstate, hr.symm⟩
  | superblock hrun hresources copy blob hblob hreads hareas hk hr =>
      exact .inr ⟨hrun, _, by rw [hreads]; rfl⟩
  | chunk hrun hresources area blob i hblob htotal hoffset hi hreads hbuffer hsize hk hr =>
      exact .inr ⟨hrun, _, by rw [hreads]; rfl⟩
  | segments hrun hresources blob loaded pending hblob hperm hpending hreads hcount herror hmemory
      hk hr =>
      obtain ⟨seg, rest, rfl⟩ := List.exists_cons_of_ne_nil hpending
      exact .inr ⟨hrun, .segment seg, by rw [hreads]; rfl⟩
  | scan hrun hresources range rest blob j hblob hranges hoffset hend hreads hbuffer hread hk hr =>
      exact .inr ⟨hrun, _, by rw [hreads]; rfl⟩

/-- A state in which a recovery ends. -/
theorem isComplete_of_state {p : Prop} [Decidable p]
    (h : s.state = if p then .kDone else .kError) : s.isComplete = true := by
  rw [isComplete, h]
  split_ifs <;> rfl

theorem started_of_isComplete (h : s.isComplete = true) : s.state ≠ .kInit := by
  intro hinit
  rw [isComplete, hinit] at h
  exact absurd h (by decide)

theorem Promises.started {r : KvError × IndexLoader n} (h : Promises source r k s) :
    s.state ≠ .kInit := by
  rcases h.ended_or_running with ⟨-, hstate, -⟩ | ⟨hrun, -⟩
  · rw [hstate]
    split_ifs <;> simp
  · exact hrun.started

end Methods

/-! ### Whole runs -/

section Runs

variable {superblock : List UInt8} {m : MemIndex n} {s t : LoaderTask n} {k : ℕ}
  {events : List LoaderEvent}

theorem recovered_of_blob {blob : ByteMemory} (hresources : source.hasSpdkResources = true)
    (hblob : source.superblockBlob = some blob) (superblock : List UInt8)
    (loader : IndexLoader n) : source.recovered superblock loader =
      if source.noBuffer (.superblock .primary) then (.kInternalError, loader)
      else source.fromSuperblock (source.superblockFrom blob .primary) loader := by
  unfold RecoverySource.recovered
  rw [hresources, hblob]

theorem recovered_of_given
    (h : ¬ (source.hasSpdkResources && source.superblockBlob.isSome) = true)
    (superblock : List UInt8) (loader : IndexLoader n) : source.recovered superblock loader =
      source.fromSuperblock (if validateSuperblock superblock then some superblock else none)
        loader := by
  unfold RecoverySource.recovered
  cases hresources : source.hasSpdkResources with
  | false => rfl
  | true =>
      cases hblob : source.superblockBlob with
      | none => rfl
      | some blob => exact absurd (by rw [hresources, hblob]; rfl) h

theorem readsBehind_le_readBound (source : RecoverySource) (superblock : List UInt8) :
    source.readsBehind (some superblock) ≤ source.readBound superblock := by
  unfold RecoverySource.readBound
  cases source.superblockBlob with
  | none => exact le_rfl
  | some blob => exact le_max_right _ _

theorem readsFrom_le_readBound {blob : ByteMemory} (hblob : source.superblockBlob = some blob)
    (superblock : List UInt8) :
    source.readsFrom blob .primary ≤ source.readBound superblock := by
  unfold RecoverySource.readBound
  rw [hblob]
  exact le_max_left _ _

/-- The superblock is looked for. -/
theorem loadSuperblockPrimary_promises (hrun : s.Running) (hreads : s.reads = [])
    (hareas : s.areas = IndexAreas.unloaded) :
    Promises source (source.recovered s.superblock s.loader) (source.readBound s.superblock)
      (s.loadSuperblockPrimary source) := by
  rw [loadSuperblockPrimary]
  by_cases hboth : (source.hasSpdkResources && source.superblockBlob.isSome) = true
  · obtain ⟨hresources, hsome⟩ := Bool.and_eq_true_iff.mp hboth
    obtain ⟨blob, hblob⟩ := Option.isSome_iff_exists.mp hsome
    rw [if_pos hboth, recovered_of_blob hresources hblob]
    split_ifs with hbuffer
    · exact fail_promises hrun hreads (by simp)
    · exact .superblock (hrun.of_eq rfl rfl) hresources .primary blob hblob rfl hareas
        (readsFrom_le_readBound hblob _) rfl
  · rw [if_neg hboth, recovered_of_given hboth]
    by_cases hvalid : validateSuperblock s.superblock = true
    · rw [if_pos hvalid, if_pos hvalid]
      exact loadAreas_promises hrun hreads hareas (readsBehind_le_readBound _ _)
    · rw [if_neg hvalid, if_neg hvalid]
      exact fail_promises (s := { s with state := .kLoadingSuperblockBackup })
        (hrun.goesTo rfl (by simp)) hreads (by simp)

/-- The first call of `start_recovery`. -/
theorem startRecovery_promises (source : RecoverySource) (superblock : List UInt8)
    (m : MemIndex n) : Promises source (source.recovered superblock ⟨m, 0⟩)
      (source.readBound superblock) ((constructed superblock m).startRecovery source) := by
  have hinit : (constructed superblock m).state = .kInit := rfl
  rw [startRecovery, if_pos hinit]
  exact loadSuperblockPrimary_promises (s := { constructed superblock m with
    state := .kLoadingSuperblockPrimary }) ⟨rfl, by simp, by simp, by simp⟩ rfl rfl

/-- What an event does to a loader that has been started. -/
theorem Promises.step {r : KvError × IndexLoader n} (h : Promises source r k s)
    {event : LoaderEvent} (hstep : (loaderMachine n source).step s event = some t) :
    ∃ k', k' + (if event = .startRecovery then 0 else 1) = k ∧ Promises source r k' t := by
  cases event with
  | startRecovery =>
      obtain rfl := Option.some.inj hstep
      rw [startRecovery, if_neg h.started]
      exact ⟨k, rfl, h.rejected _⟩
  | complete i =>
      obtain ⟨read, hread, hcomplete⟩ := Option.bind_eq_some_iff.mp hstep
      obtain ⟨k', s', rfl, hs', hpromises⟩ := h.complete hread
      obtain rfl := Option.some.inj (hcomplete.symm.trans hs')
      exact ⟨k', rfl, hpromises⟩

/-- The completions of a run. -/
def completions (events : List LoaderEvent) : ℕ := events.countP fun event =>
  event ≠ .startRecovery

/-- **Every run of a loader that has been started** keeps what is promised. -/
theorem Promises.run {r : KvError × IndexLoader n} (h : Promises source r k s)
    (hrun : (loaderMachine n source).run s events = some t) :
    ∃ k', k' + completions events = k ∧ Promises source r k' t := by
  induction events generalizing s k with
  | nil =>
      obtain rfl := Option.some.inj hrun
      exact ⟨k, rfl, h⟩
  | cons event events ih =>
      obtain ⟨s', hstep, hrest⟩ := (Machine.run_cons_eq_some_iff _).mp hrun
      obtain ⟨k', rfl, hpromises⟩ := h.step hstep
      obtain ⟨k'', rfl, hlast⟩ := ih hpromises hrest
      refine ⟨k'', ?_, hlast⟩
      rw [completions, completions, List.countP_cons]
      cases event <;> simp [Nat.add_assoc]

/-- Completing the first read again and again ends the recovery. -/
theorem Promises.exists_run {r : KvError × IndexLoader n} (h : Promises source r k s) :
    ∃ events t, (loaderMachine n source).run s events = some t ∧ t.isComplete = true := by
  induction k generalizing s with
  | zero =>
      rcases h.ended_or_running with ⟨-, hstate, -⟩ | ⟨-, read, hread⟩
      · exact ⟨[], s, rfl, isComplete_of_state hstate⟩
      · obtain ⟨k', -, hk, -⟩ := h.complete hread
        exact absurd hk.symm (Nat.succ_ne_zero k')
  | succ k ih =>
      rcases h.ended_or_running with ⟨-, hstate, -⟩ | ⟨-, read, hread⟩
      · exact ⟨[], s, rfl, isComplete_of_state hstate⟩
      · obtain ⟨k', s', hk, hs', hpromises⟩ := h.complete hread
        obtain rfl := Nat.succ.inj hk
        obtain ⟨events, t, hrun, hcomplete⟩ := ih hpromises
        exact ⟨.complete 0 :: events, t, (Machine.run_cons_eq_some_iff _).mpr
          ⟨s', Option.bind_eq_some_iff.mpr ⟨read, hread, hs'⟩, hrun⟩, hcomplete⟩

/-- **Every recovery can be brought to its end**. -/
theorem exists_run_complete (source : RecoverySource) (superblock : List UInt8)
    (m : MemIndex n) : ∃ events t, (loaderMachine n source).run (constructed superblock m)
      (.startRecovery :: events) = some t ∧ t.isComplete = true := by
  obtain ⟨events, t, hrun, hcomplete⟩ := (startRecovery_promises source superblock m).exists_run
  exact ⟨events, t, (Machine.run_cons_eq_some_iff _).mpr ⟨_, rfl, hrun⟩, hcomplete⟩

/-- A run of a constructed loader: nothing, or a call of `start_recovery` and the rest. -/
theorem run_constructed
    (hrun : (loaderMachine n source).run (constructed superblock m) events = some t)
    (hstarted : t.state ≠ .kInit) :
    ∃ k, k + completions events = source.readBound superblock ∧
      Promises source (source.recovered superblock ⟨m, 0⟩) k t := by
  cases events with
  | nil =>
      obtain rfl := Option.some.inj hrun
      exact absurd rfl hstarted
  | cons event events =>
      obtain ⟨s', hstep, hrest⟩ := (Machine.run_cons_eq_some_iff _).mp hrun
      cases event with
      | startRecovery =>
          obtain rfl := Option.some.inj hstep
          obtain ⟨k, hk, hpromises⟩ :=
            (startRecovery_promises source superblock m).run hrest
          exact ⟨k, by simpa [completions] using hk, hpromises⟩
      | complete i =>
          have hnone : (loaderMachine n source).step (constructed superblock m) (.complete i) =
              none := rfl
          rw [hnone] at hstep
          cases hstep

/-- **A recovery yields its result once**: whatever the order in which its reads complete, and
whichever of them fail, a loader that has been started either has called back once, with the
status and the index that `recovered` says, or has called back nothing and waits for a read that
can complete. No more than `readBound` reads complete. -/
theorem recovers_once
    (hrun : (loaderMachine n source).run (constructed superblock m) events = some t)
    (hstarted : t.state ≠ .kInit) :
    completions events ≤ source.readBound superblock ∧
      (t.isComplete = true → t.callbacks = [(source.recovered superblock ⟨m, 0⟩).1] ∧
        t.loader = (source.recovered superblock ⟨m, 0⟩).2) ∧
      (t.isComplete = false → t.callbacks = [] ∧
        ∃ t', (loaderMachine n source).step t (.complete 0) = some t') := by
  obtain ⟨k, hk, hpromises⟩ := run_constructed hrun hstarted
  refine ⟨by omega, ?_⟩
  rcases hpromises.ended_or_running with ⟨hcallbacks, hstate, hloader⟩ | ⟨hrunning, read, hread⟩
  · exact ⟨fun _ => ⟨hcallbacks, hloader⟩, fun hno =>
      absurd (isComplete_of_state hstate) (by rw [hno]; exact Bool.false_ne_true)⟩
  · refine ⟨fun hyes => ?_, fun _ => ⟨hrunning.callbacks, ?_⟩⟩
    · rw [isComplete, Bool.or_eq_true, beq_iff_eq, beq_iff_eq] at hyes
      exact absurd hyes (not_or.mpr ⟨hrunning.notDone, hrunning.noError⟩)
    · obtain ⟨k', t', -, ht', -⟩ := hpromises.complete hread
      exact ⟨t', Option.bind_eq_some_iff.mpr ⟨read, hread, ht'⟩⟩

/-- A blobstore with one data file, and none of the other blobs. -/
def oneDataFile : RecoverySource where
  hasSpdkResources := true
  superblockBlob := none
  memIndexBlob := fun _ => none
  ioUnit := kPageSize
  dataBlobs := [⟨0, 0, 0⟩]
  images := ⟨fun _ => 1, fun _ => List.replicate kPageSize 0⟩
  noBuffer := fun _ => false
  readFails := fun _ => false

/-- A recovery with a superblock that was given succeeds. -/
theorem recovers_once_one_file : ∃ events t, (loaderMachine 3 oneDataFile).run
      (constructed blankSuperblock.image (MemIndex.fresh 3)) events = some t ∧
    t.callbacks = [.kSuccess] := by
  obtain ⟨events, t, hrun, hcomplete⟩ :=
    exists_run_complete oneDataFile blankSuperblock.image (MemIndex.fresh 3)
  have hvalid : validateSuperblock blankSuperblock.image = true := by
    rw [validateSuperblock, blankSuperblock.readSuperblock_image, Option.isSome_some]
  have hstatus : (oneDataFile.recovered blankSuperblock.image
      (⟨MemIndex.fresh 3, 0⟩ : IndexLoader 3)).1 = .kSuccess := by
    have hgiven : ¬ (oneDataFile.hasSpdkResources && oneDataFile.superblockBlob.isSome) = true :=
      Bool.false_ne_true
    rw [recovered_of_given hgiven, if_pos hvalid, RecoverySource.fromSuperblock]
  have honce := recovers_once hrun (started_of_isComplete hcomplete)
  exact ⟨_, t, hrun, by rw [(honce.2.1 hcomplete).1, hstatus]⟩

end Runs

/-! ### The recovery as one function -/

section OneFunction

variable {superblock : List UInt8} {m : MemIndex n} {t : LoaderTask n}
  {events : List LoaderEvent}

/-- Every chunk of a data file is read. -/
def ScansRead (source : RecoverySource) : Prop :=
  ∀ idx offset, source.scanFails idx offset = false

theorem readable_of_scansRead (h : ScansRead source) (idx : ℕ) (range : ScanRange) :
    source.readable idx range = range := by
  have hnone : source.firstFailing idx range = none :=
    List.find?_eq_none.mpr fun k _ => by simp [h idx (range.chunkOffset k)]
  rw [RecoverySource.readable, hnone, Option.elim_none]

theorem readableRanges_of_scansRead (h : ScansRead source) (idx : ℕ) (ranges : List ScanRange) :
    source.readableRanges idx ranges = ranges := by
  induction ranges generalizing idx with
  | nil => rfl
  | cons range rest ih =>
      rw [RecoverySource.readableRanges_cons, readable_of_scansRead h, ih]

/-- What the reads of the areas leave fills the index as `IndexAreas.load` says. -/
theorem fillFrom_loaded (areas : IndexAreas) (m : MemIndex n) :
    areas.fillFrom areas.loaded m = areas.load m := rfl

/-- With a superblock, what is yielded is `recoverIndex`. -/
theorem fromSuperblock_eq (hresources : source.hasSpdkResources = true)
    (hscans : ScansRead source) (sb : List UInt8) (m : MemIndex n) :
    source.fromSuperblock (some sb) ⟨m, 0⟩ = (.kSuccess, recoverIndex (source.areas sb)
      (superblockCheckpoint sb) source.images source.dataBlobs m) := by
  have hareas : source.loadedArea sb .b (source.loadedArea sb .a IndexAreas.unloaded) =
      (source.areas sb).loaded := by
    rw [RecoverySource.loadedArea, RecoverySource.loadedArea, if_pos hresources,
      if_pos hresources]
    rfl
  rw [RecoverySource.fromSuperblock, RecoverySource.afterArea, RecoverySource.afterAreas, hareas,
    if_pos hresources, fillFrom_loaded, RecoverySource.rebuilt, if_pos hresources,
    RecoverySource.scanned, readableRanges_of_scansRead hscans]
  rfl

/-- **A recovery that completes yields `recoverIndex`**, in whatever order its reads completed,
and whichever reads of the index areas failed, when a copy of the superblock and the data files
are read. -/
theorem recovers_index {blob : ByteMemory} {sb : List UInt8}
    (hrun : (loaderMachine n source).run (constructed superblock m) events = some t)
    (hcomplete : t.isComplete = true) (hresources : source.hasSpdkResources = true)
    (hblob : source.superblockBlob = some blob)
    (hbuffer : source.noBuffer (.superblock .primary) = false)
    (hsb : source.superblockFrom blob .primary = some sb) (hscans : ScansRead source) :
    t.callbacks = [.kSuccess] ∧ t.loader = recoverIndex (source.areas sb)
      (superblockCheckpoint sb) source.images source.dataBlobs m := by
  have hrecovered : source.recovered superblock ⟨m, 0⟩ = (.kSuccess, recoverIndex
      (source.areas sb) (superblockCheckpoint sb) source.images source.dataBlobs m) := by
    rw [recovered_of_blob hresources hblob, hbuffer, if_neg Bool.false_ne_true, hsb,
      fromSuperblock_eq hresources hscans]
  obtain ⟨k, -, hpromises⟩ := run_constructed hrun (started_of_isComplete hcomplete)
  rw [hrecovered] at hpromises
  rcases hpromises.ended_or_running with ⟨hcallbacks, -, hloader⟩ | ⟨hrunning, -⟩
  · exact ⟨hcallbacks, hloader⟩
  · rw [isComplete, Bool.or_eq_true, beq_iff_eq, beq_iff_eq] at hcomplete
    exact absurd hcomplete (not_or.mpr ⟨hrunning.notDone, hrunning.noError⟩)

/-- A blobstore with a superblock blob, an index area that is blank, and one data file. -/
def blankArea : RecoverySource :=
  { oneDataFile with
    superblockBlob := some (ByteMemory.zero.write 0 blankSuperblock.image)
    memIndexBlob := fun
      | .a => some ByteMemory.zero
      | .b => none }

theorem length_image (sb : Superblock) :
    sb.image.length = alignUp sizeofSuperblock kPageSize := by
  have hle : sizeofSuperblock ≤ alignUp sizeofSuperblock kPageSize := by decide
  have hpos : 4 ≤ sizeofSuperblock := by decide
  rw [Superblock.image, List.length_append, List.length_append, sb.length_data, length_leBytes,
    List.length_replicate]
  omega

/-- It recovers what its data file says. -/
theorem recovers_index_blank_area : ∃ events t, (loaderMachine 3 blankArea).run
      (constructed [] (MemIndex.fresh 3)) events = some t ∧ t.callbacks = [.kSuccess] := by
  obtain ⟨events, t, hrun, hcomplete⟩ := exists_run_complete blankArea [] (MemIndex.fresh 3)
  have hread : RecoverySource.superblockAt (ByteMemory.zero.write 0 blankSuperblock.image)
      .primary = blankSuperblock.image := by
    have h := ByteMemory.zero.read_write 0 blankSuperblock.image
    rwa [length_image] at h
  have hsb : blankArea.superblockFrom (ByteMemory.zero.write 0 blankSuperblock.image) .primary =
      some (blankSuperblock.image.take sizeofSuperblock) := by
    have hok : blankArea.readFails (.superblock .primary) = false := rfl
    rw [RecoverySource.superblockFrom, RecoverySource.readCopy, hread, hok,
      blankSuperblock.readSuperblock_image]
    rfl
  exact ⟨_, t, hrun, (recovers_index hrun hcomplete rfl rfl rfl hsb fun _ _ => rfl).1⟩

end OneFunction

end LoaderTask

end SpdkKv
