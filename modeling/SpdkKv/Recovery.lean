import SpdkKv.ChunkScan
import SpdkKv.FileSpace
import SpdkKv.IndexAreas

/-!
# Rebuilding the Index from the Data Files

What `IndexLoader` does when the index areas have been looked at: it computes the ranges of
the data files to scan from the checkpoint position, scans them in the order of the file ids,
and sets the sequence of the index. A rebuild without a valid area and one that starts from a
loaded area run the same code.

## Main results

* `mem_buildScanRanges_iff`: the ranges, one for each file with pages to scan.
* `scanFiles_eq`: **the scan of all ranges applies the records it meets**.
* `globalSequence_recoverMemIndex`: the sequence that the engine goes on with.
-/

namespace SpdkKv

/-- First page behind the header of a data file. -/
def firstRecordPage : ℕ := sizeofDataFileHeader / kPageSize

/-- What the loader knows of a data file; the blob is a handle. -/
structure DataBlobInfo where
  fileId : ℕ
  blob : ℕ
  size : ℕ
  deriving DecidableEq, Repr

/-- The fields of the superblock that the rebuild reads. -/
structure CheckpointPosition where
  checkpointFileId : ℕ
  checkpointPageIndex : ℕ
  checkpointGlobalSeq : UInt32
  deriving DecidableEq, Repr

namespace CheckpointPosition

variable (sb : CheckpointPosition)

/-- The page at which the scan of a file starts; files before the checkpoint are skipped. -/
def startPage (fileId : ℕ) : Option ℕ :=
  if fileId = sb.checkpointFileId then some sb.checkpointPageIndex
  else if sb.checkpointFileId < fileId then some firstRecordPage
  else none

/-- The page at which the scan of a file ends: the end of the blob, or the size of the file if
that is known and smaller. -/
def endPage (physicalEnd : ℕ → ℕ) (info : DataBlobInfo) : ℕ :=
  let sizePages := info.size / kPageSize
  if 0 < sizePages ∧ sizePages < physicalEnd info.blob then sizePages
  else physicalEnd info.blob

/-- The turn of `build_scan_ranges_from_blobs` for a file. -/
def scanRange (physicalEnd : ℕ → ℕ) (info : DataBlobInfo) : Option ScanRange :=
  (sb.startPage info.fileId).bind fun start =>
    if start < endPage physicalEnd info then
      some ⟨info.fileId, start, endPage physicalEnd info⟩
    else none

/-- `build_scan_ranges_from_blobs`, for a blobstore in which blobs have the given numbers of
pages. -/
def buildScanRangesFromBlobs (physicalEnd : ℕ → ℕ) (dataBlobs : List DataBlobInfo) :
    List ScanRange :=
  (dataBlobs.filterMap (sb.scanRange physicalEnd)).mergeSort fun a b => a.fileId ≤ b.fileId

/-- **The ranges**, one for each file with pages to scan. -/
theorem mem_buildScanRanges_iff {physicalEnd : ℕ → ℕ} {dataBlobs : List DataBlobInfo}
    {range : ScanRange} : range ∈ sb.buildScanRangesFromBlobs physicalEnd dataBlobs ↔
      ∃ info ∈ dataBlobs, sb.scanRange physicalEnd info = some range := by
  rw [buildScanRangesFromBlobs, List.mem_mergeSort, List.mem_filterMap]

theorem scanRange_eq_some_iff {physicalEnd : ℕ → ℕ} {info : DataBlobInfo} {range : ScanRange} :
    sb.scanRange physicalEnd info = some range ↔
      ∃ start, sb.startPage info.fileId = some start ∧ start < endPage physicalEnd info ∧
        range = ⟨info.fileId, start, endPage physicalEnd info⟩ := by
  rw [scanRange, Option.bind_eq_some_iff]
  refine exists_congr fun start => and_congr_right fun _ => ?_
  rw [Option.ite_none_right_eq_some, Option.some.injEq, eq_comm (b := range)]

end CheckpointPosition

/-! ### The scan -/

/-- The pages and the contents of the blobs. -/
structure BlobImages where
  physicalEnd : ℕ → ℕ
  contents : ℕ → List UInt8

/-- The blob of the first file with an id. -/
def blobOf (dataBlobs : List DataBlobInfo) (fileId : ℕ) : Option ℕ :=
  (dataBlobs.find? fun info => info.fileId == fileId).map DataBlobInfo.blob

/-- The records that the scan of a range meets. -/
def rangeRecords (images : BlobImages) (dataBlobs : List DataBlobInfo) (range : ScanRange) :
    List ParsedRecord :=
  match blobOf dataBlobs range.fileId with
  | none => []
  | some blob => scanRecords (range.bytes (images.contents blob))

/-- The range that holds a log behind pages that are not scanned. -/
theorem ScanRange.bytes_image {fileId start pages : ℕ} {front : List UInt8} {log : List LogItem}
    (hfront : front.length = start * kPageSize)
    (hlog : (image log).length = pages * kPageSize) :
    (⟨fileId, start, start + pages⟩ : ScanRange).bytes (front ++ image log) = image log := by
  rw [ScanRange.bytes, slice, ← hfront, List.drop_left, Nat.add_sub_cancel_left, ← hlog,
    List.take_length]

/-- A short log is scanned as it was appended. -/
theorem rangeRecords_image {images : BlobImages} {dataBlobs : List DataBlobInfo}
    {fileId blob start pages : ℕ} {front : List UInt8} {log : List LogItem}
    (hblob : blobOf dataBlobs fileId = some blob)
    (hcontents : images.contents blob = front ++ image log)
    (hfront : front.length = start * kPageSize)
    (hlog : (image log).length = pages * kPageSize) (hwf : WfLog log)
    (hshort : (image log).length ≤ kScanChunkSize) :
    rangeRecords images dataBlobs ⟨fileId, start, start + pages⟩ = appended log 0 := by
  simp only [rangeRecords, hblob]
  rw [hcontents, ScanRange.bytes_image hfront hlog, scanRecords_of_short hshort,
    recordsFrom_image hwf]

namespace IndexLoader

variable {n : ℕ}

/-- `scan_next_file_blob` over all ranges, with reads that succeed. -/
def scanFiles (images : BlobImages) (dataBlobs : List DataBlobInfo) (ranges : List ScanRange)
    (self : IndexLoader n) : IndexLoader n :=
  ranges.foldl (fun self range =>
    match blobOf dataBlobs range.fileId with
    | none => self
    | some blob => self.scanBlob (images.contents blob) range) self

/-- `finalize_recovery`. -/
def finalizeRecovery (sb : CheckpointPosition) (self : IndexLoader n) : IndexLoader n :=
  { self with memIndex := { self.memIndex with
      globalSequence := max sb.checkpointGlobalSeq self.recoveredMaxSequence + 1 } }

/-- `start_incremental_rebuild`, with a blobstore. -/
def startIncrementalRebuild (sb : CheckpointPosition) (images : BlobImages)
    (dataBlobs : List DataBlobInfo) (self : IndexLoader n) : IndexLoader n :=
  let self := { self with recoveredMaxSequence := sb.checkpointGlobalSeq }
  let ranges := sb.buildScanRangesFromBlobs images.physicalEnd dataBlobs
  (self.scanFiles images dataBlobs ranges).finalizeRecovery sb

/-- The effect of the records of a range. -/
theorem scanFiles_eq (images : BlobImages) (dataBlobs : List DataBlobInfo)
    (ranges : List ScanRange) (self : IndexLoader n) :
    self.scanFiles images dataBlobs ranges = ranges.foldl (fun self range =>
      (rangeRecords images dataBlobs range).foldl
        (applyRecord range.fileId (range.startPage * kPageSize)) self) self := by
  rw [scanFiles]
  congr 1
  funext self range
  rw [rangeRecords]
  cases blobOf dataBlobs range.fileId with
  | none => rfl
  | some blob => exact scanBlob_eq _ range self

end IndexLoader

/-- The index that `IndexLoader` yields: from the index areas, then from the data files. -/
def recoverIndex {n : ℕ} (areas : IndexAreas) (sb : CheckpointPosition) (images : BlobImages)
    (dataBlobs : List DataBlobInfo) (m : MemIndex n) : IndexLoader n :=
  IndexLoader.startIncrementalRebuild sb images dataBlobs ⟨areas.load m, 0⟩

/-- `Engine::recover_mem_index` after the loader, which sets the sequence once more. -/
def recoverMemIndex {n : ℕ} (areas : IndexAreas) (sb : CheckpointPosition) (images : BlobImages)
    (dataBlobs : List DataBlobInfo) (m : MemIndex n) : MemIndex n :=
  let loader := recoverIndex areas sb images dataBlobs m
  { loader.memIndex with
    globalSequence := max sb.checkpointGlobalSeq loader.recoveredMaxSequence + 1 }

/-- No index areas, as `Engine::recover_mem_index` passes none. -/
def noAreas : IndexAreas := ⟨fun _ => none, 0, 4096, fun _ => false⟩

/-- None of them is valid. -/
theorem versions_noAreas : noAreas.loaded.versions noAreas.selected = 0 := by
  cases noAreas.selected <;> rfl

theorem load_noAreas {n : ℕ} (m : MemIndex n) : noAreas.load m = m := by
  rw [IndexAreas.load, if_pos versions_noAreas]

/-! ### The sequence -/

/-- The sequences of the records that the scan meets, in order. -/
def scannedSequences (sb : CheckpointPosition) (images : BlobImages)
    (dataBlobs : List DataBlobInfo) : List UInt32 :=
  (sb.buildScanRangesFromBlobs images.physicalEnd dataBlobs).flatMap fun range =>
    (rangeRecords images dataBlobs range).map ParsedRecord.sequence

/-- The largest of a sequence and those of a list, as unsigned numbers. -/
def largestSequence (start : UInt32) (sequences : List UInt32) : UInt32 :=
  sequences.foldl (fun a s => if s > a then s else a) start

theorem le_largestSequence (start : UInt32) (sequences : List UInt32) :
    start ≤ largestSequence start sequences := by
  induction sequences generalizing start with
  | nil => exact UInt32.le_refl _
  | cons s sequences ih =>
      rw [largestSequence, List.foldl_cons]
      split_ifs with h
      · exact UInt32.le_trans (UInt32.le_of_lt h) (ih s)
      · exact ih start

theorem largestSequence_mem (start : UInt32) (sequences : List UInt32) :
    largestSequence start sequences ∈ start :: sequences := by
  induction sequences generalizing start with
  | nil => exact List.mem_singleton.mpr rfl
  | cons s sequences ih =>
      rw [largestSequence, List.foldl_cons]
      split_ifs
      · exact List.mem_cons_of_mem _ (ih s)
      · rcases List.mem_cons.mp (ih start) with h | h
        · exact List.mem_cons.mpr (Or.inl h)
        · exact List.mem_cons_of_mem _ (List.mem_cons_of_mem _ h)

/-- No sequence of the list is larger. -/
theorem mem_le_largestSequence {start : UInt32} {sequences : List UInt32} {s : UInt32}
    (h : s ∈ sequences) : s ≤ largestSequence start sequences := by
  induction sequences generalizing start with
  | nil => cases h
  | cons t sequences ih =>
      rw [largestSequence, List.foldl_cons]
      rcases List.mem_cons.mp h with rfl | h
      · refine UInt32.le_trans ?_ (le_largestSequence _ sequences)
        split_ifs with hlt
        · exact UInt32.le_refl _
        · exact UInt32.not_lt.mp hlt
      · exact ih h

namespace IndexLoader

variable {n : ℕ}

theorem recoveredMaxSequence_foldl (fileId baseOffset : ℕ) (records : List ParsedRecord)
    (self : IndexLoader n) :
    (records.foldl (applyRecord fileId baseOffset) self).recoveredMaxSequence =
      largestSequence self.recoveredMaxSequence (records.map ParsedRecord.sequence) := by
  induction records generalizing self with
  | nil => rfl
  | cons r records ih => exact ih (applyRecord fileId baseOffset self r)

theorem largestSequence_append (start : UInt32) (l l' : List UInt32) :
    largestSequence start (l ++ l') = largestSequence (largestSequence start l) l' :=
  List.foldl_append

/-- The scan keeps the largest sequence it has met. -/
theorem recoveredMaxSequence_scanFiles (images : BlobImages) (dataBlobs : List DataBlobInfo)
    (ranges : List ScanRange) (self : IndexLoader n) :
    (self.scanFiles images dataBlobs ranges).recoveredMaxSequence =
      largestSequence self.recoveredMaxSequence (ranges.flatMap fun range =>
        (rangeRecords images dataBlobs range).map ParsedRecord.sequence) := by
  rw [scanFiles_eq]
  induction ranges generalizing self with
  | nil => rfl
  | cons range ranges ih =>
      rw [List.foldl_cons, ih, recoveredMaxSequence_foldl, List.flatMap_cons,
        largestSequence_append]

end IndexLoader

/-- **The sequence that the engine goes on with**: one more than the largest of the one in the
superblock and those of the scanned records. -/
theorem globalSequence_recoverMemIndex {n : ℕ} (areas : IndexAreas) (sb : CheckpointPosition)
    (images : BlobImages) (dataBlobs : List DataBlobInfo) (m : MemIndex n) :
    (recoverMemIndex areas sb images dataBlobs m).globalSequence =
      largestSequence sb.checkpointGlobalSeq (scannedSequences sb images dataBlobs) + 1 := by
  have hmax : (recoverIndex areas sb images dataBlobs m).recoveredMaxSequence =
      largestSequence sb.checkpointGlobalSeq (scannedSequences sb images dataBlobs) :=
    IndexLoader.recoveredMaxSequence_scanFiles _ _ _ _
  simp only [recoverMemIndex, hmax, max]
  rw [if_pos (le_largestSequence _ _)]

end SpdkKv
