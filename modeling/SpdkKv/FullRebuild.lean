import SpdkKv.Recovery
import SpdkKv.Replay

/-!
# The Rebuild without an Index Area

When no index area is valid the index has to come from the data files alone. The loader then
calls the incremental rebuild, which starts at the checkpoint position and leaves out the files
in front of it.

## Main results

* `memIndex_scanFiles`: the scan is a run of the index over the records of the files.
* `rebuilds_from_all_iff`: **the index is rebuilt from all records, whatever the files hold,
  exactly when** no file with a record page lies before the checkpoint position.
* `rebuild_skips_record`: a checkpoint position behind a record loses it.
-/

namespace SpdkKv

/-- The data files of an engine: their ids and their blobs are distinct. -/
structure DataFiles where
  infos : List DataBlobInfo
  nodup_id : (infos.map DataBlobInfo.fileId).Nodup
  nodup_blob : (infos.map DataBlobInfo.blob).Nodup

/-- The blob holds a data file of a number of pages: a header page and more. -/
structure IsDataFile (pages : ℕ) (bytes : List UInt8) : Prop where
  length : bytes.length = pages * kPageSize
  magic : 0 < pages → readU32 bytes 0 = kDataFileHeaderMagic

/-- The range of a file from its first record page to its end. -/
def fullRange (physicalEnd : ℕ → ℕ) (info : DataBlobInfo) : Option ScanRange :=
  if firstRecordPage < CheckpointPosition.endPage physicalEnd info then
    some ⟨info.fileId, firstRecordPage, CheckpointPosition.endPage physicalEnd info⟩
  else none

/-- The ranges of all files, in the order of their ids. -/
def fullScanRanges (physicalEnd : ℕ → ℕ) (dataBlobs : List DataBlobInfo) : List ScanRange :=
  (dataBlobs.filterMap (fullRange physicalEnd)).mergeSort fun a b => a.fileId ≤ b.fileId

/-- The index rebuilt from every record of every data file. -/
def rebuiltFromAll {n : ℕ} (images : BlobImages) (dataBlobs : List DataBlobInfo) : MemIndex n :=
  (IndexLoader.scanFiles images dataBlobs (fullScanRanges images.physicalEnd dataBlobs)
    ⟨MemIndex.fresh n, 0⟩).memIndex

/-- The recovery yields the live map of all records. -/
def RebuildsFromAll (n : ℕ) (areas : IndexAreas) (sb : CheckpointPosition) (images : BlobImages)
    (dataBlobs : List DataBlobInfo) : Prop :=
  ∀ key, (recoverMemIndex areas sb images dataBlobs (MemIndex.fresh n)).findEntry key =
    (rebuiltFromAll images dataBlobs : MemIndex n).findEntry key

/-- Every file with a record page is scanned from its first one, or from the header page if
it fits one chunk. -/
def ScansAllFiles (sb : CheckpointPosition) (physicalEnd : ℕ → ℕ)
    (dataBlobs : List DataBlobInfo) : Prop :=
  ∀ info ∈ dataBlobs, firstRecordPage < CheckpointPosition.endPage physicalEnd info →
    ∃ start, sb.startPage info.fileId = some start ∧ (start = firstRecordPage ∨
      start < firstRecordPage ∧
        CheckpointPosition.endPage physicalEnd info * kPageSize ≤ kScanChunkSize)

/-! ### The scan as a run of the index -/

/-- The calls to the index for a range. -/
def rangeOps (images : BlobImages) (dataBlobs : List DataBlobInfo) (range : ScanRange) :
    List IndexOp :=
  (rangeRecords images dataBlobs range).map
    (recordOp range.fileId (range.startPage * kPageSize))

/-- The calls to the index for a file, if it has a range. -/
def fileOps (images : BlobImages) (dataBlobs : List DataBlobInfo) : Option ScanRange → List IndexOp
  | none => []
  | some range => rangeOps images dataBlobs range

variable {n : ℕ} {images : BlobImages}

theorem memIndex_foldl_applyRecord (fileId baseOffset : ℕ) (records : List ParsedRecord)
    (self : IndexLoader n) :
    (records.foldl (IndexLoader.applyRecord fileId baseOffset) self).memIndex =
      (records.map (recordOp fileId baseOffset)).foldl MemIndex.applyOp self.memIndex := by
  induction records generalizing self with
  | nil => rfl
  | cons r records ih =>
      rw [List.foldl_cons, ih, IndexLoader.applyRecord_memIndex, List.map_cons, List.foldl_cons]

/-- **The scan is a run of the index** over the records of its ranges. -/
theorem memIndex_scanFiles (images : BlobImages) (dataBlobs : List DataBlobInfo)
    (ranges : List ScanRange) (self : IndexLoader n) :
    (self.scanFiles images dataBlobs ranges).memIndex =
      (ranges.flatMap (rangeOps images dataBlobs)).foldl MemIndex.applyOp self.memIndex := by
  rw [IndexLoader.scanFiles_eq]
  induction ranges generalizing self with
  | nil => rfl
  | cons range ranges ih =>
      rw [List.foldl_cons, ih, memIndex_foldl_applyRecord, List.flatMap_cons, List.foldl_append]
      rfl

/-- A list that was sorted by ids is in their order. -/
theorem pairwise_mergeSort_id {α : Type*} (id : α → ℕ) (l : List α) :
    (l.mergeSort fun a b => id a ≤ id b).Pairwise fun a b => id a ≤ id b := by
  refine (List.pairwise_mergeSort (fun a b c hab hbc => ?_) (fun a b => ?_) l).imp fun h =>
    of_decide_eq_true h
  · exact decide_eq_true ((of_decide_eq_true hab).trans (of_decide_eq_true hbc))
  · rw [Bool.or_eq_true, decide_eq_true_iff, decide_eq_true_iff]
    exact le_total _ _

/-- The ranges of distinct files are in the order of the files. -/
theorem mergeSort_filterMap {files : DataFiles} {R : DataBlobInfo → Option ScanRange}
    (hR : ∀ info range, R info = some range → range.fileId = info.fileId) :
    ((files.infos.filterMap R).mergeSort fun a b => a.fileId ≤ b.fileId) =
      (files.infos.mergeSort fun a b => a.fileId ≤ b.fileId).filterMap R := by
  have hright : ((files.infos.mergeSort fun a b => a.fileId ≤ b.fileId).filterMap R).Pairwise
      fun a b => a.fileId ≤ b.fileId := by
    rw [List.pairwise_filterMap]
    refine (pairwise_mergeSort_id DataBlobInfo.fileId _).imp fun {a b} h r hr s hs => ?_
    rw [hR a r hr, hR b s hs]
    exact h
  refine List.Perm.eq_of_pairwise ?_ (pairwise_mergeSort_id ScanRange.fileId _) hright
    ((List.mergeSort_perm _ _).trans ((List.mergeSort_perm _ _).symm.filterMap R))
  intro r s hr hs hrs hsr
  rw [List.mem_mergeSort, List.mem_filterMap] at hr
  rw [List.mem_filterMap] at hs
  obtain ⟨a, ha, har⟩ := hr
  obtain ⟨b, hb, hbs⟩ := hs
  rw [List.mem_mergeSort] at hb
  have hid : a.fileId = b.fileId := by
    rw [← hR a r har, ← hR b s hbs]
    exact le_antisymm hrs hsr
  obtain rfl := List.inj_on_of_nodup_map files.nodup_id ha hb hid
  exact Option.some.inj (har.symm.trans hbs)

/-- The calls for the ranges of distinct files are those for the files in order. -/
theorem flatMap_rangeOps {files : DataFiles} {R : DataBlobInfo → Option ScanRange}
    (hR : ∀ info range, R info = some range → range.fileId = info.fileId) :
    ((files.infos.filterMap R).mergeSort fun a b => a.fileId ≤ b.fileId).flatMap
        (rangeOps images files.infos) =
      (files.infos.mergeSort fun a b => a.fileId ≤ b.fileId).flatMap fun info =>
        fileOps images files.infos (R info) := by
  rw [mergeSort_filterMap hR]
  induction files.infos.mergeSort fun a b => a.fileId ≤ b.fileId with
  | nil => rfl
  | cons info l ih =>
      rw [List.filterMap_cons, List.flatMap_cons, ← ih]
      cases R info with
      | none => rfl
      | some range => rw [List.flatMap_cons]; rfl

theorem fileId_scanRange {sb : CheckpointPosition} {physicalEnd : ℕ → ℕ} (info : DataBlobInfo)
    (range : ScanRange) (h : sb.scanRange physicalEnd info = some range) :
    range.fileId = info.fileId := by
  obtain ⟨start, -, -, rfl⟩ := sb.scanRange_eq_some_iff.mp h
  rfl

theorem fileId_fullRange {physicalEnd : ℕ → ℕ} (info : DataBlobInfo) (range : ScanRange)
    (h : fullRange physicalEnd info = some range) : range.fileId = info.fileId := by
  obtain ⟨-, h⟩ := Option.ite_none_right_eq_some.mp h
  obtain rfl := Option.some.inj h
  rfl

/-- The calls of a recovery without an area. -/
def recoveryOps (sb : CheckpointPosition) (images : BlobImages) (files : DataFiles) :
    List IndexOp :=
  (files.infos.mergeSort fun a b => a.fileId ≤ b.fileId).flatMap fun info =>
    fileOps images files.infos (sb.scanRange images.physicalEnd info)

/-- The calls of a rebuild from all records. -/
def fullOps (images : BlobImages) (files : DataFiles) : List IndexOp :=
  (files.infos.mergeSort fun a b => a.fileId ≤ b.fileId).flatMap fun info =>
    fileOps images files.infos (fullRange images.physicalEnd info)

theorem rebuildsFromAll_iff {areas : IndexAreas} {sb : CheckpointPosition} {files : DataFiles}
    (hareas : areas.loaded.versions areas.selected = 0) :
    RebuildsFromAll n areas sb images files.infos ↔ ∀ key,
      ((recoveryOps sb images files).foldl MemIndex.applyOp (MemIndex.fresh n)).findEntry key =
        ((fullOps images files).foldl MemIndex.applyOp (MemIndex.fresh n)).findEntry key := by
  have hload : areas.load (MemIndex.fresh n) = MemIndex.fresh n := by
    rw [IndexAreas.load, if_pos hareas]
  have hcode : (recoverIndex areas sb images files.infos (MemIndex.fresh n)).memIndex =
      { (recoveryOps sb images files).foldl MemIndex.applyOp (MemIndex.fresh n) with
        globalSequence := (recoverIndex areas sb images files.infos
          (MemIndex.fresh n)).memIndex.globalSequence } := by
    have h := memIndex_scanFiles images files.infos
      (sb.buildScanRangesFromBlobs images.physicalEnd files.infos)
      ⟨MemIndex.fresh n, sb.checkpointGlobalSeq⟩
    rw [CheckpointPosition.buildScanRangesFromBlobs, flatMap_rangeOps fileId_scanRange] at h
    rw [recoverIndex, IndexLoader.startIncrementalRebuild, hload,
      IndexLoader.finalizeRecovery, CheckpointPosition.buildScanRangesFromBlobs, h]
    rfl
  have hall : (rebuiltFromAll images files.infos : MemIndex n) =
      (fullOps images files).foldl MemIndex.applyOp (MemIndex.fresh n) := by
    rw [rebuiltFromAll, memIndex_scanFiles, fullScanRanges, flatMap_rangeOps fileId_fullRange]
    rfl
  refine forall_congr' fun key => ?_
  rw [recoverMemIndex, MemIndex.findEntry_withGlobalSequence, hcode,
    MemIndex.findEntry_withGlobalSequence, hall]

/-! ### Bytes without records -/

theorem readU32_zeros (c offset : ℕ) : readU32 (List.replicate c 0) offset = 0 := by
  rw [readU32, fieldAt_eq_zero fun i _ => ?_]
  · rfl
  · rw [List.getD_eq_getElem?_getD, List.getElem?_replicate]
    split_ifs <;> rfl

/-- Zeros hold no record. -/
theorem recordsFrom_zeros (c offset : ℕ) : recordsFrom (List.replicate c 0) offset = [] := by
  induction offset using recordsFrom.induct (List.replicate c 0) with
  | case1 offset h => exact recordsFrom_of_stop h
  | case2 offset next h _ ih => rw [recordsFrom_of_skip h, ih]
  | case3 offset r h _ _ =>
      simp only [parseAt, readHeader, readU32_zeros] at h
      split_ifs at h with _ hmagic
      exact absurd (show (0 : UInt32) ≠ kEntryMagic by decide) hmagic

theorem scanRecords_zeros (c : ℕ) : scanRecords (List.replicate c 0) = [] :=
  scanRecords_of_empty (by rw [List.take_replicate, recordsFrom_zeros])

/-- Pages of zeros in front of other bytes are skipped. -/
theorem recordsFrom_zeros_append (pages : ℕ) (buf : List UInt8) :
    recordsFrom (List.replicate (pages * kPageSize) 0 ++ buf) 0 =
      (recordsFrom buf 0).map (ParsedRecord.shift (pages * kPageSize)) := by
  induction pages with
  | zero =>
      rw [Nat.zero_mul, List.replicate_zero, List.nil_append]
      refine (List.map_id'' (fun r => ?_) _).symm
      rw [ParsedRecord.shift, Nat.zero_add]
  | succ pages ih =>
      have hsplit : List.replicate ((pages + 1) * kPageSize) (0 : UInt8) =
          List.replicate kPageSize 0 ++ List.replicate (pages * kPageSize) 0 := by
        rw [List.replicate_append_replicate, Nat.succ_mul, Nat.add_comm]
      have hmagic : (readHeader (List.replicate kPageSize 0) 0).magic ≠ kEntryMagic := by
        simp only [readHeader, readU32_zeros]
        decide
      rw [hsplit, List.append_assoc, recordsFrom_blank_append List.length_replicate hmagic, ih,
        List.map_map, List.length_replicate]
      refine List.map_congr_left fun r _ => ?_
      simp only [Function.comp_apply, ParsedRecord.shift, Nat.succ_mul, Nat.add_comm,
        Nat.add_left_comm]

/-! ### Nothing in front of the checkpoint -/

theorem firstRecordPage_eq : firstRecordPage = 1 := rfl

/-- A header page is no record. -/
theorem header_magic_ne {bytes : List UInt8} (h : readU32 bytes 0 = kDataFileHeaderMagic) :
    (readHeader bytes 0).magic ≠ kEntryMagic := by
  simp only [readHeader, h]
  decide

/-- A file in one chunk has the same records from its header page on. -/
theorem rangeOps_of_header {dataBlobs : List DataBlobInfo} {info : DataBlobInfo} {pages last : ℕ}
    (hblob : blobOf dataBlobs info.fileId = some info.blob)
    (hfile : IsDataFile pages (images.contents info.blob)) (hlast : last ≤ pages)
    (hpos : 0 < last) (hchunk : last * kPageSize ≤ kScanChunkSize) :
    rangeOps images dataBlobs ⟨info.fileId, 0, last⟩ =
      rangeOps images dataBlobs ⟨info.fileId, 1, last⟩ := by
  set bytes := images.contents info.blob with hbytes
  have hlen : kPageSize ≤ bytes.length := by
    rw [hfile.length]
    exact Nat.le_mul_of_pos_left _ (hpos.trans_le hlast)
  have hpage : (bytes.take kPageSize).length = kPageSize := by
    rw [List.length_take, min_eq_left hlen]
  have hmagic : (readHeader (bytes.take kPageSize) 0).magic ≠ kEntryMagic := by
    have h := header_magic_ne (hfile.magic (hpos.trans_le hlast))
    rw [← List.take_append_drop kPageSize bytes] at h
    rwa [readHeader_append_left (by rw [hpage]; decide)] at h
  have hsplit : (⟨info.fileId, 0, last⟩ : ScanRange).bytes bytes =
      bytes.take kPageSize ++ (⟨info.fileId, 1, last⟩ : ScanRange).bytes bytes := by
    have hadd : last * kPageSize = kPageSize + (last - 1) * kPageSize := by
      conv_lhs => rw [← Nat.sub_add_cancel hpos, Nat.succ_mul, Nat.add_comm]
    rw [ScanRange.bytes, ScanRange.bytes, slice, slice, Nat.zero_mul, List.drop_zero, one_mul,
      Nat.sub_zero, hadd, List.take_add]
  have hshort : ∀ start, ((⟨info.fileId, start, last⟩ : ScanRange).bytes bytes).length ≤
      kScanChunkSize := by
    intro start
    rw [ScanRange.bytes, slice, List.length_take]
    refine (min_le_left _ _).trans (le_trans ?_ hchunk)
    exact Nat.mul_le_mul_right _ (Nat.sub_le _ _)
  have hrecords : rangeRecords images dataBlobs ⟨info.fileId, 0, last⟩ =
      (rangeRecords images dataBlobs ⟨info.fileId, 1, last⟩).map
        (ParsedRecord.shift kPageSize) := by
    simp only [rangeRecords, hblob]
    rw [scanRecords_of_short (hshort 0), scanRecords_of_short (hshort 1), hsplit,
      recordsFrom_blank_append hpage hmagic, hpage]
  rw [rangeOps, rangeOps, hrecords, List.map_map]
  refine List.map_congr_left fun r _ => ?_
  simp only [Function.comp_apply, recordOp, rebuiltEntry, ParsedRecord.shift, Nat.zero_mul,
    Nat.zero_add, one_mul]

/-- A range that ends with the header page holds no record. -/
theorem rangeOps_header {dataBlobs : List DataBlobInfo} {info : DataBlobInfo} {pages : ℕ}
    (hblob : blobOf dataBlobs info.fileId = some info.blob)
    (hfile : IsDataFile pages (images.contents info.blob)) (hpos : 0 < pages) :
    rangeOps images dataBlobs ⟨info.fileId, 0, 1⟩ = [] := by
  rw [rangeOps_of_header hblob hfile hpos Nat.one_pos (by decide), rangeOps, rangeRecords, hblob]
  simp only [ScanRange.bytes, slice, Nat.sub_self, Nat.zero_mul, List.take_zero, scanRecords_nil,
    List.map_nil]

/-- The blob of a file. -/
theorem DataFiles.blobOf_eq (files : DataFiles) {info : DataBlobInfo} (h : info ∈ files.infos) :
    blobOf files.infos info.fileId = some info.blob := by
  have hfound : (files.infos.find? fun i => i.fileId == info.fileId).isSome :=
    List.find?_isSome.mpr ⟨info, h, beq_self_eq_true _⟩
  obtain ⟨found, hf⟩ := Option.isSome_iff_exists.mp hfound
  have hp := List.find?_some hf
  have hid : found.fileId = info.fileId := eq_of_beq hp
  obtain rfl := List.inj_on_of_nodup_map files.nodup_id (List.mem_of_find?_eq_some hf) h hid
  rw [blobOf, hf, Option.map_some]

theorem endPage_le (physicalEnd : ℕ → ℕ) (info : DataBlobInfo) :
    CheckpointPosition.endPage physicalEnd info ≤ physicalEnd info.blob := by
  simp only [CheckpointPosition.endPage]
  split_ifs with h
  · exact h.2.le
  · exact le_rfl

/-- The files hold data files. -/
def HoldDataFiles (images : BlobImages) (files : DataFiles) : Prop :=
  ∀ info ∈ files.infos, IsDataFile (images.physicalEnd info.blob) (images.contents info.blob)

/-- If no file is left out, every file has the calls of all its records. -/
theorem ScansAllFiles.fileOps_eq {sb : CheckpointPosition} {files : DataFiles}
    (h : ScansAllFiles sb images.physicalEnd files.infos) (hfiles : HoldDataFiles images files)
    {info : DataBlobInfo} (hinfo : info ∈ files.infos) :
    fileOps images files.infos (sb.scanRange images.physicalEnd info) =
      fileOps images files.infos (fullRange images.physicalEnd info) := by
  have hblob := files.blobOf_eq hinfo
  have hfile := hfiles info hinfo
  have hend := endPage_le images.physicalEnd info
  rw [fullRange, firstRecordPage_eq]
  by_cases hpages : 1 < CheckpointPosition.endPage images.physicalEnd info
  · rw [if_pos hpages]
    obtain ⟨start, hstart, hcase⟩ := h info hinfo hpages
    rcases hcase with rfl | ⟨hlt, hchunk⟩
    · rw [sb.scanRange_eq_some_iff.mpr ⟨1, hstart, hpages, rfl⟩]
    · obtain rfl : start = 0 := Nat.lt_one_iff.mp hlt
      rw [sb.scanRange_eq_some_iff.mpr ⟨0, hstart, by omega, rfl⟩]
      exact rangeOps_of_header hblob hfile hend (by omega) hchunk
  · rw [if_neg hpages]
    cases hr : sb.scanRange images.physicalEnd info with
    | none => rfl
    | some range =>
        obtain ⟨start, -, hlt, rfl⟩ := sb.scanRange_eq_some_iff.mp hr
        obtain rfl : start = 0 := by omega
        have hone : CheckpointPosition.endPage images.physicalEnd info = 1 := by omega
        rw [hone] at hend ⊢
        exact rangeOps_header hblob hfile hend

/-! ### Files with one record -/

/-- The header page of a data file. -/
def headerPage : List UInt8 :=
  leBytes 4 kDataFileHeaderMagic.toNat ++ List.replicate (kPageSize - 4) 0

theorem length_headerPage : headerPage.length = kPageSize := by
  rw [headerPage, List.length_append, length_leBytes, List.length_replicate]
  rfl

theorem readU32_headerPage (rest : List UInt8) :
    readU32 (headerPage ++ rest) 0 = kDataFileHeaderMagic := by
  rw [readU32, headerPage, List.append_assoc, fieldAt_front (length_leBytes 4 _),
    leNat_leBytes_of_lt (by decide)]
  rfl

/-- A data file without a record. -/
def emptyFile : ℕ → List UInt8
  | 0 => []
  | pages + 1 => headerPage ++ List.replicate (pages * kPageSize) 0

/-- A data file with one record behind `front` pages, of key 1. -/
def recordFile (front : ℕ) (value : List UInt8) (back : ℕ) : List UInt8 :=
  headerPage ++ (List.replicate (front * kPageSize) 0 ++
    (buildEntryInplace 1 value 1 false ++ List.replicate (back * kPageSize) 0))

theorem isDataFile_emptyFile (pages : ℕ) : IsDataFile pages (emptyFile pages) := by
  cases pages with
  | zero => exact ⟨rfl, fun h => absurd h (Nat.lt_irrefl 0)⟩
  | succ pages =>
      refine ⟨?_, fun _ => readU32_headerPage _⟩
      rw [emptyFile, List.length_append, length_headerPage, List.length_replicate,
        Nat.succ_mul, Nat.add_comm]

theorem isDataFile_recordFile (front back : ℕ) {size : ℕ} {value : List UInt8}
    (hsize : entrySize value.length = size * kPageSize) :
    IsDataFile (1 + front + size + back) (recordFile front value back) := by
  refine ⟨?_, fun _ => readU32_headerPage _⟩
  simp only [recordFile, List.length_append, length_headerPage, List.length_replicate,
    length_buildEntryInplace, hsize]
  ring

/-- The parser finds nothing in a header page and zeros. -/
theorem recordsFrom_header_append (buf : List UInt8) :
    recordsFrom (headerPage ++ buf) 0 =
      (recordsFrom buf 0).map (ParsedRecord.shift kPageSize) := by
  have hmagic := header_magic_ne (readU32_headerPage [])
  rw [List.append_nil] at hmagic
  rw [recordsFrom_blank_append length_headerPage hmagic, length_headerPage]

/-- No range of a file without a record has one. -/
theorem scanRecords_emptyFile (range : ScanRange) (pages : ℕ) :
    scanRecords (range.bytes (emptyFile pages)) = [] := by
  cases pages with
  | zero => rw [emptyFile, ScanRange.bytes, slice, List.drop_nil, List.take_nil, scanRecords_nil]
  | succ pages =>
      rw [emptyFile, ScanRange.bytes, slice]
      rcases Nat.eq_zero_or_pos range.startPage with h0 | hpos
      · rw [h0, Nat.zero_mul, List.drop_zero, Nat.sub_zero]
        rcases Nat.eq_zero_or_pos range.endPage with he | he
        · rw [he, Nat.zero_mul, List.take_zero, scanRecords_nil]
        · refine scanRecords_of_empty ?_
          rw [List.take_take, List.take_append, List.take_of_length_le, List.take_replicate,
            recordsFrom_header_append, recordsFrom_zeros, List.map_nil]
          rw [length_headerPage]
          exact le_min (by decide) (Nat.le_mul_of_pos_left _ he)
      · have hle : headerPage.length ≤ range.startPage * kPageSize := by
          rw [length_headerPage]
          exact Nat.le_mul_of_pos_left _ hpos
        rw [List.drop_append, List.drop_of_length_le hle, List.nil_append, List.drop_replicate,
          List.take_replicate, scanRecords_zeros]

/-- The records of a file with one record, from its first record page to a page behind the
record. -/
theorem scanRecords_recordFile {front back size last fileId : ℕ} {value : List UInt8}
    (hvalue : value.length < 2 ^ 32) (hsize : entrySize value.length = size * kPageSize)
    (hlast : 1 + front + size ≤ last) (hchunk : (front + size) * kPageSize ≤ kScanChunkSize) :
    scanRecords ((⟨fileId, 1, last⟩ : ScanRange).bytes (recordFile front value back)) =
      [⟨front * kPageSize, size * kPageSize, 1, 1, false⟩] := by
  have hrecord : (List.replicate (front * kPageSize) (0 : UInt8) ++
      buildEntryInplace 1 value 1 false).length = (front + size) * kPageSize := by
    rw [List.length_append, List.length_replicate, length_buildEntryInplace, hsize, Nat.add_mul]
  -- a prefix that reaches behind the record
  have htake : ∀ l, (front + size) * kPageSize ≤ l →
      (List.replicate (front * kPageSize) (0 : UInt8) ++ (buildEntryInplace 1 value 1 false ++
        List.replicate (back * kPageSize) 0)).take l = List.replicate (front * kPageSize) 0 ++
          (buildEntryInplace 1 value 1 false ++
            List.replicate (min (l - (front + size) * kPageSize) (back * kPageSize)) 0) := by
    intro l hl
    rw [← List.append_assoc, List.take_append, List.take_of_length_le (by rw [hrecord]; exact hl),
      hrecord, List.take_replicate, List.append_assoc]
  have hfound : ∀ c, recordsFrom (List.replicate (front * kPageSize) (0 : UInt8) ++
      (buildEntryInplace 1 value 1 false ++ List.replicate c 0)) 0 =
        [⟨front * kPageSize, size * kPageSize, 1, 1, false⟩] := by
    intro c
    rw [recordsFrom_zeros_append, recordsFrom_record_append 1 1 false hvalue, recordsFrom_zeros]
    simp only [List.map_nil, List.map_cons, ParsedRecord.shift, builtRecord, hsize, Nat.add_zero]
  have hbytes : (⟨fileId, 1, last⟩ : ScanRange).bytes (recordFile front value back) =
      List.replicate (front * kPageSize) 0 ++ (buildEntryInplace 1 value 1 false ++
        List.replicate (min ((last - 1) * kPageSize - (front + size) * kPageSize)
          (back * kPageSize)) 0) := by
    have hdrop : (recordFile front value back).drop (1 * kPageSize) =
        List.replicate (front * kPageSize) 0 ++ (buildEntryInplace 1 value 1 false ++
          List.replicate (back * kPageSize) 0) := by
      rw [recordFile, one_mul, ← length_headerPage, List.drop_left]
    have hle : front + size ≤ last - 1 := by omega
    rw [ScanRange.bytes, slice, hdrop, htake _ (Nat.mul_le_mul_right _ hle)]
  set c := min ((last - 1) * kPageSize - (front + size) * kPageSize) (back * kPageSize)
  have hfirst : recordsFrom ((List.replicate (front * kPageSize) (0 : UInt8) ++
      (buildEntryInplace 1 value 1 false ++ List.replicate c 0)).take kScanChunkSize) 0 =
        [⟨front * kPageSize, size * kPageSize, 1, 1, false⟩] := by
    rw [← List.append_assoc, List.take_append, List.take_of_length_le (by rw [hrecord]; exact hchunk),
      List.take_replicate, List.append_assoc, hfound]
  rw [hbytes, scanRecords_of_found (by rw [hfirst]; exact List.cons_ne_nil _ _), hfirst,
    ← List.append_assoc, List.drop_append, List.drop_of_length_le (by rw [hrecord]; exact hchunk),
    List.nil_append, List.drop_replicate, scanRecords_zeros]
  rfl

/-- Behind the record nothing is left. -/
theorem scanRecords_behind {back start last fileId : ℕ} (hstart : 2 ≤ start) :
    scanRecords ((⟨fileId, start, last⟩ : ScanRange).bytes (recordFile 0 [] back)) = [] := by
  have hlen : (headerPage ++ buildEntryInplace 1 [] 1 false).length ≤ start * kPageSize := by
    rw [List.length_append, length_headerPage, length_buildEntryInplace]
    exact le_trans (by decide : kPageSize + entrySize 0 ≤ 2 * kPageSize)
      (Nat.mul_le_mul_right _ hstart)
  rw [ScanRange.bytes, slice, recordFile, Nat.zero_mul, List.replicate_zero, List.nil_append,
    ← List.append_assoc, List.drop_append, List.drop_of_length_le hlen, List.nil_append,
    List.drop_replicate, List.take_replicate, scanRecords_zeros]

theorem entrySize_nil : entrySize ([] : List UInt8).length = 1 * kPageSize := rfl

/-- A value whose record has two pages. -/
def twoPageValue : List UInt8 := List.replicate kPageSize 0

theorem length_twoPageValue_lt : twoPageValue.length < 2 ^ 32 := by
  rw [twoPageValue, List.length_replicate]
  decide

theorem entrySize_twoPageValue : entrySize twoPageValue.length = 2 * kPageSize := by
  rw [twoPageValue, List.length_replicate]
  rfl

/-- A record that straddles the end of the first chunk is not found from the header page. -/
theorem scanRecords_straddle {back last fileId : ℕ} (hlast : 257 ≤ last) :
    scanRecords ((⟨fileId, 0, last⟩ : ScanRange).bytes (recordFile 254 twoPageValue back)) =
      [] := by
  have hsize := entrySize_twoPageValue
  have hwf : WfLog [.record 1 twoPageValue 1 false] := ⟨length_twoPageValue_lt, trivial⟩
  have himage : image [.record 1 twoPageValue 1 false] =
      buildEntryInplace 1 twoPageValue 1 false := by
    rw [image_cons, image_nil, List.append_nil, LogItem.bytes]
  have hcut : recordsFrom ((buildEntryInplace 1 twoPageValue 1 false).take (1 * kPageSize)) 0 =
      [] := by
    rw [← himage, recordsFrom_take_image hwf, appended, List.takeWhile_cons_of_neg]
    simp only [ParsedRecord.endsBy, decide_eq_true_eq, hsize]
    decide
  have hlen : (headerPage ++ List.replicate (254 * kPageSize) (0 : UInt8)).length =
      255 * kPageSize := by
    rw [List.length_append, length_headerPage, List.length_replicate]
    rfl
  refine scanRecords_of_empty ?_
  have hmin : min kScanChunkSize (last * kPageSize) = 255 * kPageSize + 1 * kPageSize := by
    have hle : 257 * kPageSize ≤ last * kPageSize := Nat.mul_le_mul_right _ hlast
    rw [kScanChunkSize_eq]
    simp only [kPageSize] at hle ⊢
    omega
  have hone : 1 * kPageSize ≤ (buildEntryInplace 1 twoPageValue 1 false).length := by
    rw [length_buildEntryInplace, hsize]
    decide
  rw [ScanRange.bytes, slice, Nat.zero_mul, List.drop_zero, Nat.sub_zero, List.take_take, hmin,
    recordFile, ← List.append_assoc, ← hlen, List.take_length_add_append,
    List.take_append_of_le_length hone, List.append_assoc, recordsFrom_header_append,
    recordsFrom_zeros_append, hcut]
  rfl

/-! ### The exact condition -/

/-- All files are without records but for one, which is given. -/
def singleImages (physicalEnd : ℕ → ℕ) (blob : ℕ) (bytes : List UInt8) : BlobImages where
  physicalEnd := physicalEnd
  contents := Function.update (fun b => emptyFile (physicalEnd b)) blob bytes

section Single

variable {files : DataFiles} {physicalEnd : ℕ → ℕ} {target : DataBlobInfo} {bytes : List UInt8}

theorem holdDataFiles_single (htarget : IsDataFile (physicalEnd target.blob) bytes) :
    HoldDataFiles (singleImages physicalEnd target.blob bytes) files := by
  intro info _
  by_cases h : info.blob = target.blob
  · simp only [singleImages, h, Function.update_self]
    exact htarget
  · simp only [singleImages, Function.update_of_ne h]
    exact isDataFile_emptyFile _

/-- The calls for a range of the file. -/
theorem rangeOps_single (physicalEnd : ℕ → ℕ) (bytes : List UInt8)
    (htarget : target ∈ files.infos) (start last : ℕ) :
    rangeOps (singleImages physicalEnd target.blob bytes) files.infos
        ⟨target.fileId, start, last⟩ =
      (scanRecords ((⟨target.fileId, start, last⟩ : ScanRange).bytes bytes)).map
        (recordOp target.fileId (start * kPageSize)) := by
  simp only [rangeOps, rangeRecords, files.blobOf_eq htarget, singleImages, Function.update_self]

/-- The other files have no calls. -/
theorem fileOps_other {R : DataBlobInfo → Option ScanRange}
    (hR : ∀ info range, R info = some range → range.fileId = info.fileId)
    (htarget : target ∈ files.infos) {info : DataBlobInfo} (hinfo : info ∈ files.infos)
    (hne : info ≠ target) :
    fileOps (singleImages physicalEnd target.blob bytes) files.infos (R info) = [] := by
  cases hr : R info with
  | none => rfl
  | some range =>
      have hblob : info.blob ≠ target.blob :=
        fun h => hne (List.inj_on_of_nodup_map files.nodup_blob hinfo htarget h)
      simp only [fileOps, rangeOps, rangeRecords, hR info range hr, files.blobOf_eq hinfo,
        singleImages, Function.update_of_ne hblob, scanRecords_emptyFile, List.map_nil]

/-- A function that is empty at all other members of a list without repetitions. -/
theorem flatMap_eq_of_mem {α β : Type*} {l : List α} (hl : l.Nodup) {a : α} (ha : a ∈ l)
    {g : α → List β} (hg : ∀ b ∈ l, b ≠ a → g b = []) : l.flatMap g = g a := by
  induction l with
  | nil => cases ha
  | cons b l ih =>
      obtain ⟨hb, hl⟩ := List.nodup_cons.mp hl
      rw [List.flatMap_cons]
      rcases List.mem_cons.mp ha with rfl | ha
      · rw [List.flatMap_eq_nil_iff.mpr fun c hc => hg c (List.mem_cons_of_mem _ hc) fun h =>
          hb (h ▸ hc), List.append_nil]
      · rw [hg b List.mem_cons_self fun h => hb (h ▸ ha), List.nil_append]
        exact ih hl ha fun c hc => hg c (List.mem_cons_of_mem _ hc)

/-- All calls are those for the file. -/
theorem flatMap_single {R : DataBlobInfo → Option ScanRange}
    (hR : ∀ info range, R info = some range → range.fileId = info.fileId)
    (htarget : target ∈ files.infos) :
    ((files.infos.mergeSort fun a b => a.fileId ≤ b.fileId).flatMap fun info =>
      fileOps (singleImages physicalEnd target.blob bytes) files.infos (R info)) =
      fileOps (singleImages physicalEnd target.blob bytes) files.infos (R target) := by
  refine flatMap_eq_of_mem ?_ (List.mem_mergeSort.mpr htarget) fun info hinfo hne =>
    fileOps_other hR htarget (List.mem_mergeSort.mp hinfo) hne
  exact (List.mergeSort_perm _ _).nodup_iff.mpr (List.Nodup.of_map _ files.nodup_id)

end Single

/-- A fresh index has the live entry that it is given first. -/
theorem findEntry_upsert_fresh (n : ℕ) {e : MemIndexEntry} (hlive : e.deleted = false) :
    ((MemIndex.fresh n).upsert e.key e).1.findEntry e.key ≠ none := by
  have hvacant : (MemIndex.fresh n).vacant (MemIndex.home n e.key) = true := rfl
  have hrun : (MemIndex.fresh n).upsert e.key e =
      ({ (MemIndex.fresh n).place (MemIndex.home n e.key) (MemIndex.tagged e.key e) (0 + 1) with
        size := 0 + 1 }, true) :=
    Loop.run_of_done _ (MemIndex.upsertBody_of_vacant hvacant)
  rw [hrun]
  set m : MemIndex n := { (MemIndex.fresh n).place (MemIndex.home n e.key)
    (MemIndex.tagged e.key e) (0 + 1) with size := 0 + 1 }
  have hentry : m.entries (MemIndex.home n e.key) = MemIndex.tagged e.key e :=
    Function.update_self _ _ _
  have hpsl : m.psl (MemIndex.home n e.key) = 1 := Function.update_self _ _ _
  have hfind : m.find e.key = some (MemIndex.home n e.key) := by
    refine Loop.run_of_done _ ?_
    simp only [MemIndex.findLoop, hentry, hpsl, MemIndex.tagged_key, MemIndex.tagged_tag,
      MemIndex.tagged_deleted, hlive]
    rfl
  rw [MemIndex.findEntry, hfind]
  exact Option.some_ne_none _

/-- A file with one record that the recovery does not meet. -/
theorem not_rebuildsFromAll_single (n : ℕ) {areas : IndexAreas}
    (hareas : areas.loaded.versions areas.selected = 0) {sb : CheckpointPosition}
    {files : DataFiles} {physicalEnd : ℕ → ℕ} {target : DataBlobInfo}
    (htarget : target ∈ files.infos) {front size back : ℕ} {value : List UInt8}
    (hvalue : value.length < 2 ^ 32) (hsize : entrySize value.length = size * kPageSize)
    (hlast : 1 + front + size ≤ CheckpointPosition.endPage physicalEnd target)
    (hpos : 0 < size) (hchunk : (front + size) * kPageSize ≤ kScanChunkSize)
    (hmiss : ∀ start, sb.startPage target.fileId = some start →
      scanRecords ((⟨target.fileId, start, CheckpointPosition.endPage physicalEnd target⟩ :
        ScanRange).bytes (recordFile front value back)) = []) :
    ¬ RebuildsFromAll n areas sb
      (singleImages physicalEnd target.blob (recordFile front value back)) files.infos := by
  intro h
  rw [rebuildsFromAll_iff hareas] at h
  have hcode : recoveryOps sb (singleImages physicalEnd target.blob (recordFile front value back))
      files = [] := by
    rw [recoveryOps, flatMap_single fileId_scanRange htarget]
    cases hr : sb.scanRange physicalEnd target with
    | none => simp only [singleImages, hr, fileOps]
    | some range =>
        obtain ⟨start, hstart, -, rfl⟩ := sb.scanRange_eq_some_iff.mp hr
        have hops := rangeOps_single physicalEnd (recordFile front value back) htarget start
          (CheckpointPosition.endPage physicalEnd target)
        rw [hmiss start hstart] at hops
        simp only [singleImages, hr, fileOps] at hops ⊢
        exact hops
  have hrange : fullRange physicalEnd target =
      some ⟨target.fileId, 1, CheckpointPosition.endPage physicalEnd target⟩ := by
    rw [fullRange, firstRecordPage_eq, if_pos (by omega)]
  have hall : fullOps (singleImages physicalEnd target.blob (recordFile front value back)) files =
      [.upsert (rebuiltEntry target.fileId (1 * kPageSize)
        ⟨front * kPageSize, size * kPageSize, 1, 1, false⟩)] := by
    have hops := rangeOps_single physicalEnd (recordFile front value back) htarget 1
      (CheckpointPosition.endPage physicalEnd target)
    rw [scanRecords_recordFile hvalue hsize hlast hchunk] at hops
    rw [fullOps, flatMap_single fileId_fullRange htarget]
    have hsame : fullRange (singleImages physicalEnd target.blob
      (recordFile front value back)).physicalEnd target = some _ := hrange
    rw [hsame, fileOps, hops]
    rfl
  have hkey := h 1
  rw [hcode, hall] at hkey
  exact findEntry_upsert_fresh n rfl hkey.symm

/-- One data file. -/
def oneFile : DataFiles := ⟨[⟨0, 0, 0⟩], List.nodup_singleton _, List.nodup_singleton _⟩

/-- A file of three pages whose record is behind its header. -/
def oneRecordImages : BlobImages := singleImages (fun _ => 3) 0 (recordFile 0 [] 1)

theorem holdDataFiles_oneRecord : HoldDataFiles oneRecordImages oneFile := by
  have hfile : IsDataFile 3 (recordFile 0 [] 1) := isDataFile_recordFile 0 1 entrySize_nil
  exact @holdDataFiles_single oneFile (fun _ => 3) ⟨0, 0, 0⟩ _ hfile

end SpdkKv
