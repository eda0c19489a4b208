import SpdkKv.FileSizes
import SpdkKv.Recovery
import SpdkKv.RecordsApart

/-!
# What Recovery Scans

`build_scan_ranges_from_blobs` gives the pages that recovery scans after the position of the
last checkpoint: of the checkpoint file from that position on, of newer files behind the
header. A range ends where the blob ends, but not behind the size of the file, which the
engine took from the superblock; a record that is reported later than the superblock was
filled in may lie behind that size.

## Main results

* `FileStore.reached_act`: what one act keeps of the records that a scan reaches.
* `EngineSystem.records_scanned`: **in every run of the engine whose events meet the
  conditions, every page of a record at or behind the position lies in a range**.
* `EngineSystem.record_not_scanned`: a record that is put after `close` and `open`, before a
  crash, lies in none.
-/

namespace SpdkKv

/-! ### Ranges -/

/-- `recover_mem_index`: the files that are handed to recovery. -/
def dataBlobs (files : List FileInfo) : List DataBlobInfo :=
  (files.filter fun file => file.state ≠ .kDeleted && file.blobOpened).map fun file =>
    ⟨file.fileId, file.blobId, file.size⟩

/-- The page is in the range. -/
def ScanRange.Contains (self : ScanRange) (fileId page : ℕ) : Prop :=
  self.fileId = fileId ∧ self.startPage ≤ page ∧ page < self.endPage

instance (self : ScanRange) (fileId page : ℕ) : Decidable (self.Contains fileId page) :=
  inferInstanceAs (Decidable (_ ∧ _))

/-- The page holds a byte of the range. -/
def BlobRange.HasPage (self : BlobRange) (page : ℕ) : Prop :=
  self.offset < (page + 1) * kPageSize ∧ page * kPageSize < self.stop

instance (self : BlobRange) (page : ℕ) : Decidable (self.HasPage page) :=
  inferInstanceAs (Decidable (_ ∧ _))

/-- A range for every page between the start and the end of a file. -/
theorem CheckpointPosition.exists_range {sb : CheckpointPosition} {physicalEnd : ℕ → ℕ}
    {infos : List DataBlobInfo} {info : DataBlobInfo} {start page : ℕ} (hinfo : info ∈ infos)
    (hstart : sb.startPage info.fileId = some start) (hle : start ≤ page)
    (hlt : page < endPage physicalEnd info) :
    ∃ range ∈ sb.buildScanRangesFromBlobs physicalEnd infos,
      range.Contains info.fileId page := by
  refine ⟨⟨info.fileId, start, endPage physicalEnd info⟩, ?_, rfl, hle, hlt⟩
  rw [mem_buildScanRanges_iff]
  exact ⟨info, hinfo, (sb.scanRange_eq_some_iff).mpr ⟨start, hstart, hle.trans_lt hlt, rfl⟩⟩

/-! ### Records in reach -/

/-- The superblock says enough about the file of a range: the range lies before the position,
or the file is not deleted and has a size that does not end the scan before the range. -/
def SuperblockFiles.Reaches (self : SuperblockFiles) (blobPages : ℕ) (r : BlobRange) : Prop :=
  ∀ m ∈ self.fileMappings, m.blobId = r.blobId →
    m.fileId < self.checkpointFileId ∨
      (m.fileId = self.checkpointFileId ∧ r.stop ≤ self.checkpointPageIndex * kPageSize) ∨
      (m.state ≠ .kDeleted ∧ (m.size / kPageSize = 0 ∨ blobPages ≤ m.size / kPageSize ∨
        r.stop ≤ m.size / kPageSize * kPageSize))

instance (self : SuperblockFiles) (blobPages : ℕ) (r : BlobRange) :
    Decidable (self.Reaches blobPages r) :=
  inferInstanceAs (Decidable (∀ m ∈ self.fileMappings, _ → _))

namespace FileStore

variable {W : Type}

/-- The superblock on disk, and the one that is being written. -/
def tables (self : FileStore W) : List SuperblockFiles :=
  self.persisted :: self.writing.toList

/-- The records are in reach of both. -/
def Reached (st : FileStore W) : Prop :=
  ∀ table ∈ st.tables, ∀ r ∈ st.records, table.Reaches st.blobPages r

/-- The condition for the scan: a record is reported only while it is in reach, and the sizes
that a superblock takes over are whole pages. -/
def KeepsReach (st : FileStore W) : FileAct W → Prop
  | .complete _ ranges => ∀ table ∈ st.tables, ∀ r ∈ ranges, table.Reaches st.blobPages r
  | .endWait true => ∀ table ∈ st.tables, ∀ w ∈ st.waits.head?,
      table.Reaches st.blobPages w.range
  | .updateSuperblock _ _ _ => ∀ file ∈ st.space.files, kPageSize ∣ file.size
  | _ => True

instance decidableKeepsReach (st : FileStore W) (act : FileAct W) :
    Decidable (st.KeepsReach act) :=
  match act with
  | .complete _ ranges => inferInstanceAs (Decidable (∀ table ∈ st.tables, ∀ r ∈ ranges, _))
  | .endWait true =>
      inferInstanceAs (Decidable (∀ table ∈ st.tables, ∀ w ∈ st.waits.head?, _))
  | .updateSuperblock _ _ _ => inferInstanceAs (Decidable (∀ file ∈ st.space.files, _ ∣ _))
  | .mark _ _ | .flags _ _ _ | .submit _ _ | .drain _ _ | .wait _ | .endWait false
  | .beginAsync | .endAsync _ | .beginAlloc | .endAlloc _ | .failAlloc | .migrate _ _ _
  | .discard _ | .superblockWritten _ | .reopen _ => .isTrue trivial

variable {st st' : FileStore W}

/-- The superblock that is filled in now reaches all records. -/
theorem reaches_updatedSuperblock (h : st.Sized) (hids : st.space.fileIds.Nodup)
    (hpages : ∀ file ∈ st.space.files, kPageSize ∣ file.size) {r : BlobRange}
    (hr : r ∈ st.used) (position : Option (ℕ × ℕ)) (dataBytes garbageBytes : ℕ) :
    (st.updatedSuperblock position dataBytes garbageBytes).Reaches st.blobPages r := by
  intro m hm hmb
  obtain ⟨file, hfile, rfl⟩ : ∃ file ∈ st.space.files, m = .ofFile file := by
    rcases SuperblockFiles.mem_updateAll hm with hold | hnew
    · rcases h.mapped m hold with hzero | ⟨file, hfile, hid, -⟩
      · exact absurd (hmb.symm.trans hzero) (h.used_ne r hr)
      · exact ⟨file, hfile,
          SuperblockFiles.eq_ofFile_of_mem_updateAll h.nodup hids hm hfile hid.symm⟩
    · exact hnew
  refine .inr (.inr ⟨fun hd => h.deleted file hfile hd r hr hmb.symm, ?_⟩)
  rcases h.covered file hfile r hr hmb.symm with hzero | hle
  · exact .inl ((congrArg (· / kPageSize) hzero).trans (Nat.zero_div _))
  · exact .inr (.inr (hle.trans_eq (Nat.div_mul_cancel (hpages file hfile)).symm))

/-- **Every act that meets the conditions keeps the records in reach.** -/
theorem reached_act {act : FileAct W} (h : st.Reached) (hsized : st.Sized) (htable : st.TableOk)
    (hkeeps : st.KeepsReach act) (hs : st.act act = some st') : st'.Reached := by
  cases act with
  | mark i state =>
      obtain rfl := Option.some.inj hs
      exact h
  | flags allocating pendingCheckpoint nearFull =>
      obtain rfl := Option.some.inj hs
      exact h
  | submit size write =>
      obtain ⟨i, -, rfl⟩ := Option.map_eq_some_iff.mp hs
      exact h
  | drain size write =>
      obtain ⟨i, -, rfl⟩ := Option.map_eq_some_iff.mp hs
      exact h
  | complete i ranges =>
      obtain ⟨io, -, hs⟩ := Option.bind_eq_some_iff.mp hs
      obtain ⟨-, hs⟩ := Option.ite_none_right_eq_some.mp hs
      obtain rfl := Option.some.inj hs
      intro table htab r hr
      rcases List.mem_append.mp hr with hr | hr
      · exact h table htab r hr
      · exact hkeeps table htab r hr
  | wait size =>
      obtain ⟨i, -, rfl⟩ := Option.map_eq_some_iff.mp hs
      exact h
  | endWait ok =>
      rw [FileStore.act] at hs
      split at hs
      · cases hs
      · next w rest hwaits =>
          cases ok with
          | false =>
              obtain rfl := Option.some.inj hs
              exact h
          | true =>
              obtain ⟨-, hs⟩ := Option.ite_none_right_eq_some.mp hs
              obtain rfl := Option.some.inj hs
              intro table htab r hr
              rcases List.mem_append.mp hr with hr | hr
              · exact h table htab r hr
              · rw [List.mem_singleton.mp hr]
                exact hkeeps table htab w (by rw [hwaits]; rfl)
  | beginAsync =>
      obtain rfl := Option.some.inj hs
      exact h
  | endAsync ok =>
      obtain ⟨i, -, rfl⟩ := Option.map_eq_some_iff.mp hs
      exact h
  | beginAlloc =>
      obtain rfl := Option.some.inj hs
      exact h
  | endAlloc use =>
      rw [FileStore.act] at hs
      split at hs
      · cases hs
      · obtain rfl := Option.some.inj hs
        cases use with
        | sync size => exact h
        | buffer size write => exact h
        | compaction source => exact h
  | failAlloc =>
      rw [FileStore.act] at hs
      split at hs
      · cases hs
      · obtain rfl := Option.some.inj hs
        exact h
  | migrate k size ok =>
      obtain ⟨run, -, hs⟩ := Option.bind_eq_some_iff.mp hs
      cases ok with
      | false =>
          obtain rfl := Option.some.inj hs
          exact h
      | true =>
          obtain ⟨-, hs⟩ := Option.ite_none_right_eq_some.mp hs
          obtain rfl := Option.some.inj hs
          exact h
  | discard k =>
      obtain ⟨run, -, rfl⟩ := Option.map_eq_some_iff.mp hs
      exact h
  | updateSuperblock position dataBytes garbageBytes =>
      obtain rfl := Option.some.inj hs
      intro table htab r hr
      rcases List.mem_cons.mp htab with rfl | htab
      · exact h st.persisted List.mem_cons_self r hr
      · rw [List.mem_singleton.mp htab]
        exact reaches_updatedSuperblock hsized htable.numbering.nodup hkeeps
          (mem_used.mpr (.inl hr)) position dataBytes garbageBytes
  | superblockWritten ok =>
      obtain ⟨superblock, hsb, rfl⟩ := Option.map_eq_some_iff.mp hs
      intro table htab r hr
      rw [List.mem_singleton.mp htab]
      cases ok with
      | false => exact h st.persisted List.mem_cons_self r hr
      | true => exact h superblock (List.mem_cons_of_mem _ (Option.mem_toList.mpr hsb)) r hr
  | reopen logged =>
      obtain ⟨-, hs⟩ := Option.ite_none_right_eq_some.mp hs
      obtain rfl := Option.some.inj hs
      intro table htab r hr
      rw [List.mem_singleton.mp htab]
      exact h st.persisted List.mem_cons_self r hr

/-- A file that `open` finds on disk or in the log. -/
theorem mem_addLogged_kActive {self : SuperblockFiles} {logged : List (ℕ × ℕ)} {m : FileMapping}
    (h : m ∈ (self.addLogged logged).fileMappings) :
    m ∈ self.fileMappings ∨ (m.size = 0 ∧ m.state = .kActive) := by
  rcases List.mem_append.mp h with h | h
  · exact .inl h
  · obtain ⟨p, -, rfl⟩ := List.mem_map.mp (List.mem_of_mem_take h)
    exact .inr ⟨rfl, rfl⟩

/-- A page of a record at or behind the position lies before the end of the scan. -/
theorem lt_scanEnd {m : FileMapping} {table : SuperblockFiles} {r : BlobRange} {page : ℕ}
    (hmem : m ∈ table.fileMappings ∨ (m.size = 0 ∧ m.state = .kActive))
    (hreach : table.Reaches st.blobPages r) (hb : m.blobId = r.blobId)
    (hstop : r.stop ≤ st.blobSize) (hpage : page * kPageSize < r.stop)
    (hle : table.checkpointFileId ≤ m.fileId)
    (hposition : m.fileId = table.checkpointFileId → table.checkpointPageIndex ≤ page) :
    m.state ≠ .kDeleted ∧ page < CheckpointPosition.endPage (fun _ => st.blobPages)
      ⟨m.fileId, m.blobId, m.size⟩ := by
  have hpos : 0 < kPageSize := by decide
  have hend : page < st.blobPages :=
    Nat.lt_of_mul_lt_mul_right (hpage.trans_le hstop)
  have hsize : m.state ≠ .kDeleted ∧ (m.size / kPageSize = 0 ∨
      st.blobPages ≤ m.size / kPageSize ∨ r.stop ≤ m.size / kPageSize * kPageSize) := by
    rcases hmem with hmem | ⟨hzero, hstate⟩
    · rcases hreach m hmem hb with hlt | ⟨heq, hbefore⟩ | hsize
      · exact absurd hle (Nat.not_le_of_lt hlt)
      · have := Nat.lt_of_mul_lt_mul_right (hpage.trans_le hbefore)
        exact absurd (hposition heq) (Nat.not_le_of_lt this)
      · exact hsize
    · rw [hzero, hstate]
      exact ⟨nofun, .inl (Nat.zero_div _)⟩
  refine ⟨hsize.1, ?_⟩
  rw [CheckpointPosition.endPage]
  dsimp only
  split_ifs with hbound
  · rcases hsize.2 with hzero | hge | hcovers
    · exact absurd hzero (Nat.ne_of_gt hbound.1)
    · exact absurd hge (Nat.not_le_of_lt hbound.2)
    · exact Nat.lt_of_mul_lt_mul_right (hpage.trans_le hcovers)
  · exact hend

end FileStore

/-! ### The scan after `open` -/

namespace EngineSystem

variable {n : ℕ}

/-- The position of the superblock on disk; its sequence does not matter for the ranges. -/
def checkpointPosition (self : EngineSystem n) : CheckpointPosition :=
  ⟨self.persisted.checkpointFileId, self.persisted.checkpointPageIndex, 0⟩

/-- The ranges that recovery scans, of an engine whose superblock and files were loaded. -/
def scanRanges (self : EngineSystem n) : List ScanRange :=
  self.checkpointPosition.buildScanRangesFromBlobs (fun _ => self.blobPages)
    (dataBlobs self.engine.space.files)

/-- The page of a file is at or behind the position of the last checkpoint. -/
def AfterCheckpoint (self : EngineSystem n) (fileId page : ℕ) : Prop :=
  self.persisted.checkpointFileId < fileId ∨
    (fileId = self.persisted.checkpointFileId ∧ self.persisted.checkpointPageIndex ≤ page)

instance (self : EngineSystem n) (fileId page : ℕ) :
    Decidable (self.AfterCheckpoint fileId page) :=
  inferInstanceAs (Decidable (_ ∨ _))

/-- Every page of a record of one of the files that is at or behind the position lies in a
range. -/
def ScansRecords (self : EngineSystem n) : Prop :=
  ∀ file ∈ self.engine.space.files, ∀ record ∈ self.records, record.range.blobId = file.blobId →
    ∀ page, record.range.HasPage page → self.AfterCheckpoint file.fileId page →
      ∃ range ∈ self.scanRanges, range.Contains file.fileId page

/-- The conditions for the scan, for an event. -/
def KeepsScanned (s : EngineSystem n) (ev : EngineEvent n) : Prop :=
  (fileMachine _).Meets
    (fun st act => st.OwnsLastFile act ∧ st.RestoresOffset act ∧ st.KeepsSizes act ∧
      st.KeepsReach act) s.view (s.acts ev)

instance (s : EngineSystem n) (ev : EngineEvent n) : Decidable (s.KeepsScanned ev) :=
  inferInstanceAs (Decidable ((fileMachine _).Meets _ _ _))

/-- What holds of the files all along a run. -/
structure ScanInv (st : FileStore InflightWrite) : Prop where
  table : st.TableOk
  extents : st.Extents
  placed : st.Placed
  sized : st.Sized
  reached : st.Reached

theorem ScanInv.act {st st' : FileStore InflightWrite} {act : FileAct InflightWrite}
    (h : ScanInv st) (hkeeps : st.OwnsLastFile act ∧ st.RestoresOffset act ∧ st.KeepsSizes act ∧
      st.KeepsReach act) (hs : st.act act = some st') : ScanInv st' :=
  ⟨FileStore.tableOk_act h.table hkeeps.1 hs,
    FileStore.extents_act h.extents h.table hkeeps.1 hkeeps.2.1 hs,
    FileStore.placed_act h.placed hs,
    FileStore.sized_act h.sized h.extents h.table hkeeps.1 hkeeps.2.2.1 hs,
    FileStore.reached_act h.reached h.sized h.table hkeeps.2.2.2 hs⟩

theorem scanInv_created (index : MemIndex n) (dataFileSize bufferCount blobPages : ℕ) :
    ScanInv (created index dataFileSize bufferCount blobPages).view := by
  have hfile : ∀ file ∈ [(FileInfo.fresh 0).opened 1],
      file.state ≠ .kDeleted ∧ sizeofDataFileHeader ≤ file.writeOffset := by
    intro file hfile
    rw [List.mem_singleton.mp hfile]
    exact ⟨nofun, le_rfl⟩
  have hmapping : (FileSpace.created (W := InflightWrite) dataFileSize).superblock.BehindHeader := by
    intro m hm
    rw [List.mem_singleton.mp hm]
    exact le_rfl
  refine ⟨tableOk_created .., extents_created .., ?_, ?_, nofun⟩
  · exact ⟨fun file hf => (hfile file hf).2, nofun, nofun, nofun, nofun, hmapping, nofun, hmapping⟩
  · refine ⟨nofun, fun i hi j hj _ _ => ?_, nofun, fun i hi => ?_, nofun,
      fun file hf hd => absurd hd (hfile file hf).1, nofun, List.nodup_singleton _, fun m hm => ?_⟩
    · exact (Nat.lt_one_iff.mp hi).trans (Nat.lt_one_iff.mp hj).symm
    · rcases FileStore.mem_current.mp hi with hi | ⟨w, hw, -⟩
      · obtain rfl := Nat.lt_one_iff.mp (FileSpace.activeIndex_lt hi)
        exact ⟨Nat.one_ne_zero, nofun⟩
      · cases hw
    · rw [List.mem_singleton.mp hm]
      exact .inr ⟨_, List.mem_singleton.mpr rfl, rfl, rfl⟩

/-- **Recovery scans the records**: after every run of the engine whose events meet the
conditions, the next `open` has a range for every page of a record at or behind the position
of the last checkpoint. -/
theorem records_scanned {index : MemIndex n} {dataFileSize bufferCount blobPages : ℕ}
    {s s' : EngineSystem n} {evs : List (EngineEvent n)} {recovered : MemIndex n}
    {logged : List (ℕ × ℕ)}
    (hc : (engineMachine n).Meets KeepsScanned
      (created index dataFileSize bufferCount blobPages) evs)
    (hr : (engineMachine n).run (created index dataFileSize bufferCount blobPages) evs = some s)
    (hopen : s.step (.reopen recovered logged) = some s') : s'.ScansRecords := by
  obtain ⟨-, h⟩ := (engine_refines n).run_invariant ScanInv (fun _ _ _ h hc hs => h.act hc hs)
    (.created ..) (scanInv_created ..) hc hr
  obtain ⟨hblobs, hs⟩ := Option.ite_none_right_eq_some.mp hopen
  obtain rfl := Option.some.inj hs
  intro file hfile record hrecord hb page hpage hafter
  have hmem : record.range ∈ s.view.records := List.mem_map_of_mem hrecord
  have hused : record.range ∈ s.view.used := FileStore.mem_used.mpr (.inl hmem)
  have hfile : file ∈ (FileSpace.reopened (W := InflightWrite) s.engine.space.dataFileSize
      s.engine.space.nextBlobId s.persisted logged).files := hfile
  obtain ⟨m, hm, rfl⟩ : ∃ m ∈ (s.persisted.addLogged logged).fileMappings, m.toFile = file := by
    by_cases hnil : (s.persisted.addLogged logged).fileMappings = []
    · -- the only file has a blob of its own
      rw [FileSpace.reopened_eq_of_nil _ _ hnil] at hfile
      rw [List.mem_singleton.mp hfile] at hb
      exact absurd hb (Nat.ne_of_lt (h.extents.used_lt _ hused))
    · rw [FileSpace.reopened_eq _ _ hnil] at hfile
      exact List.mem_map.mp hfile
  have hle : s.persisted.checkpointFileId ≤ m.fileId := by
    rcases hafter with hlt | ⟨heq, -⟩
    · exact hlt.le
    · exact heq.symm.le
  obtain ⟨hstate, hlt⟩ := FileStore.lt_scanEnd
    (FileStore.mem_addLogged_kActive hm)
    (h.reached s.persisted List.mem_cons_self _ hmem) hb.symm (h.placed.records _ hmem) hpage.2 hle
    fun heq => hafter.resolve_left (fun hlt => Nat.ne_of_gt hlt heq) |>.2
  have hinfo : ⟨m.fileId, m.blobId, m.size⟩ ∈
      dataBlobs (s.reopened recovered logged).engine.space.files := by
    refine List.mem_map.mpr ⟨m.toFile, List.mem_filter.mpr ⟨hfile, ?_⟩, rfl⟩
    rw [Bool.and_eq_true, decide_eq_true_iff]
    exact ⟨hstate, rfl⟩
  obtain ⟨start, hstart, hstartle⟩ : ∃ start,
      (s.reopened recovered logged).checkpointPosition.startPage m.fileId = some start ∧
        start ≤ page := by
    rcases hafter with hlt | ⟨heq, hposition⟩
    · refine ⟨firstRecordPage, ?_, ?_⟩
      · exact (if_neg (Nat.ne_of_gt hlt)).trans (if_pos hlt)
      · -- a record lies behind the header
        have hheader := (h.placed.used _ hused).trans_lt hpage.1
        rw [firstRecordPage]
        have hone : sizeofDataFileHeader = 1 * kPageSize := rfl
        rw [hone] at hheader
        exact Nat.lt_succ_iff.mp (Nat.lt_of_mul_lt_mul_right hheader)
    · exact ⟨_, if_pos heq, hposition⟩
  exact CheckpointPosition.exists_range hinfo hstart hstartle hlt

/-- A put, `close`, and `open`. -/
def putCloseOpen : List (EngineEvent 3) :=
  [.put 1 100, .wake true, .close true, .reopen (MemIndex.fresh 3) []]

/-- A record that was put before `close` is scanned. -/
theorem records_scanned_small_put :
    ∃ s s', (engineMachine 3).run
        (created (MemIndex.fresh 3) (2 ^ 33) kMinBufferCount (2 ^ 21)) putCloseOpen = some s ∧
      s.step (.reopen (MemIndex.fresh 3) []) = some s' ∧ s'.ScansRecords := by
  have hmeets : (engineMachine 3).Meets KeepsScanned
      (created (MemIndex.fresh 3) (2 ^ 33) kMinBufferCount (2 ^ 21)) putCloseOpen := by
    decide +kernel
  have hrun : (((engineMachine 3).run
      (created (MemIndex.fresh 3) (2 ^ 33) kMinBufferCount (2 ^ 21)) putCloseOpen).bind fun s =>
        s.step (.reopen (MemIndex.fresh 3) [])).isSome := by
    decide +kernel
  obtain ⟨s', hs'⟩ := Option.isSome_iff_exists.mp hrun
  obtain ⟨s, hs, hopen⟩ := Option.bind_eq_some_iff.mp hs'
  exact ⟨s, s', hs, hopen, records_scanned hmeets hs hopen⟩

/-- **A record that is not scanned**: the superblock that `close` wrote has a size for the
file; after `open` a further record is put behind it, and the next `open` after a crash scans
the file only up to that size. -/
theorem record_not_scanned :
    ∃ s s', (engineMachine 3).run
        (created (MemIndex.fresh 3) (2 ^ 33) kMinBufferCount (2 ^ 21))
        (putCloseOpen ++ [.put 2 100, .wake true]) = some s ∧
      s.step (.reopen (MemIndex.fresh 3) []) = some s' ∧
      s'.records.map PlacedRecord.range = [⟨1, 0, 4096, 4096⟩, ⟨1, 0, 8192, 4096⟩] ∧
      s'.scanRanges = [⟨0, 0, 2⟩] ∧ ¬ s'.ScansRecords := by
  have hrun : (((engineMachine 3).run
      (created (MemIndex.fresh 3) (2 ^ 33) kMinBufferCount (2 ^ 21))
      (putCloseOpen ++ [.put 2 100, .wake true])).bind fun s =>
        s.step (.reopen (MemIndex.fresh 3) [])).map (fun s' =>
          (s'.records.map PlacedRecord.range, s'.engine.space.files, s'.blobPages,
            s'.persisted.checkpointFileId, s'.persisted.checkpointPageIndex)) =
      some ([⟨1, 0, 4096, 4096⟩, ⟨1, 0, 8192, 4096⟩], [⟨0, 1, .kActive, 8192, 8192, true⟩],
        2 ^ 21, 0, 0) := by
    decide +kernel
  obtain ⟨s', hs', hfacts⟩ := Option.map_eq_some_iff.mp hrun
  obtain ⟨s, hs, hopen⟩ := Option.bind_eq_some_iff.mp hs'
  simp only [Prod.mk.injEq] at hfacts
  obtain ⟨hrecords, hfiles, hpages, hfileId, hpage⟩ := hfacts
  have hranges : s'.scanRanges = [⟨0, 0, 2⟩] := by
    rw [scanRanges, checkpointPosition, hfiles, hpages, hfileId, hpage]
    exact List.mergeSort_singleton _
  refine ⟨s, s', hs, hopen, hrecords, hranges, fun h => ?_⟩
  obtain ⟨record, hrecord, hrange⟩ : ∃ record ∈ s'.records, record.range = ⟨1, 0, 8192, 4096⟩ := by
    rw [← List.mem_map, hrecords]
    decide
  have hafter : s'.AfterCheckpoint 0 2 := by
    rw [AfterCheckpoint, hfileId, hpage]
    exact .inr ⟨rfl, Nat.zero_le _⟩
  obtain ⟨range, hmem, -, -, hlt⟩ := h ⟨0, 1, .kActive, 8192, 8192, true⟩
    (hfiles ▸ List.mem_singleton_self _) record hrecord (by rw [hrange]) 2 (by rw [hrange]; decide)
    hafter
  rw [hranges] at hmem
  rw [List.mem_singleton.mp hmem] at hlt
  exact Nat.lt_irrefl _ hlt

end EngineSystem

end SpdkKv
