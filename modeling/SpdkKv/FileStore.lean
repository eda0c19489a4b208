import SpdkKv.FileSpace
import SpdkKv.Lib.Machine

/-!
# A Store of Append-Only Files

What the engine does to its data files, with everything else left out: writes are submitted
to the active file, or wait for their IO before they take their space; files are added in
the background or by a call that waits; a compaction fills a file of its own; the superblock
takes over the state of the files, is written, and is loaded again after a crash. Every act
may come at any time. The ranges of the records that were reported successful and those that
compactions copied are remembered.
-/

namespace SpdkKv

/-- A `put` or `del` that waits for its IO: the pointer to its file, the file as it was
before, and the space it will take. -/
structure FileWait where
  place : ℕ
  file : FileInfo
  size : ℕ
  deriving DecidableEq, Repr

/-- The range that was submitted. -/
def FileWait.range (w : FileWait) : BlobRange := w.file.rangeFor w.size

/-- A compaction under way: its files and `dest_offset_`. -/
structure CompactionRun where
  source : ℕ
  dest : ℕ
  destOffset : ℕ
  deriving DecidableEq, Repr

/-- What a synchronous allocation is for. -/
inductive FileUse (W : Type)
  /-- A record of `put` or `del`. -/
  | sync (size : ℕ)
  /-- An append buffer. -/
  | buffer (size : ℕ) (write : FileInfo → W)
  /-- A compaction. -/
  | compaction (source : ℕ)

/-- The ranges are parts of one range, and share no byte. -/
def BlobRange.Splits (r : BlobRange) (ranges : List BlobRange) : Prop :=
  (∀ q ∈ ranges, q.blobId = r.blobId ∧ r.offset ≤ q.offset ∧ q.stop ≤ r.stop) ∧
    ranges.Pairwise BlobRange.Disjoint

instance (r : BlobRange) (ranges : List BlobRange) : Decidable (r.Splits ranges) :=
  inferInstanceAs (Decidable (_ ∧ _))

/-- The store. -/
structure FileStore (W : Type) where
  space : FileSpace W
  /-- The files of the synchronous allocations under way, innermost first. -/
  allocs : List ℕ
  /-- The synchronous writes under way, innermost first. -/
  waits : List FileWait
  runs : List CompactionRun
  /-- The records that were reported successful. -/
  records : List BlobRange
  /-- The ranges that compactions filled. -/
  copies : List BlobRange
  /-- The superblock that is being written. -/
  writing : Option SuperblockFiles
  persisted : SuperblockFiles
  /-- The size of a blob. -/
  blobPages : ℕ

/-- What can happen to the files. -/
inductive FileAct (W : Type)
  /-- The state of a file changes. -/
  | mark (i : ℕ) (state : FileState)
  /-- The flags about allocations change. -/
  | flags (allocating pendingCheckpoint nearFull : Bool)
  /-- A write goes to the active file, which has room. -/
  | submit (size : ℕ) (write : FileInfo → W)
  /-- A write of the queue goes to the active file. -/
  | drain (size : ℕ) (write : FileInfo → W)
  /-- The IO of a write in flight ends, and records are reported. -/
  | complete (i : ℕ) (ranges : List BlobRange)
  /-- A `put` or `del` writes to the active file, which has room. -/
  | wait (size : ℕ)
  /-- The innermost `put` or `del` goes on. -/
  | endWait (ok : Bool)
  /-- An asynchronous allocation begins. -/
  | beginAsync
  /-- The asynchronous allocation ends. -/
  | endAsync (ok : Bool)
  /-- A synchronous allocation begins. -/
  | beginAlloc
  /-- The innermost synchronous allocation ended well. -/
  | endAlloc (use : FileUse W)
  /-- The innermost synchronous allocation failed. -/
  | failAlloc
  /-- A compaction writes behind what it has copied. -/
  | migrate (k size : ℕ) (ok : Bool)
  /-- A compaction that is rolled back gives up its destination. -/
  | discard (k : ℕ)
  /-- The superblock takes over the state of the files, and is about to be written. -/
  | updateSuperblock (position : Option (ℕ × ℕ)) (dataBytes garbageBytes : ℕ)
  /-- The write of the superblock ends. -/
  | superblockWritten (ok : Bool)
  /-- The engine is opened again. -/
  | reopen (logged : List (ℕ × ℕ))

namespace FileStore

variable {W : Type}

/-- The size of a blob in bytes. -/
def blobSize (self : FileStore W) : ℕ := self.blobPages * kPageSize

/-- A write to a file goes on after its allocation. -/
def useFile (self : FileStore W) (i : ℕ) : FileUse W → FileStore W
  | .sync size =>
      { self with
        space := self.space.activate i
        waits := ⟨i, self.space.fileAt i, size⟩ :: self.waits }
  | .buffer size write => { self with space := (self.space.activate i).submitAt i size write }
  | .compaction source =>
      { self with runs := self.runs ++ [⟨source, i, sizeofDataFileHeader⟩] }

/-- The range of the next write of a compaction. -/
def migrationRange (self : FileStore W) (run : CompactionRun) (size : ℕ) : BlobRange :=
  ⟨(self.space.fileAt run.dest).blobId, (self.space.fileAt run.dest).fileId, run.destOffset,
    size % 2 ^ 32⟩

/-- The superblock with the state of the files. -/
def updatedSuperblock (self : FileStore W) (position : Option (ℕ × ℕ))
    (dataBytes garbageBytes : ℕ) : SuperblockFiles :=
  let superblock := self.space.superblock.updateAll self.space.files
  { superblock with
    activeFileId := self.space.activeFileId
    checkpointFileId := (position.map Prod.fst).getD superblock.checkpointFileId
    checkpointPageIndex := (position.map Prod.snd).getD superblock.checkpointPageIndex
    totalDataBytes := dataBytes
    totalGarbageBytes := garbageBytes }

/-- A compaction has written, and its destination grows. -/
def migrated (self : FileStore W) (k : ℕ) (run : CompactionRun) (size : ℕ) : FileStore W :=
  { self with
    space := self.space.modifyFile run.dest fun file =>
      { file with writeOffset := run.destOffset + size, size := run.destOffset + size }
    runs := self.runs.set k { run with destOffset := run.destOffset + size }
    copies := self.copies ++ [self.migrationRange run size] }

/-- The store after an act, if the act can happen. A write that ends behind its blob fails;
`open` succeeds only if every file has a blob. -/
def act (self : FileStore W) : FileAct W → Option (FileStore W)
  | .mark i state =>
      some { self with space := self.space.modifyFile i fun file => { file with state := state } }
  | .flags allocating pendingCheckpoint nearFull =>
      some { self with space := { self.space with
        allocatingNewFile := allocating
        pendingCheckpointForAlloc := pendingCheckpoint
        allocLogNearFull := nearFull } }
  | .submit size write =>
      (self.space.roomyFile size).map fun i =>
        { self with space := self.space.submitAt i size write }
  | .drain size write =>
      (self.space.activeIndex.filter fun i => (self.space.fileAt i).blobOpened).map fun i =>
        { self with space := self.space.submitAt i size write }
  | .complete i ranges =>
      self.space.inflight[i]?.bind fun io =>
        if io.range.Splits ranges ∧ (ranges ≠ [] → io.range.stop ≤ self.blobSize) then
          some { self with
            space := self.space.eraseInflight i
            records := self.records ++ ranges }
        else none
  | .wait size =>
      (self.space.roomyFile size).map fun i =>
        { self with waits := ⟨i, self.space.fileAt i, size⟩ :: self.waits }
  | .endWait ok =>
      match self.waits with
      | [] => none
      | w :: rest =>
          if ok then
            if w.range.stop ≤ self.blobSize then
              some { self with
                space := self.space.modifyFile w.place fun file => file.grow w.size
                waits := rest
                records := self.records ++ [w.range] }
            else none
          else some { self with waits := rest }
  | .beginAsync => some { self with space := self.space.beginAsync }
  | .endAsync ok =>
      self.space.newFile.map fun _ => { self with space := self.space.onNewFileAllocated ok }
  | .beginAlloc =>
      some { self with
        space := self.space.pushNewFile
        allocs := self.space.files.length :: self.allocs }
  | .endAlloc use =>
      match self.allocs with
      | [] => none
      | i :: rest =>
          some (useFile { self with space := self.space.finishNewFile i, allocs := rest } i use)
  | .failAlloc =>
      match self.allocs with
      | [] => none
      | _ :: rest => some { self with space := self.space.dropNewFile, allocs := rest }
  | .migrate k size ok =>
      self.runs[k]?.bind fun run =>
        if ok then
          if (self.migrationRange run size).stop ≤ self.blobSize then
            some (self.migrated k run size)
          else none
        else some self
  | .discard k =>
      self.runs[k]?.map fun run =>
        { self with
          space := self.space.modifyFile run.dest fun file =>
            { file with state := .kDeleted, blobOpened := false }
          runs := self.runs.eraseIdx k }
  | .updateSuperblock position dataBytes garbageBytes =>
      let superblock := self.updatedSuperblock position dataBytes garbageBytes
      some { self with
        space := { self.space with superblock := superblock }
        writing := some superblock }
  | .superblockWritten ok =>
      self.writing.map fun superblock =>
        { self with
          writing := none
          persisted := if ok then superblock else self.persisted }
  | .reopen logged =>
      if ∀ m ∈ (self.persisted.addLogged logged).fileMappings,
          m.blobId ≠ 0 ∧ m.blobId < self.space.nextBlobId then
        some { self with
          space := .reopened self.space.dataFileSize self.space.nextBlobId self.persisted logged
          allocs := []
          waits := []
          runs := []
          writing := none }
      else none

end FileStore

/-- The store as a machine. -/
def fileMachine (W : Type) : Machine (FileStore W) (FileAct W) where
  step := FileStore.act

end SpdkKv
