import Mathlib.Data.List.Basic
import SpdkKv.Types

/-!
# The Data Files of the Engine

`files_` of `Engine` with the members that choose a file and place a write in it: which file
is active, which id the next file gets, for which file an asynchronous allocation is under
way, the entries of the superblock about files, and the ranges of the writes in flight. A
pointer to a file is its place in `files_`; files are only added and removed at the end. What
a write in flight carries besides its range is a parameter.

A blob that is created gets the next number, so a number is never used for two blobs.
-/

namespace SpdkKv

/-! ### Files and ranges -/

/-- Size of a `DataFileHeader`, at which the records of a file begin. -/
def sizeofDataFileHeader : ℕ := kPageSize

/-- A range of a blob that a write is submitted to, with the id of its file. -/
structure BlobRange where
  blobId : ℕ
  fileId : ℕ
  offset : ℕ
  length : ℕ
  deriving DecidableEq, Repr

/-- The end of a range. -/
def BlobRange.stop (r : BlobRange) : ℕ := r.offset + r.length

/-- Two ranges share no byte of a blob. -/
def BlobRange.Disjoint (r r' : BlobRange) : Prop :=
  r.blobId = r'.blobId → r.stop ≤ r'.offset ∨ r'.stop ≤ r.offset

instance (r r' : BlobRange) : Decidable (r.Disjoint r') :=
  inferInstanceAs (Decidable (_ → _))

/-- `FileInfo`: the runtime data of a data file. The blob is 0 until one was created. -/
structure FileInfo where
  fileId : ℕ
  blobId : ℕ
  state : FileState
  size : ℕ
  writeOffset : ℕ
  blobOpened : Bool
  deriving DecidableEq, Repr

namespace FileInfo

/-- A new entry of `files_`. -/
def fresh (fileId : ℕ) : FileInfo :=
  ⟨fileId, 0, .kActive, 0, sizeofDataFileHeader, false⟩

instance : Inhabited FileInfo := ⟨fresh 0⟩

/-- The file after its blob was opened. -/
def opened (file : FileInfo) (blobId : ℕ) : FileInfo :=
  { file with blobId := blobId, blobOpened := true }

/-- The file after `size` bytes were taken at its end. -/
def grow (file : FileInfo) (size : ℕ) : FileInfo :=
  { file with writeOffset := file.writeOffset + size, size := file.writeOffset + size }

/-- The range of a write of `size` bytes at the end of the file. The length of the IO is a
`uint32_t`. -/
def rangeFor (file : FileInfo) (size : ℕ) : BlobRange :=
  ⟨file.blobId, file.fileId, file.writeOffset, size % 2 ^ 32⟩

end FileInfo

/-! ### The superblock -/

/-- `FileMapping`: a file in the superblock. -/
structure FileMapping where
  fileId : ℕ
  blobId : ℕ
  size : ℕ
  writeOffset : ℕ
  state : FileState
  deriving DecidableEq, Repr

/-- The mapping of a file as it is. -/
def FileMapping.ofFile (file : FileInfo) : FileMapping :=
  ⟨file.fileId, file.blobId, file.size, file.writeOffset, file.state⟩

/-- `rebuild_file_info`: the file of a mapping, whose blob was opened. -/
def FileMapping.toFile (m : FileMapping) : FileInfo :=
  ⟨m.fileId, m.blobId, m.state, m.size, m.writeOffset, true⟩

/-- The members of `Superblock` about files, and the statistics. -/
structure SuperblockFiles where
  fileMappings : List FileMapping
  activeFileId : ℕ
  checkpointFileId : ℕ
  checkpointPageIndex : ℕ
  totalDataBytes : ℕ
  totalGarbageBytes : ℕ
  deriving DecidableEq, Repr

namespace SuperblockFiles

/-- `update_superblock_file_mapping`. -/
def updateFileMapping (self : SuperblockFiles) (file : FileInfo) : SuperblockFiles :=
  match self.fileMappings.findIdx? fun m => m.fileId == file.fileId with
  | some i => { self with fileMappings := self.fileMappings.set i (.ofFile file) }
  | none =>
      if self.fileMappings.length < kMaxFileCount then
        { self with fileMappings := self.fileMappings ++ [.ofFile file] }
      else self

/-- The mappings of all files are updated. -/
def updateAll (self : SuperblockFiles) (files : List FileInfo) : SuperblockFiles :=
  files.foldl updateFileMapping self

/-- `process_alloc_log_recovery`: the mappings of the logged allocations with a valid header,
given by file and blob, are added. -/
def addLogged (self : SuperblockFiles) (logged : List (ℕ × ℕ)) : SuperblockFiles :=
  let found := logged.map fun p => FileMapping.mk p.1 p.2 0 sizeofDataFileHeader .kActive
  { self with
    fileMappings :=
      self.fileMappings ++ found.take (kMaxFileCount - self.fileMappings.length) }

theorem mem_updateFileMapping {self : SuperblockFiles} {file : FileInfo} {m : FileMapping}
    (h : m ∈ (self.updateFileMapping file).fileMappings) :
    m ∈ self.fileMappings ∨ m = .ofFile file := by
  rw [updateFileMapping] at h
  split at h
  · exact (List.mem_or_eq_of_mem_set h)
  · split_ifs at h
    · rcases List.mem_append.mp h with h | h
      · exact .inl h
      · exact .inr (List.mem_singleton.mp h)
    · exact .inl h

theorem mem_updateAll {self : SuperblockFiles} {files : List FileInfo} {m : FileMapping}
    (h : m ∈ (self.updateAll files).fileMappings) :
    m ∈ self.fileMappings ∨ ∃ file ∈ files, m = .ofFile file := by
  rw [updateAll] at h
  induction files generalizing self with
  | nil => exact .inl h
  | cons file files ih =>
      rcases ih h with h | ⟨other, hother, rfl⟩
      · rcases mem_updateFileMapping h with h | rfl
        · exact .inl h
        · exact .inr ⟨file, List.mem_cons_self, rfl⟩
      · exact .inr ⟨other, List.mem_cons_of_mem _ hother, rfl⟩

theorem mem_addLogged {self : SuperblockFiles} {logged : List (ℕ × ℕ)} {m : FileMapping}
    (h : m ∈ (self.addLogged logged).fileMappings) :
    m ∈ self.fileMappings ∨ (m.size = 0 ∧ m.writeOffset = sizeofDataFileHeader) := by
  rcases List.mem_append.mp h with h | h
  · exact .inl h
  · obtain ⟨p, -, rfl⟩ := List.mem_map.mp (List.mem_of_mem_take h)
    exact .inr ⟨rfl, rfl⟩

end SuperblockFiles

/-! ### The members of the engine -/

/-- A write in flight: what its completion needs, and its range. -/
structure InflightIo (W : Type) where
  write : W
  range : BlobRange

/-- A change of the last element of a list. -/
theorem modify_length_append {α : Type} (l : List α) (a : α) (f : α → α) :
    (l ++ [a]).modify l.length f = l ++ [f a] := by
  induction l with
  | nil => rfl
  | cons b l ih => rw [List.cons_append, List.length_cons, List.modify_succ_cons, ih]; rfl

/-- The members of `Engine` about data files. -/
structure FileSpace (W : Type) where
  dataFileSize : ℕ
  files : List FileInfo
  activeFileId : ℕ
  nextFileId : ℕ
  /-- The number of the blob that is created next. -/
  nextBlobId : ℕ
  allocatingNewFile : Bool
  pendingCheckpointForAlloc : Bool
  /-- The allocation log is near full. -/
  allocLogNearFull : Bool
  /-- The file that the asynchronous allocation under way is for. -/
  newFile : Option ℕ
  superblock : SuperblockFiles
  inflight : List (InflightIo W)

namespace FileSpace

variable {W : Type}

/-- `get_file`. -/
def getFile (self : FileSpace W) (fileId : ℕ) : Option FileInfo :=
  self.files.find? fun f => f.fileId == fileId

/-- The file that a pointer refers to. -/
def fileAt (self : FileSpace W) (i : ℕ) : FileInfo := self.files[i]?.getD default

/-- Writes through a pointer to a file. -/
def modifyFile (self : FileSpace W) (i : ℕ) (f : FileInfo → FileInfo) : FileSpace W :=
  { self with files := self.files.modify i f }

/-- `get_active_file`. -/
def activeIndex (self : FileSpace W) : Option ℕ :=
  self.files.findIdx? fun f => f.fileId == self.activeFileId

/-- The active file, if it is open and has room for `size` bytes. -/
def roomyFile (self : FileSpace W) (size : ℕ) : Option ℕ :=
  self.activeIndex.filter fun i =>
    (self.fileAt i).blobOpened && (self.fileAt i).writeOffset + size ≤ self.dataFileSize

/-- The active file is sealed. -/
def sealActiveFile (self : FileSpace W) : FileSpace W :=
  match self.activeIndex with
  | some i => self.modifyFile i fun file => { file with state := .kSealed }
  | none => self

/-- The space of a write is taken at the end of a file, and its IO is submitted. -/
def submitAt (self : FileSpace W) (i size : ℕ) (write : FileInfo → W) : FileSpace W :=
  { self.modifyFile i fun file => file.grow size with
    inflight := self.inflight ++ [⟨write (self.fileAt i), (self.fileAt i).rangeFor size⟩] }

/-- A completed write leaves the ones in flight. -/
def eraseInflight (self : FileSpace W) (i : ℕ) : FileSpace W :=
  { self with inflight := self.inflight.eraseIdx i }

/-! ### Allocating a file -/

/-- The allocation of a file begins: it is added to `files_`. The counter has 16 bits. -/
def pushNewFile (self : FileSpace W) : FileSpace W :=
  { self with
    files := self.files ++ [.fresh self.nextFileId]
    nextFileId := (self.nextFileId + 1) % 2 ^ 16 }

/-- The blob of a file was created and opened, and its header written. -/
def openNewFile (self : FileSpace W) (i : ℕ) : FileSpace W :=
  { self.modifyFile i fun file => file.opened self.nextBlobId with
    nextBlobId := self.nextBlobId + 1 }

/-- The rollback of an allocation: the last file is removed. -/
def dropNewFile (self : FileSpace W) : FileSpace W :=
  { self with
    files := self.files.dropLast
    nextFileId := (self.nextFileId + (2 ^ 16 - 1)) % 2 ^ 16 }

/-- `update_superblock_file_mapping`. -/
def updateFileMapping (self : FileSpace W) (file : FileInfo) : FileSpace W :=
  { self with superblock := self.superblock.updateFileMapping file }

/-- The end of `allocate_new_file` when everything went well. -/
def finishNewFile (self : FileSpace W) (i : ℕ) : FileSpace W :=
  (self.openNewFile i).updateFileMapping ((self.openNewFile i).fileAt i)

/-- A file becomes the active one. -/
def activate (self : FileSpace W) (i : ℕ) : FileSpace W :=
  { self with activeFileId := (self.fileAt i).fileId }

/-- The blob of the next data file is asked for, asynchronously. -/
def beginAsync (self : FileSpace W) : FileSpace W :=
  { self.pushNewFile with
    allocatingNewFile := true
    newFile := some self.files.length }

/-- `allocate_new_file_async`, up to the point where it waits, for its blob or for a
checkpoint that makes room in the allocation log. -/
def allocateNewFileAsync (self : FileSpace W) : FileSpace W :=
  if self.allocLogNearFull && !self.pendingCheckpointForAlloc then
    { self with allocatingNewFile := true, pendingCheckpointForAlloc := true }
  else self.beginAsync

/-- `on_new_file_allocated`, up to the queue. The blob was opened for the file of the
allocation; the file that becomes active is the last one. -/
def onNewFileAllocated (self : FileSpace W) (success : Bool) : FileSpace W :=
  let place := self.newFile
  let self := { self with allocatingNewFile := false, newFile := none }
  if success then
    let self := place.elim self self.openNewFile
    let last := self.files.length - 1
    (self.updateFileMapping (self.fileAt last)).activate last
  else self.dropNewFile

/-! ### Creating and opening -/

/-- The files after `create`: one file, which the superblock knows. -/
def created (dataFileSize : ℕ) : FileSpace W where
  dataFileSize := dataFileSize
  files := [(FileInfo.fresh 0).opened 1]
  activeFileId := 0
  nextFileId := 1
  nextBlobId := 2
  allocatingNewFile := false
  pendingCheckpointForAlloc := false
  allocLogNearFull := false
  newFile := none
  superblock := ⟨[.ofFile ((FileInfo.fresh 0).opened 1)], 0, 0, 0, 0, 0⟩
  inflight := []

/-- The files after `open`, from a superblock that was loaded and the logged allocations
with a valid header. Without any file a first one is allocated. -/
def reopened (dataFileSize nextBlobId : ℕ) (loaded : SuperblockFiles)
    (logged : List (ℕ × ℕ)) : FileSpace W :=
  let superblock := loaded.addLogged logged
  let rebuilt : FileSpace W := {
    dataFileSize := dataFileSize
    files := superblock.fileMappings.map FileMapping.toFile
    activeFileId := 0
    nextFileId := 0
    nextBlobId := nextBlobId
    allocatingNewFile := false
    pendingCheckpointForAlloc := false
    allocLogNearFull := false
    newFile := none
    superblock := superblock
    inflight := [] }
  let rebuilt := if rebuilt.files = [] then rebuilt.pushNewFile.finishNewFile 0 else rebuilt
  { rebuilt with
    activeFileId := loaded.activeFileId
    nextFileId := rebuilt.superblock.fileMappings.length }

/-- The end of an asynchronous allocation whose file is the last one is that of a
synchronous one. -/
theorem onNewFileAllocated_true {self : FileSpace W} {i : ℕ} (hi : self.newFile = some i)
    (hlast : i + 1 = self.files.length) :
    self.onNewFileAllocated true =
      (finishNewFile { self with allocatingNewFile := false, newFile := none } i).activate i := by
  have hlen : (openNewFile { self with allocatingNewFile := false, newFile := none } i).files.length
      - 1 = i := by
    rw [openNewFile, modifyFile, List.length_modify, ← hlast, Nat.add_sub_cancel]
  rw [onNewFileAllocated, hi, if_pos rfl, Option.elim_some]
  dsimp only
  rw [hlen]
  rfl

/-! ### Pointers -/

/-- Changes of files that keep their ids do not change which one is active. -/
theorem activeIndex_modifyFile (self : FileSpace W) (i : ℕ) {f : FileInfo → FileInfo}
    (hf : ∀ file, (f file).fileId = file.fileId) :
    (self.modifyFile i f).activeIndex = self.activeIndex := by
  simp only [activeIndex, modifyFile]
  generalize self.files = files
  induction files generalizing i with
  | nil => rw [List.modify_nil]
  | cons file files ih =>
      cases i with
      | zero => rw [List.modify_zero_cons, List.findIdx?_cons, List.findIdx?_cons, hf]
      | succ i => rw [List.modify_succ_cons, List.findIdx?_cons, List.findIdx?_cons, ih]

theorem activeIndex_submitAt (self : FileSpace W) (i size : ℕ) (write : FileInfo → W) :
    (self.submitAt i size write).activeIndex = self.activeIndex :=
  self.activeIndex_modifyFile i fun _ => rfl

/-- The file that a pointer refers to, after another write through a pointer. -/
theorem fileAt_modifyFile (self : FileSpace W) (i j : ℕ) (f : FileInfo → FileInfo)
    (hj : j < self.files.length) :
    (self.modifyFile i f).fileAt j = if i = j then f (self.fileAt j) else self.fileAt j := by
  rw [fileAt, fileAt, modifyFile, List.getElem?_modify, List.getElem?_eq_getElem hj]
  split_ifs <;> rfl

@[simp] theorem length_modifyFile (self : FileSpace W) (i : ℕ) (f : FileInfo → FileInfo) :
    (self.modifyFile i f).files.length = self.files.length := List.length_modify ..

/-- What a change of a file keeps, it keeps of every file. -/
theorem apply_fileAt_modifyFile {α : Type} (self : FileSpace W) (i j : ℕ)
    {f : FileInfo → FileInfo} {g : FileInfo → α} (hf : ∀ file, g (f file) = g file) :
    g ((self.modifyFile i f).fileAt j) = g (self.fileAt j) := by
  by_cases hj : j < self.files.length
  · rw [fileAt_modifyFile _ _ _ _ hj]
    split_ifs
    · exact hf _
    · rfl
  · rw [fileAt, fileAt, List.getElem?_eq_none (not_lt.mp hj), List.getElem?_eq_none]
    rw [length_modifyFile]
    exact not_lt.mp hj

/-- The files after a write through a pointer. -/
theorem mem_modifyFile {self : FileSpace W} {i : ℕ} {f : FileInfo → FileInfo} {file : FileInfo}
    (h : file ∈ (self.modifyFile i f).files) :
    file ∈ self.files ∨ (i < self.files.length ∧ file = f (self.fileAt i)) := by
  obtain ⟨j, hj⟩ := List.mem_iff_getElem?.mp h
  rw [modifyFile, List.getElem?_modify] at hj
  obtain ⟨old, hold, rfl⟩ := Option.map_eq_some_iff.mp hj
  split_ifs with hij
  · subst hij
    rw [fileAt, hold]
    exact .inr ⟨(List.getElem?_eq_some_iff.mp hold).1, rfl⟩
  · exact .inl (List.mem_of_getElem? hold)

/-- A pointer to a file refers to one of the files. -/
theorem fileAt_mem {self : FileSpace W} {i : ℕ} (hi : i < self.files.length) :
    self.fileAt i ∈ self.files := by
  rw [fileAt, List.getElem?_eq_getElem hi]
  exact List.getElem_mem hi

theorem activeIndex_lt {self : FileSpace W} {i : ℕ} (h : self.activeIndex = some i) :
    i < self.files.length := by
  obtain ⟨hlt, -⟩ := List.findIdx?_eq_some_iff_getElem.mp h
  exact hlt

/-! ### What `open` finds -/

/-- The files of the superblock and the log, if there are any. -/
theorem reopened_eq (dataFileSize nextBlobId : ℕ) {loaded : SuperblockFiles}
    {logged : List (ℕ × ℕ)} (h : (loaded.addLogged logged).fileMappings ≠ []) :
    reopened (W := W) dataFileSize nextBlobId loaded logged = {
      dataFileSize := dataFileSize
      files := (loaded.addLogged logged).fileMappings.map FileMapping.toFile
      activeFileId := loaded.activeFileId
      nextFileId := (loaded.addLogged logged).fileMappings.length
      nextBlobId := nextBlobId
      allocatingNewFile := false
      pendingCheckpointForAlloc := false
      allocLogNearFull := false
      newFile := none
      superblock := loaded.addLogged logged
      inflight := [] } := by
  rw [reopened]
  dsimp only
  rw [if_neg fun hnil => h (List.map_eq_nil_iff.mp hnil)]

/-- Without any file a first one is made. -/
theorem reopened_eq_of_nil (dataFileSize nextBlobId : ℕ) {loaded : SuperblockFiles}
    {logged : List (ℕ × ℕ)} (h : (loaded.addLogged logged).fileMappings = []) :
    reopened (W := W) dataFileSize nextBlobId loaded logged = {
      dataFileSize := dataFileSize
      files := [(FileInfo.fresh 0).opened nextBlobId]
      activeFileId := loaded.activeFileId
      nextFileId := 1
      nextBlobId := nextBlobId + 1
      allocatingNewFile := false
      pendingCheckpointForAlloc := false
      allocLogNearFull := false
      newFile := none
      superblock := { loaded.addLogged logged with
        fileMappings := [.ofFile ((FileInfo.fresh 0).opened nextBlobId)] }
      inflight := [] } := by
  rw [reopened]
  dsimp only
  rw [if_pos (List.map_eq_nil_iff.mpr h)]
  have hupdate : (loaded.addLogged logged).updateFileMapping ((FileInfo.fresh 0).opened nextBlobId) =
      { loaded.addLogged logged with
        fileMappings := [.ofFile ((FileInfo.fresh 0).opened nextBlobId)] } := by
    rw [SuperblockFiles.updateFileMapping, h]
    rfl
  simp only [h, List.map_nil, pushNewFile, finishNewFile, openNewFile, modifyFile, fileAt,
    updateFileMapping, List.nil_append, List.modify_zero_cons, List.getElem?_cons_zero,
    Option.getD_some, hupdate, List.length_singleton]

theorem reopened_inflight (dataFileSize nextBlobId : ℕ) (loaded : SuperblockFiles)
    (logged : List (ℕ × ℕ)) :
    (reopened (W := W) dataFileSize nextBlobId loaded logged).inflight = [] := by
  by_cases h : (loaded.addLogged logged).fileMappings = []
  · rw [reopened_eq_of_nil _ _ h]
  · rw [reopened_eq _ _ h]

end FileSpace

end SpdkKv
