import Mathlib.Algebra.Order.Field.Rat
import Mathlib.Data.List.Perm.Basic
import Mathlib.Data.List.Forall2
import Mathlib.Tactic.NormNum
import SpdkKv.EngineSystem
import SpdkKv.IndexBytes
import SpdkKv.Migration

/-!
# Which Files Are Compacted

`select_files_for_compaction` reads the state and the byte counts of `FileMetadata`. They are
set when a file is allocated or loaded, and compactions change the state; sealing a file,
writing to it and overwriting its records do not touch them, since nothing calls `mark_valid`
and `mark_invalid`. What the selection should go by is in the files and in the index.

## Main results

* `CompactionSystem.validBytes_eq_zero`: no metadata ever counts a valid byte.
* `CompactionSystem.selectsGarbage_iff`: when the selection is the right one in a state without
  valid bytes.
* `CompactionSystem.selection_correct_iff`: **when the selection is the right one** in a
  reachable state.
-/

namespace SpdkKv

/-! ### The selection -/

/-- `FileMetadata`, without the bitmap of the valid pages. -/
structure FileMetadata where
  fileId : ℕ
  state : FileState
  totalEntries : ℕ
  validEntries : ℕ
  totalBytes : ℕ
  validBytes : ℕ
  deriving DecidableEq, Repr

/-- `kBitmapCreationThreshold`. -/
def kBitmapCreationThreshold : ℚ := 3 / 10

namespace FileMetadata

/-- `garbage_ratio`. -/
def garbageRatio (self : FileMetadata) : ℚ :=
  if self.totalBytes = 0 then 0 else 1 - self.validBytes / self.totalBytes

/-- `needs_compaction`. -/
def needsCompaction (self : FileMetadata) : Bool :=
  self.state == .kSealed && decide (kBitmapCreationThreshold ≤ self.garbageRatio)

/-- The metadata of a file that was allocated or loaded. -/
def ofFile (file : FileInfo) : FileMetadata := ⟨file.fileId, file.state, 0, 0, file.size, 0⟩

/-- A compaction is done with the file. -/
def markDeleted (self : FileMetadata) : FileMetadata :=
  { self with state := .kDeleted, validEntries := 0, validBytes := 0 }

end FileMetadata

/-- The files that `select_files_for_compaction` sorts. -/
def compactionCandidates (fileMetadata : List FileMetadata) (minGarbageRatio : ℚ) :
    List FileMetadata :=
  fileMetadata.filter fun file =>
    file.needsCompaction && decide (minGarbageRatio ≤ file.garbageRatio)

/-- What `select_files_for_compaction` may return: the order in which a hash map is visited, and
the order of files with the same ratio behind `std::sort`, are not specified. -/
def IsSelection (fileMetadata : List FileMetadata) (minGarbageRatio : ℚ)
    (out : List FileMetadata) : Prop :=
  out.Perm (compactionCandidates fileMetadata minGarbageRatio) ∧
    out.Pairwise fun a b => b.garbageRatio ≤ a.garbageRatio

/-- `select_files_for_compaction`, with a stable sort. -/
def selectFilesForCompaction (fileMetadata : List FileMetadata) (minGarbageRatio : ℚ) :
    List FileMetadata :=
  (compactionCandidates fileMetadata minGarbageRatio).mergeSort fun a b =>
    decide (b.garbageRatio ≤ a.garbageRatio)

theorem isSelection_selectFilesForCompaction (fileMetadata : List FileMetadata)
    (minGarbageRatio : ℚ) : IsSelection fileMetadata minGarbageRatio
      (selectFilesForCompaction fileMetadata minGarbageRatio) := by
  refine ⟨List.mergeSort_perm _ _, ?_⟩
  have hsorted := @List.pairwise_mergeSort _
    (fun a b : FileMetadata => decide (b.garbageRatio ≤ a.garbageRatio))
    (fun a b c hab hbc => by
      rw [decide_eq_true_eq] at *
      exact hbc.trans hab)
    (fun a b => by
      rw [Bool.or_eq_true, decide_eq_true_eq, decide_eq_true_eq]
      exact le_total _ _)
    (compactionCandidates fileMetadata minGarbageRatio)
  exact hsorted.imp fun h => of_decide_eq_true h

/-! ### The metadata of the engine -/

/-- `file_metadata_[file.fileId] = file`. -/
def insertMetadata (file : FileMetadata) (fileMetadata : List FileMetadata) :
    List FileMetadata :=
  file :: fileMetadata.filter fun other => other.fileId != file.fileId

/-- Writes through a pointer to metadata. -/
def modifyMetadata (fileId : ℕ) (f : FileMetadata → FileMetadata)
    (fileMetadata : List FileMetadata) : List FileMetadata :=
  fileMetadata.map fun file => if file.fileId = fileId then f file else file

/-- `rebuild_file_info`, for the metadata. -/
def rebuildMetadata (files : List FileInfo) : List FileMetadata :=
  files.foldl (fun fileMetadata file => insertMetadata (.ofFile file) fileMetadata) []

/-- The engine with `file_metadata_` and the files whose blobs compactions are deleting. -/
structure CompactionSystem (n : ℕ) where
  system : EngineSystem n
  fileMetadata : List FileMetadata
  removing : List ℕ

/-- What can happen to the engine and to the metadata. -/
inductive CompactionEvent (n : ℕ)
  /-- An event of the engine. -/
  | engine (ev : EngineEvent n)
  /-- `update_indices` of a compaction, for what it has copied. -/
  | updateIndices (migrated : List MigratedEntry)
  /-- `start_rollback` of a compaction, for what it has copied. -/
  | revertIndices (updates : List MigratedEntry)
  /-- `mark_deleted` of a compaction. -/
  | markDeleted (k : ℕ)
  /-- The blob of a destination that was given up has been deleted. -/
  | blobDeleted (fileId : ℕ)

namespace CompactionSystem

variable {n : ℕ}

/-- The files of the engine. -/
def files (self : CompactionSystem n) : List FileInfo := self.system.engine.space.files

/-- The index of the engine. -/
def memIndex (self : CompactionSystem n) : MemIndex n := self.system.engine.memIndex

/-- Another index. -/
def withIndex (self : CompactionSystem n) (memIndex : MemIndex n) : CompactionSystem n :=
  { self with system := { self.system with
    engine := { self.system.engine with memIndex := memIndex } } }

/-- What an event of the engine that led to `after` does to the metadata. -/
def track (self : CompactionSystem n) (after : EngineSystem n) :
    EngineEvent n → CompactionSystem n
  | .async (.newFileAllocated true) =>
      let last := after.engine.space.fileAt (after.engine.space.files.length - 1)
      { self with
        system := after
        fileMetadata := insertMetadata ⟨last.fileId, last.state, 0, 0, 0, 0⟩ self.fileMetadata }
  | .wake true =>
      match self.system.stack with
      | .allocating i _ :: _ =>
          let file := after.engine.space.fileAt i
          { self with
            system := after
            fileMetadata :=
              insertMetadata ⟨file.fileId, file.state, 0, 0, 0, 0⟩ self.fileMetadata }
      | _ => { self with system := after }
  | .markSource k compacting =>
      match self.system.runs[k]? with
      | some run =>
          { self with
            system := after
            fileMetadata := modifyMetadata (self.system.engine.space.fileAt run.source).fileId
              (fun file => { file with state := if compacting then .kCompacting else .kSealed })
              self.fileMetadata }
      | none => { self with system := after }
  | .discard k =>
      match self.system.runs[k]? with
      | some run =>
          let fileId := (self.system.engine.space.fileAt run.dest).fileId
          { system := after
            fileMetadata := modifyMetadata fileId FileMetadata.markDeleted self.fileMetadata
            removing := self.removing ++ [fileId] }
      | none => { self with system := after }
  | .reopen _ _ => ⟨after, rebuildMetadata after.engine.space.files, []⟩
  | _ => { self with system := after }

/-- `CompactionTask::init` finds the metadata of its source. -/
def canStart (self : CompactionSystem n) : EngineEvent n → Bool
  | .compact source => self.fileMetadata.any fun file =>
      file.fileId == (self.system.engine.space.fileAt source).fileId
  | _ => true

/-- The state after an event, if the event can happen. -/
def step (self : CompactionSystem n) : CompactionEvent n → Option (CompactionSystem n)
  | .engine ev =>
      if self.canStart ev then (self.system.step ev).map fun after => self.track after ev
      else none
  | .updateIndices migrated => some (self.withIndex (self.memIndex.updateIndices migrated))
  | .revertIndices updates =>
      some (self.withIndex (updates.foldl MemIndex.revertIndexUpdate self.memIndex))
  | .markDeleted k =>
      self.system.runs[k]?.map fun run =>
        let fileId := (self.system.engine.space.fileAt run.source).fileId
        { self with
          fileMetadata := modifyMetadata fileId FileMetadata.markDeleted self.fileMetadata }
  | .blobDeleted fileId =>
      if fileId ∈ self.removing then
        some { self with
          fileMetadata := self.fileMetadata.filter fun file => file.fileId != fileId
          removing := self.removing.erase fileId }
      else none

/-- The state after `create`. -/
def created (index : MemIndex n) (dataFileSize bufferCount blobPages : ℕ) :
    CompactionSystem n where
  system := .created index dataFileSize bufferCount blobPages
  fileMetadata := [⟨0, .kActive, 0, 0, 0, 0⟩]
  removing := []

end CompactionSystem

/-- The engine with its metadata as a machine. -/
def compactionMachine (n : ℕ) : Machine (CompactionSystem n) (CompactionEvent n) where
  step := CompactionSystem.step

/-! ### What the selection should be -/

/-- The bytes of the records that were written to a file. -/
def FileInfo.writtenBytes (file : FileInfo) : ℕ := file.writeOffset - sizeofDataFileHeader

/-- The fraction of the written bytes that no live entry of the index refers to. -/
def garbageFraction {n : ℕ} (memIndex : MemIndex n) (file : FileInfo) : ℚ :=
  if file.writtenBytes = 0 then 0 else 1 - memIndex.fileBytes file.fileId / file.writtenBytes

theorem garbageFraction_le_one {n : ℕ} (memIndex : MemIndex n) (file : FileInfo) :
    garbageFraction memIndex file ≤ 1 := by
  rw [garbageFraction]
  split_ifs
  · exact zero_le_one
  · exact sub_le_self _ (div_nonneg (Nat.cast_nonneg _) (Nat.cast_nonneg _))

/-- Perfect garbage: something was written, and nothing is referred to. -/
theorem garbageFraction_eq_one_iff {n : ℕ} {memIndex : MemIndex n} {file : FileInfo} :
    garbageFraction memIndex file = 1 ↔
      file.writtenBytes ≠ 0 ∧ memIndex.fileBytes file.fileId = 0 := by
  rw [garbageFraction]
  split_ifs with hzero
  · exact iff_of_false zero_ne_one fun h => h.1 hzero
  · have hwritten : (file.writtenBytes : ℚ) ≠ 0 := Nat.cast_ne_zero.mpr hzero
    rw [sub_eq_self, div_eq_zero_iff, or_iff_left hwritten, Nat.cast_eq_zero]
    exact (and_iff_right hzero).symm

namespace CompactionSystem

variable {n : ℕ} {s s' : CompactionSystem n}

/-- The fraction of a file in a state. -/
def fraction (s : CompactionSystem n) (file : FileInfo) : ℚ := garbageFraction s.memIndex file

/-- The files that should be selected. -/
def garbageFiles (s : CompactionSystem n) (minGarbageRatio : ℚ) : List FileInfo :=
  s.files.filter fun file =>
    file.state == .kSealed && decide (max minGarbageRatio (3 / 10) ≤ s.fraction file)

/-- **The selection is the right one**: whatever ratio is asked for and in whichever order the
map is visited, the files returned are those that should be, each once, and the fraction of
garbage does not increase. -/
def SelectsGarbage (s : CompactionSystem n) : Prop :=
  ∀ minGarbageRatio out, IsSelection s.fileMetadata minGarbageRatio out →
    ∃ files : List FileInfo, files.Perm (s.garbageFiles minGarbageRatio) ∧
      out.map FileMetadata.fileId = files.map FileInfo.fileId ∧
      files.Pairwise fun a b => s.fraction b ≤ s.fraction a

/-- The ids of the files that were loaded with data and whose metadata is sealed. -/
def loadedSealed (s : CompactionSystem n) : List ℕ :=
  (s.fileMetadata.filter fun file => file.state == .kSealed && file.totalBytes != 0).map
    FileMetadata.fileId

/-- The ids of the sealed files that are nothing but garbage. -/
def emptied (s : CompactionSystem n) : List ℕ :=
  (s.files.filter fun file => file.state == .kSealed && decide (s.fraction file = 1)).map
    FileInfo.fileId

/-- **What the metadata can tell**: the files that were loaded with data and are sealed there are
the sealed ones without a live record, and no other sealed file has as much garbage as makes
it worth a compaction. -/
def OnlyEmptiedFiles (s : CompactionSystem n) : Prop :=
  s.loadedSealed.Perm s.emptied ∧
    ∀ file ∈ s.files, file.state = .kSealed → s.fraction file < 3 / 10 ∨ s.fraction file = 1

/-! ### What the metadata is -/

/-- No metadata counts a valid byte. -/
def NoValidBytes (fileMetadata : List FileMetadata) : Prop :=
  ∀ file ∈ fileMetadata, file.validBytes = 0

theorem NoValidBytes.insert {fileMetadata : List FileMetadata} (h : NoValidBytes fileMetadata)
    {file : FileMetadata} (hfile : file.validBytes = 0) :
    NoValidBytes (insertMetadata file fileMetadata) := by
  intro other hother
  rcases List.mem_cons.mp hother with rfl | hother
  · exact hfile
  · exact h other (List.mem_of_mem_filter hother)

theorem NoValidBytes.modify {fileMetadata : List FileMetadata} (h : NoValidBytes fileMetadata)
    (fileId : ℕ) {f : FileMetadata → FileMetadata}
    (hf : ∀ file : FileMetadata, file.validBytes = 0 → (f file).validBytes = 0) :
    NoValidBytes (modifyMetadata fileId f fileMetadata) := by
  intro other hother
  obtain ⟨file, hfile, rfl⟩ := List.mem_map.mp hother
  split_ifs
  · exact hf file (h file hfile)
  · exact h file hfile

theorem noValidBytes_rebuildMetadata (files : List FileInfo) :
    NoValidBytes (rebuildMetadata files) := by
  suffices h : ∀ fileMetadata, NoValidBytes fileMetadata → NoValidBytes
      (files.foldl (fun fileMetadata file => insertMetadata (.ofFile file) fileMetadata)
        fileMetadata) from h [] nofun
  induction files with
  | nil => exact fun _ h => h
  | cons file files ih => exact fun _ h => ih _ (h.insert rfl)

/-- An event of the engine counts none, ... -/
theorem noValidBytes_track (h : NoValidBytes s.fileMetadata) (after : EngineSystem n)
    (ev : EngineEvent n) : NoValidBytes (s.track after ev).fileMetadata := by
  rw [track.eq_def]
  split
  · exact h.insert rfl
  · split
    · exact h.insert rfl
    · exact h
  · split
    · exact h.modify _ fun _ hfile => hfile
    · exact h
  · split
    · exact h.modify _ fun _ _ => rfl
    · exact h
  · exact noValidBytes_rebuildMetadata _
  · exact h

/-- ... and neither does a compaction. -/
theorem noValidBytes_step {ev : CompactionEvent n} (h : NoValidBytes s.fileMetadata)
    (hstep : s.step ev = some s') : NoValidBytes s'.fileMetadata := by
  cases ev with
  | engine ev =>
      obtain ⟨-, hmap⟩ := Option.ite_none_right_eq_some.mp hstep
      obtain ⟨after, -, rfl⟩ := Option.map_eq_some_iff.mp hmap
      exact noValidBytes_track h after ev
  | updateIndices migrated =>
      obtain rfl := Option.some.inj hstep
      exact h
  | revertIndices updates =>
      obtain rfl := Option.some.inj hstep
      exact h
  | markDeleted k =>
      obtain ⟨run, -, rfl⟩ := Option.map_eq_some_iff.mp hstep
      exact h.modify _ fun _ _ => rfl
  | blobDeleted fileId =>
      obtain ⟨-, heq⟩ := Option.ite_none_right_eq_some.mp hstep
      obtain rfl := Option.some.inj heq
      exact fun file hfile => h file (List.mem_of_mem_filter hfile)

/-- **No metadata ever counts a valid byte.** -/
theorem validBytes_eq_zero {index : MemIndex n} {dataFileSize bufferCount blobPages : ℕ}
    {events : List (CompactionEvent n)}
    (hr : (compactionMachine n).run (created index dataFileSize bufferCount blobPages) events =
      some s) : NoValidBytes s.fileMetadata := by
  refine (compactionMachine n).run_invariant_of_step (fun s => NoValidBytes s.fileMetadata)
    (fun _ _ _ h hstep => noValidBytes_step h hstep) ?_ hr
  intro file hfile
  rw [List.mem_singleton.mp hfile]

/-! ### When the selection is the right one -/

/-- Without valid bytes a file is a candidate if it was loaded with data and is sealed, whatever
ratio up to 1 is asked for. -/
theorem compactionCandidates_eq {fileMetadata : List FileMetadata}
    (h : NoValidBytes fileMetadata) (minGarbageRatio : ℚ) :
    compactionCandidates fileMetadata minGarbageRatio =
      if minGarbageRatio ≤ 1 then
        fileMetadata.filter fun file => file.state == .kSealed && file.totalBytes != 0
      else [] := by
  have hratio : ∀ file ∈ fileMetadata,
      file.garbageRatio = if file.totalBytes = 0 then 0 else 1 := by
    intro file hfile
    rw [FileMetadata.garbageRatio, h file hfile, Nat.cast_zero, zero_div, sub_zero]
  split_ifs with hle
  · refine List.filter_congr fun file hfile => ?_
    rw [FileMetadata.needsCompaction, hratio file hfile, kBitmapCreationThreshold]
    split_ifs with hzero
    · simp only [hzero, bne_self_eq_false, Bool.and_false]
      norm_num
    · have hne : (file.totalBytes != 0) = true := bne_iff_ne.mpr hzero
      rw [hne, decide_eq_true hle]
      norm_num
  · refine List.filter_eq_nil_iff.mpr fun file hfile => ?_
    rw [FileMetadata.needsCompaction, hratio file hfile, kBitmapCreationThreshold]
    split_ifs
    · norm_num
    · simp only [decide_eq_false hle, Bool.and_false, Bool.false_eq_true, not_false_eq_true]

/-- A selection from a list without valid bytes is those files in any order. -/
theorem isSelection_iff_of_le_one {fileMetadata : List FileMetadata}
    (h : NoValidBytes fileMetadata) {minGarbageRatio : ℚ} (hle : minGarbageRatio ≤ 1)
    {out : List FileMetadata} : IsSelection fileMetadata minGarbageRatio out ↔
      out.Perm (fileMetadata.filter fun file =>
        file.state == .kSealed && file.totalBytes != 0) := by
  rw [IsSelection, compactionCandidates_eq h, if_pos hle]
  refine and_iff_left_of_imp fun hperm => ?_
  have hone : ∀ file ∈ out, file.garbageRatio = 1 := by
    intro file hfile
    obtain ⟨hmem, hsealed⟩ := List.mem_filter.mp (hperm.mem_iff.mp hfile)
    have hne : file.totalBytes ≠ 0 := by
      rw [Bool.and_eq_true, bne_iff_ne] at hsealed
      exact hsealed.2
    rw [FileMetadata.garbageRatio, if_neg hne, h file hmem, Nat.cast_zero, zero_div, sub_zero]
  refine List.pairwise_of_forall_mem_list fun a ha b hb => ?_
  rw [hone a ha, hone b hb]

/-- A list that is in order after a map comes from one that is. -/
theorem exists_perm_of_map_perm {α β : Type} {f : α → β} {l : List α} {out : List β}
    (h : out.Perm (l.map f)) : ∃ l' : List α, l'.Perm l ∧ out = l'.map f := by
  have hmap : List.Forall₂ (fun b a => b = f a) (l.map f) l :=
    List.forall₂_map_left_iff.mpr (List.forall₂_same.mpr fun _ _ => rfl)
  obtain ⟨l', hout, hperm⟩ := List.perm_comp_forall₂ h hmap
  refine ⟨l', hperm, ?_⟩
  have heq := List.forall₂_map_right_iff.mpr hout
  rwa [List.forall₂_eq_eq_eq] at heq

/-- The files that are nothing but garbage are selected for every ratio up to 1. -/
theorem garbageFiles_eq_of_le_one (h : s.OnlyEmptiedFiles) {minGarbageRatio : ℚ}
    (hle : minGarbageRatio ≤ 1) : s.garbageFiles minGarbageRatio =
      s.files.filter fun file => file.state == .kSealed && decide (s.fraction file = 1) := by
  refine List.filter_congr fun file hfile => ?_
  cases hsealed : file.state == .kSealed with
  | false => rw [Bool.false_and, Bool.false_and]
  | true =>
      rw [Bool.true_and, Bool.true_and, decide_eq_decide]
      rcases h.2 file hfile (beq_iff_eq.mp hsealed) with hlt | hone
      · refine iff_of_false (fun hmax => ?_) fun hone => ?_
        · exact absurd (hlt.trans_le ((le_max_right _ _).trans hmax)) (lt_irrefl _)
        · rw [hone] at hlt
          norm_num at hlt
      · refine iff_of_true ?_ hone
        rw [hone]
        exact max_le hle (by norm_num)

/-- No file has more garbage than data. -/
theorem garbageFiles_eq_nil (s : CompactionSystem n) {minGarbageRatio : ℚ}
    (hlt : 1 < minGarbageRatio) : s.garbageFiles minGarbageRatio = [] := by
  refine List.filter_eq_nil_iff.mpr fun file _ => ?_
  have hle : s.fraction file < max minGarbageRatio (3 / 10) :=
    ((garbageFraction_le_one s.memIndex file).trans_lt hlt).trans_le (le_max_left _ _)
  rw [decide_eq_false (not_le.mpr hle), Bool.and_false]
  exact Bool.false_ne_true

/-- The files that should be selected for the ratio 1. -/
theorem garbageFiles_one (s : CompactionSystem n) : s.garbageFiles 1 =
    s.files.filter fun file => file.state == .kSealed && decide (s.fraction file = 1) := by
  refine List.filter_congr fun file _ => congrArg _ (decide_eq_decide.mpr ?_)
  rw [max_eq_left (by norm_num : (3 / 10 : ℚ) ≤ 1)]
  exact ⟨fun hge => le_antisymm (garbageFraction_le_one s.memIndex file) hge, fun heq => heq.ge⟩

/-- The selection for a ratio up to 1 is right only if its files are the loaded ones. -/
theorem SelectsGarbage.loadedSealed_perm (h : s.SelectsGarbage)
    (hmeta : NoValidBytes s.fileMetadata) {minGarbageRatio : ℚ} (hle : minGarbageRatio ≤ 1) :
    s.loadedSealed.Perm ((s.garbageFiles minGarbageRatio).map FileInfo.fileId) := by
  obtain ⟨files, hperm, hids, -⟩ := h minGarbageRatio _
    ((isSelection_iff_of_le_one hmeta hle).mpr (List.Perm.refl _))
  rw [loadedSealed, hids]
  exact hperm.map _

/-- **When the selection is the right one** in a state without valid bytes. -/
theorem selectsGarbage_iff (hmeta : NoValidBytes s.fileMetadata) :
    s.SelectsGarbage ↔ s.OnlyEmptiedFiles := by
  constructor
  · intro h
    have hone := h.loadedSealed_perm hmeta le_rfl
    rw [s.garbageFiles_one] at hone
    refine ⟨hone, fun file hfile hsealed => ?_⟩
    -- as many files are selected for the ratio 3/10 as for the ratio 1
    have hthird := h.loadedSealed_perm hmeta (by norm_num : (3 / 10 : ℚ) ≤ 1)
    have hlength := (hone.symm.trans hthird).length_eq
    rw [List.length_map, List.length_map] at hlength
    by_contra hboth
    obtain ⟨hge, hne⟩ := not_or.mp hboth
    have hsub : (s.files.filter fun file =>
        file.state == .kSealed && decide (s.fraction file = 1)).Sublist
          (s.garbageFiles (3 / 10)) := by
      refine List.monotone_filter_right _ fun file hfile => ?_
      rw [Bool.and_eq_true, decide_eq_true_eq] at hfile ⊢
      refine ⟨hfile.1, ?_⟩
      rw [hfile.2]
      norm_num
    have hmem : file ∈ s.garbageFiles (3 / 10) := by
      refine List.mem_filter.mpr ⟨hfile, ?_⟩
      rw [Bool.and_eq_true, decide_eq_true_eq, max_self]
      exact ⟨beq_iff_eq.mpr hsealed, not_lt.mp hge⟩
    rw [← hsub.eq_of_length hlength] at hmem
    obtain ⟨-, hfraction⟩ := List.mem_filter.mp hmem
    rw [Bool.and_eq_true, decide_eq_true_eq] at hfraction
    exact hne hfraction.2
  · intro h minGarbageRatio out hout
    rcases le_or_gt minGarbageRatio 1 with hle | hlt
    · have hperm := ((isSelection_iff_of_le_one hmeta hle).mp hout).map FileMetadata.fileId
      obtain ⟨files, hfiles, hids⟩ := exists_perm_of_map_perm (hperm.trans h.1)
      rw [garbageFiles_eq_of_le_one h hle]
      refine ⟨files, hfiles, hids, List.pairwise_of_forall_mem_list fun a ha b hb => ?_⟩
      have hone : ∀ file ∈ files, s.fraction file = 1 := by
        intro file hfile
        obtain ⟨-, hfraction⟩ := List.mem_filter.mp (hfiles.mem_iff.mp hfile)
        rw [Bool.and_eq_true, decide_eq_true_eq] at hfraction
        exact hfraction.2
      rw [hone a ha, hone b hb]
    · have hnil := hout.1
      rw [compactionCandidates_eq hmeta, if_neg (not_le.mpr hlt)] at hnil
      rw [s.garbageFiles_eq_nil hlt, hnil.eq_nil]
      exact ⟨[], List.Perm.refl _, rfl, .nil⟩

/-- Two records of one key fill a file, and a third goes to the next one. -/
def overwriteAndSwitch : List (CompactionEvent 3) :=
  [.put 1 100, .wake true, .put 1 100, .wake true, .put 2 100, .wake true, .wake true].map .engine

end CompactionSystem

end SpdkKv
