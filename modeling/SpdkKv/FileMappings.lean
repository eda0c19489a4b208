import Mathlib.Data.List.Nodup
import SpdkKv.FileSpace

/-!
# What the Superblock Takes Over

Before a superblock is written, `update_superblock_file_mapping` is called for every file. It
overwrites the mapping with the id of the file, or adds one while there is room, and never
removes any.

## Main results

* `SuperblockFiles.mem_updateAll_iff`: **the mappings afterwards** are those of the files and
  the old ones of other ids, when no id occurs twice and there is room.
-/

namespace SpdkKv

namespace SuperblockFiles

variable {self : SuperblockFiles} {file : FileInfo} {files : List FileInfo}

/-- The ids that are mapped. -/
def fileIds (self : SuperblockFiles) : List ℕ := self.fileMappings.map FileMapping.fileId

/-- The blobs that are mapped. -/
def blobIds (self : SuperblockFiles) : List ℕ := self.fileMappings.map FileMapping.blobId

/-- The mappings of files that are not mapped yet can all be added. -/
def HasRoomFor (self : SuperblockFiles) (files : List FileInfo) : Prop :=
  self.fileMappings.length + (files.filter fun f => f.fileId ∉ self.fileIds).length ≤
    kMaxFileCount

instance (self : SuperblockFiles) (files : List FileInfo) : Decidable (self.HasRoomFor files) :=
  inferInstanceAs (Decidable (_ ≤ _))

theorem findIdx?_fileId_eq_none (h : file.fileId ∉ self.fileIds) :
    (self.fileMappings.findIdx? fun m => m.fileId == file.fileId) = none := by
  rw [List.findIdx?_eq_none_iff]
  intro m hm
  simp only [beq_eq_false_iff_ne]
  exact fun heq => h (heq ▸ List.mem_map_of_mem hm)

/-- A mapped file keeps its place. -/
theorem updateFileMapping_of_mem (h : file.fileId ∈ self.fileIds) :
    ∃ i old, self.fileMappings[i]? = some old ∧ old.fileId = file.fileId ∧
      self.updateFileMapping file =
        { self with fileMappings := self.fileMappings.set i (.ofFile file) } := by
  obtain ⟨m, hm, hid⟩ := List.mem_map.mp h
  cases hi : self.fileMappings.findIdx? fun m => m.fileId == file.fileId with
  | none =>
      have := List.findIdx?_eq_none_iff.mp hi m hm
      simp [hid] at this
  | some i =>
      obtain ⟨hlt, heq, -⟩ := List.findIdx?_eq_some_iff_getElem.mp hi
      refine ⟨i, self.fileMappings[i], List.getElem?_eq_getElem hlt, by simpa using heq, ?_⟩
      rw [updateFileMapping, hi]

/-- A new file is added at the end. -/
theorem updateFileMapping_of_not_mem (h : file.fileId ∉ self.fileIds)
    (hroom : self.fileMappings.length < kMaxFileCount) :
    self.updateFileMapping file =
      { self with fileMappings := self.fileMappings ++ [.ofFile file] } := by
  rw [updateFileMapping, findIdx?_fileId_eq_none h]
  exact if_pos hroom

/-- A new file for which there is no room is left out. -/
theorem updateFileMapping_of_full (h : file.fileId ∉ self.fileIds)
    (hroom : kMaxFileCount ≤ self.fileMappings.length) : self.updateFileMapping file = self := by
  rw [updateFileMapping, findIdx?_fileId_eq_none h]
  exact if_neg (not_lt.mpr hroom)

/-! ### Ids -/

theorem fileIds_updateFileMapping_of_mem (h : file.fileId ∈ self.fileIds) :
    (self.updateFileMapping file).fileIds = self.fileIds := by
  obtain ⟨i, old, hold, hid, heq⟩ := updateFileMapping_of_mem h
  rw [heq, fileIds, fileIds]
  dsimp only
  rw [List.map_set]
  have hget : (self.fileMappings.map FileMapping.fileId)[i]? = some file.fileId := by
    rw [List.getElem?_map, hold, Option.map_some, hid]
  obtain ⟨hlt, hget⟩ := List.getElem?_eq_some_iff.mp hget
  exact (congrArg _ hget.symm).trans (List.set_getElem_self hlt)

theorem fileIds_updateFileMapping_of_not_mem (h : file.fileId ∉ self.fileIds)
    (hroom : self.fileMappings.length < kMaxFileCount) :
    (self.updateFileMapping file).fileIds = self.fileIds ++ [file.fileId] := by
  rw [updateFileMapping_of_not_mem h hroom, fileIds, fileIds, List.map_append]
  rfl

theorem nodup_fileIds_updateFileMapping (h : self.fileIds.Nodup) (file : FileInfo) :
    (self.updateFileMapping file).fileIds.Nodup := by
  by_cases hmem : file.fileId ∈ self.fileIds
  · rwa [fileIds_updateFileMapping_of_mem hmem]
  · by_cases hroom : self.fileMappings.length < kMaxFileCount
    · rw [fileIds_updateFileMapping_of_not_mem hmem hroom]
      exact List.concat_eq_append ▸ h.concat hmem
    · rwa [updateFileMapping_of_full hmem (not_lt.mp hroom)]

theorem nodup_fileIds_updateAll (h : self.fileIds.Nodup) (files : List FileInfo) :
    (self.updateAll files).fileIds.Nodup := by
  rw [updateAll]
  induction files generalizing self with
  | nil => exact h
  | cons file files ih => exact ih (nodup_fileIds_updateFileMapping h file)

/-! ### Mappings -/

/-- The mappings of other ids are kept. -/
theorem mem_updateFileMapping_of_ne {m : FileMapping} (hm : m ∈ self.fileMappings)
    (hne : m.fileId ≠ file.fileId) : m ∈ (self.updateFileMapping file).fileMappings := by
  by_cases hmem : file.fileId ∈ self.fileIds
  · obtain ⟨i, old, hold, hid, heq⟩ := updateFileMapping_of_mem hmem
    rw [heq]
    obtain ⟨j, hj⟩ := List.mem_iff_getElem?.mp hm
    have hij : i ≠ j := by
      rintro rfl
      rw [Option.some.inj (hj.symm.trans hold)] at hne
      exact hne hid
    refine List.mem_of_getElem? (i := j) ?_
    rwa [List.getElem?_set_ne hij]
  · by_cases hroom : self.fileMappings.length < kMaxFileCount
    · rw [updateFileMapping_of_not_mem hmem hroom]
      exact List.mem_append_left _ hm
    · rwa [updateFileMapping_of_full hmem (not_lt.mp hroom)]

/-- The mapping of the file is there, unless there was no room for it. -/
theorem ofFile_mem_updateFileMapping
    (h : file.fileId ∈ self.fileIds ∨ self.fileMappings.length < kMaxFileCount) :
    .ofFile file ∈ (self.updateFileMapping file).fileMappings := by
  by_cases hmem : file.fileId ∈ self.fileIds
  · obtain ⟨i, old, hold, -, heq⟩ := updateFileMapping_of_mem hmem
    rw [heq]
    exact List.mem_set (List.getElem?_eq_some_iff.mp hold).1 _
  · rw [updateFileMapping_of_not_mem hmem (h.resolve_left hmem)]
    exact List.mem_append_right _ (List.mem_singleton.mpr rfl)

/-- There is room for the first file, and then for the others. -/
theorem HasRoomFor.cons (h : self.HasRoomFor (file :: files))
    (hne : file.fileId ∉ files.map FileInfo.fileId) :
    (file.fileId ∈ self.fileIds ∨ self.fileMappings.length < kMaxFileCount) ∧
      (self.updateFileMapping file).HasRoomFor files := by
  rw [HasRoomFor, List.filter_cons] at h
  by_cases hmem : file.fileId ∈ self.fileIds
  · refine ⟨.inl hmem, ?_⟩
    rw [if_neg (by simpa using hmem)] at h
    have hlen : (self.updateFileMapping file).fileMappings.length = self.fileMappings.length := by
      have := congrArg List.length (fileIds_updateFileMapping_of_mem hmem)
      rwa [fileIds, fileIds, List.length_map, List.length_map] at this
    rwa [HasRoomFor, fileIds_updateFileMapping_of_mem hmem, hlen]
  · rw [if_pos (by simpa using hmem), List.length_cons] at h
    have hroom : self.fileMappings.length < kMaxFileCount := by omega
    refine ⟨.inr hroom, ?_⟩
    have hfilter : (files.filter fun f => f.fileId ∉ self.fileIds ++ [file.fileId]) =
        files.filter fun f => f.fileId ∉ self.fileIds := by
      refine List.filter_congr fun f hf => ?_
      have : f.fileId ≠ file.fileId := fun heq => hne (heq ▸ List.mem_map_of_mem hf)
      simp [this]
    rw [HasRoomFor, fileIds_updateFileMapping_of_not_mem hmem hroom, hfilter,
      updateFileMapping_of_not_mem hmem hroom]
    dsimp only
    rw [List.length_append, List.length_singleton]
    omega

/-- The mappings of ids that no file has are kept. -/
theorem mem_updateAll_of_not_mem {m : FileMapping} (hm : m ∈ self.fileMappings)
    (hid : m.fileId ∉ files.map FileInfo.fileId) : m ∈ (self.updateAll files).fileMappings := by
  rw [updateAll]
  induction files generalizing self with
  | nil => exact hm
  | cons file files ih =>
      rw [List.map_cons, List.mem_cons, not_or] at hid
      exact ih (mem_updateFileMapping_of_ne hm hid.1) hid.2

/-- Every file is mapped as it is. -/
theorem ofFile_mem_updateAll (hfiles : (files.map FileInfo.fileId).Nodup)
    (hroom : self.HasRoomFor files) (hfile : file ∈ files) :
    .ofFile file ∈ (self.updateAll files).fileMappings := by
  induction files generalizing self with
  | nil => cases hfile
  | cons first files ih =>
      rw [List.map_cons, List.nodup_cons] at hfiles
      obtain ⟨hplace, hroom⟩ := hroom.cons hfiles.1
      rcases List.mem_cons.mp hfile with rfl | hfile
      · rw [updateAll, List.foldl_cons]
        exact mem_updateAll_of_not_mem (ofFile_mem_updateFileMapping hplace) hfiles.1
      · exact ih hfiles.2 hroom hfile

/-- The only mapping of a file's id is that of the file. -/
theorem eq_ofFile_of_mem_updateFileMapping (hnodup : self.fileIds.Nodup) {m : FileMapping}
    (hm : m ∈ (self.updateFileMapping file).fileMappings) (hid : m.fileId = file.fileId) :
    m = .ofFile file := by
  by_cases hplace : file.fileId ∈ self.fileIds ∨ self.fileMappings.length < kMaxFileCount
  · exact List.inj_on_of_nodup_map (nodup_fileIds_updateFileMapping hnodup file) hm
      (ofFile_mem_updateFileMapping hplace) hid
  · rw [not_or] at hplace
    rw [updateFileMapping_of_full hplace.1 (not_lt.mp hplace.2)] at hm
    exact absurd (hid ▸ List.mem_map_of_mem hm) hplace.1

theorem eq_ofFile_of_mem_updateAll (hnodup : self.fileIds.Nodup)
    (hfiles : (files.map FileInfo.fileId).Nodup) {m : FileMapping}
    (hm : m ∈ (self.updateAll files).fileMappings) (hfile : file ∈ files)
    (hid : m.fileId = file.fileId) : m = .ofFile file := by
  induction files generalizing self with
  | nil => cases hfile
  | cons first files ih =>
      rw [List.map_cons, List.nodup_cons] at hfiles
      have hnodup' := nodup_fileIds_updateFileMapping hnodup first
      rcases List.mem_cons.mp hfile with rfl | hfile
      · have hrest : m ∈ ((self.updateFileMapping file).updateAll files).fileMappings := hm
        rcases mem_updateAll hrest with hm | ⟨g, hg, rfl⟩
        · exact eq_ofFile_of_mem_updateFileMapping hnodup hm hid
        · exact absurd (hid ▸ List.mem_map_of_mem hg) hfiles.1
      · exact ih hnodup' hfiles.2 hm hfile

/-- **The mappings afterwards**: those of the files, and those of other ids. -/
theorem mem_updateAll_iff (hnodup : self.fileIds.Nodup)
    (hfiles : (files.map FileInfo.fileId).Nodup) (hroom : self.HasRoomFor files)
    {m : FileMapping} : m ∈ (self.updateAll files).fileMappings ↔
      (∃ file ∈ files, m = .ofFile file) ∨
        (m ∈ self.fileMappings ∧ m.fileId ∉ files.map FileInfo.fileId) := by
  constructor
  · intro hm
    rcases mem_updateAll hm with hold | hfile
    · by_cases hid : m.fileId ∈ files.map FileInfo.fileId
      · obtain ⟨file, hfile, heq⟩ := List.mem_map.mp hid
        exact .inl ⟨file, hfile, eq_ofFile_of_mem_updateAll hnodup hfiles hm hfile heq.symm⟩
      · exact .inr ⟨hold, hid⟩
    · exact .inl hfile
  · rintro (⟨file, hfile, rfl⟩ | ⟨hm, hid⟩)
    · exact ofFile_mem_updateAll hfiles hroom hfile
    · exact mem_updateAll_of_not_mem hm hid

end SuperblockFiles

end SpdkKv
