import SpdkKv.FileRefine
import SpdkKv.Lib.NumberedTable

/-!
# The Table of Data Files

`files_` gets its entries at the end and loses them there when an allocation fails; the ids
come from `next_file_id_`. Several allocations can be under way at a time, and the code takes
the last file for the one of the allocation that ends. As long as it is, and the counter
does not run over, the ids are distinct and below the counter.

## Main results

* `FileStore.TableOk`: the invariant of the table.
* `FileStore.tableOk_act`: every act that meets `FileStore.OwnsLastFile` keeps it.
* `EngineSystem.file_table_ok`: **in every run of the engine whose events meet the condition
  the table is in order, and every allocation that ends settles its own file**.
-/

namespace SpdkKv

/-! ### Ids of files -/

namespace FileSpace

variable {W : Type}

/-- The ids of the files. -/
def fileIds (self : FileSpace W) : List ℕ := self.files.map FileInfo.fileId

@[simp] theorem length_fileIds (self : FileSpace W) :
    self.fileIds.length = self.files.length := List.length_map ..

theorem getElem?_fileIds (self : FileSpace W) {i : ℕ} (hi : i < self.files.length) :
    self.fileIds[i]? = some (self.fileAt i).fileId := by
  rw [fileIds, List.getElem?_map, fileAt, List.getElem?_eq_getElem hi]
  rfl

/-- Writing through a pointer to a file does not change ids. -/
theorem fileIds_modifyFile (self : FileSpace W) (i : ℕ) {f : FileInfo → FileInfo}
    (hf : ∀ file, (f file).fileId = file.fileId) :
    (self.modifyFile i f).fileIds = self.fileIds := by
  refine List.ext_getElem? fun j => ?_
  rw [fileIds, fileIds, modifyFile, List.getElem?_map, List.getElem?_map, List.getElem?_modify]
  cases self.files[j]? with
  | none => rfl
  | some file =>
      change some (FileInfo.fileId (if i = j then f file else file)) = some file.fileId
      split_ifs
      · rw [hf]
      · rfl

theorem fileIds_finishNewFile (self : FileSpace W) (i : ℕ) :
    (self.finishNewFile i).fileIds = self.fileIds :=
  self.fileIds_modifyFile i fun _ => rfl

theorem fileId_fileAt_finishNewFile (self : FileSpace W) (i j : ℕ) :
    ((self.finishNewFile i).fileAt j).fileId = (self.fileAt j).fileId :=
  self.apply_fileAt_modifyFile i j fun _ => rfl

theorem fileIds_pushNewFile (self : FileSpace W) :
    self.pushNewFile.fileIds = self.fileIds ++ [self.nextFileId] := List.map_append ..

theorem fileIds_dropNewFile (self : FileSpace W) :
    self.dropNewFile.fileIds = self.fileIds.dropLast := List.map_dropLast ..

end FileSpace

/-! ### The invariant -/

/-- The superblock has room for so many files. -/
def SuperblockFiles.Fits (superblock : SuperblockFiles) : Prop :=
  superblock.fileMappings.length ≤ kMaxFileCount

namespace SuperblockFiles

variable {superblock : SuperblockFiles}

theorem Fits.updateFileMapping (h : superblock.Fits) (file : FileInfo) :
    (superblock.updateFileMapping file).Fits := by
  rw [SuperblockFiles.updateFileMapping]
  split
  · rw [Fits, List.length_set]
    exact h
  · split_ifs with hlt
    · rw [Fits, List.length_append]
      exact hlt
    · exact h

theorem Fits.updateAll (h : superblock.Fits) (files : List FileInfo) :
    (superblock.updateAll files).Fits := by
  rw [SuperblockFiles.updateAll]
  induction files generalizing superblock with
  | nil => exact h
  | cons file files ih => exact ih (h.updateFileMapping file)

theorem Fits.addLogged (h : superblock.Fits) (logged : List (ℕ × ℕ)) :
    (superblock.addLogged logged).Fits := by
  rw [Fits, SuperblockFiles.addLogged, List.length_append, List.length_take]
  rw [Fits] at h
  omega

end SuperblockFiles

namespace FileStore

variable {W : Type}

/-- The files of the allocations under way. -/
def pendingFiles (self : FileStore W) : List ℕ := self.space.newFile.toList ++ self.allocs

/-- The table is in order. -/
structure TableOk (st : FileStore W) : Prop where
  numbering : NumberedTable st.space.fileIds st.space.nextFileId st.pendingFiles
  next_lt : st.space.nextFileId < 2 ^ 16
  superblock : st.space.superblock.Fits
  writing : ∀ superblock, st.writing = some superblock → superblock.Fits
  persisted : st.persisted.Fits

/-- The condition for the table: the counter does not run over; an allocation ends while its
file is the last one, unless it is a synchronous one that ends well; `open` finds distinct
ids below their number. -/
def OwnsLastFile (st : FileStore W) : FileAct W → Prop
  | .beginAsync => st.space.nextFileId + 1 < 2 ^ 16
  | .beginAlloc => st.space.nextFileId + 1 < 2 ^ 16
  | .endAsync _ => ∀ i ∈ st.space.newFile, i + 1 = st.space.files.length
  | .failAlloc => ∀ i ∈ st.allocs.head?, i + 1 = st.space.files.length
  | .reopen logged =>
      ((st.persisted.addLogged logged).fileMappings.map FileMapping.fileId).Nodup ∧
        ∀ m ∈ (st.persisted.addLogged logged).fileMappings,
          m.fileId < (st.persisted.addLogged logged).fileMappings.length
  | _ => True

instance decidableOwnsLastFile (st : FileStore W) (act : FileAct W) :
    Decidable (st.OwnsLastFile act) :=
  match act with
  | .beginAsync => inferInstanceAs (Decidable (_ < _))
  | .beginAlloc => inferInstanceAs (Decidable (_ < _))
  | .endAsync _ => inferInstanceAs (Decidable (∀ i ∈ st.space.newFile, _ = _))
  | .failAlloc => inferInstanceAs (Decidable (∀ i ∈ st.allocs.head?, _ = _))
  | .reopen _ => inferInstanceAs (Decidable (_ ∧ ∀ m ∈ _, _ < _))
  | .mark _ _ | .flags _ _ _ | .submit _ _ | .drain _ _ | .complete _ _ | .wait _ | .endWait _
  | .endAlloc _ | .migrate _ _ _ | .discard _ | .updateSuperblock _ _ _
  | .superblockWritten _ => .isTrue trivial

namespace TableOk

variable {st : FileStore W}

theorem pending_lt (h : st.TableOk) : ∀ i ∈ st.pendingFiles, i < st.space.files.length := by
  intro i hi
  rw [← FileSpace.length_fileIds]
  exact (h.numbering.consecutive i hi).1

/-- The file of the asynchronous allocation, and those of the others. -/
theorem pending_of_newFile (h : st.TableOk) {i : ℕ} (hi : st.space.newFile = some i) :
    i ∈ st.pendingFiles ∧ ∀ j ∈ st.allocs, j ∈ st.pendingFiles ∧ j ≠ i := by
  have hpending : st.pendingFiles = i :: st.allocs := by
    rw [pendingFiles, hi]
    rfl
  have hnodup := h.numbering.pending_nodup
  rw [hpending] at hnodup ⊢
  refine ⟨List.mem_cons_self, fun j hj => ⟨List.mem_cons_of_mem _ hj, ?_⟩⟩
  rintro rfl
  exact (List.nodup_cons.mp hnodup).1 hj

/-- The file of the innermost synchronous allocation, and those of the others. -/
theorem pending_of_allocs (h : st.TableOk) {i : ℕ} {rest : List ℕ}
    (hallocs : st.allocs = i :: rest) :
    i ∈ st.pendingFiles ∧
      ∀ j ∈ st.space.newFile.toList ++ rest, j ∈ st.pendingFiles ∧ j ≠ i := by
  have hperm : st.pendingFiles.Perm (i :: (st.space.newFile.toList ++ rest)) := by
    rw [pendingFiles, hallocs]
    exact List.perm_middle
  have hnodup := hperm.nodup h.numbering.pending_nodup
  refine ⟨hperm.symm.subset List.mem_cons_self, fun j hj =>
    ⟨hperm.symm.subset (List.mem_cons_of_mem _ hj), ?_⟩⟩
  rintro rfl
  exact (List.nodup_cons.mp hnodup).1 hj

/-- What is no concern of the table. -/
theorem congr (h : st.TableOk) {st' : FileStore W} (hids : st'.space.fileIds = st.space.fileIds)
    (hnext : st'.space.nextFileId = st.space.nextFileId)
    (hpending : st'.pendingFiles.Subperm st.pendingFiles)
    (hsuperblock : st'.space.superblock.Fits)
    (hwriting : ∀ superblock, st'.writing = some superblock → superblock.Fits)
    (hpersisted : st'.persisted.Fits) : st'.TableOk where
  numbering := by
    rw [hids, hnext]
    exact h.numbering.mono hpending
  next_lt := hnext ▸ h.next_lt
  superblock := hsuperblock
  writing := hwriting
  persisted := hpersisted

/-- Only a file changes, and keeps its id. -/
theorem modifyFile (h : st.TableOk) (i : ℕ) {f : FileInfo → FileInfo}
    (hf : ∀ file, (f file).fileId = file.fileId) :
    TableOk { st with space := st.space.modifyFile i f } :=
  h.congr (st.space.fileIds_modifyFile i hf) rfl (List.Subperm.refl _) h.superblock h.writing
    h.persisted

theorem submitAt (h : st.TableOk) (i size : ℕ) (write : FileInfo → W) :
    TableOk { st with space := st.space.submitAt i size write } :=
  h.congr (st.space.fileIds_modifyFile i fun _ => rfl) rfl (List.Subperm.refl _) h.superblock
    h.writing h.persisted

theorem activate (h : st.TableOk) {i : ℕ} :
    TableOk { st with space := st.space.activate i } :=
  h.congr rfl rfl (List.Subperm.refl _) h.superblock h.writing h.persisted

theorem beginAsync (h : st.TableOk) (hnext : st.space.nextFileId + 1 < 2 ^ 16) :
    TableOk { st with space := st.space.beginAsync } where
  numbering := by
    have hpush := (h.numbering.mono (List.sublist_append_right _ _).subperm :
      NumberedTable _ _ st.allocs).push
    rw [← Nat.mod_eq_of_lt hnext, FileSpace.length_fileIds] at hpush
    change NumberedTable st.space.pushNewFile.fileIds _ _
    rw [FileSpace.fileIds_pushNewFile]
    exact hpush
  next_lt := Nat.mod_lt _ (by decide)
  superblock := h.superblock
  writing := h.writing
  persisted := h.persisted

theorem beginAlloc (h : st.TableOk) (hnext : st.space.nextFileId + 1 < 2 ^ 16) :
    TableOk { st with
      space := st.space.pushNewFile
      allocs := st.space.files.length :: st.allocs } where
  numbering := by
    have hpush := h.numbering.push
    rw [← Nat.mod_eq_of_lt hnext, FileSpace.length_fileIds] at hpush
    change NumberedTable st.space.pushNewFile.fileIds _ _
    rw [FileSpace.fileIds_pushNewFile]
    exact hpush.mono List.perm_middle.subperm
  next_lt := Nat.mod_lt _ (by decide)
  superblock := h.superblock
  writing := h.writing
  persisted := h.persisted

/-- The blob of a file is opened, and the superblock knows the file. -/
theorem finishNewFile (h : st.TableOk) (i : ℕ) {pending : List ℕ}
    (hpending : (st.space.newFile.toList ++ pending).Subperm st.pendingFiles) :
    TableOk { st with space := st.space.finishNewFile i, allocs := pending } :=
  h.congr (st.space.fileIds_finishNewFile i) rfl hpending (h.superblock.updateFileMapping _)
    h.writing h.persisted

/-- The last file is removed, which an allocation has added. -/
theorem dropNewFile (h : st.TableOk) {i : ℕ} (hi : i ∈ st.pendingFiles)
    (hlast : i + 1 = st.space.files.length) {st' : FileStore W}
    (hids : st'.space.fileIds = st.space.fileIds.dropLast)
    (hnext : st'.space.nextFileId = st.space.dropNewFile.nextFileId)
    (hpending : st'.pendingFiles.Subperm (st.pendingFiles.erase i))
    (hsuperblock : st'.space.superblock = st.space.superblock)
    (hwriting : st'.writing = st.writing) (hpersisted : st'.persisted = st.persisted) :
    st'.TableOk where
  numbering := by
    have hlast' : i + 1 = st.space.fileIds.length := by rw [FileSpace.length_fileIds, hlast]
    have hnumber := h.numbering.last hi hlast'
      (st.space.getElem?_fileIds (hlast ▸ Nat.lt_succ_self i))
    have heq : st.space.dropNewFile.nextFileId = st.space.nextFileId - 1 := by
      have hlt := h.next_lt
      change (st.space.nextFileId + (2 ^ 16 - 1)) % 2 ^ 16 = _
      omega
    rw [hids, hnext, heq]
    exact (h.numbering.pop hi hlast').mono hpending
  next_lt := by
    rw [hnext]
    exact Nat.mod_lt _ (by decide)
  superblock := hsuperblock ▸ h.superblock
  writing := hwriting ▸ h.writing
  persisted := hpersisted ▸ h.persisted

theorem reopen (h : st.TableOk) {logged : List (ℕ × ℕ)}
    (hnodup : ((st.persisted.addLogged logged).fileMappings.map FileMapping.fileId).Nodup)
    (hlt : ∀ m ∈ (st.persisted.addLogged logged).fileMappings,
      m.fileId < (st.persisted.addLogged logged).fileMappings.length) :
    TableOk (W := W) { st with
      space := .reopened st.space.dataFileSize st.space.nextBlobId st.persisted logged
      allocs := []
      waits := []
      runs := []
      writing := none } := by
  have hfits := h.persisted.addLogged logged
  by_cases hnil : (st.persisted.addLogged logged).fileMappings = []
  · rw [FileSpace.reopened_eq_of_nil _ _ hnil]
    have hone : (1 : ℕ) ≤ kMaxFileCount := by decide
    have hnext : (1 : ℕ) < 2 ^ 16 := by decide
    refine ⟨⟨List.nodup_singleton _, ?_, .nil, ?_⟩, hnext, hone, by simp, h.persisted⟩
    · simp [FileSpace.fileIds, FileInfo.opened, FileInfo.fresh]
    · simp [pendingFiles]
  · rw [FileSpace.reopened_eq _ _ hnil]
    refine ⟨⟨?_, ?_, .nil, ?_⟩, ?_, hfits, by simp, h.persisted⟩
    · rw [FileSpace.fileIds, List.map_map]
      exact hnodup
    · rw [FileSpace.fileIds, List.map_map]
      intro x hx
      obtain ⟨m, hm, rfl⟩ := List.mem_map.mp hx
      exact hlt m hm
    · simp [pendingFiles]
    · exact lt_of_le_of_lt hfits (by decide)

end TableOk

/-- **Every act that meets the condition keeps the table in order.** -/
theorem tableOk_act {st st' : FileStore W} {act : FileAct W} (h : st.TableOk)
    (hc : st.OwnsLastFile act) (hs : st.act act = some st') : st'.TableOk := by
  cases act with
  | mark i state =>
      obtain rfl := Option.some.inj hs
      exact h.modifyFile i fun _ => rfl
  | flags allocating pendingCheckpoint nearFull =>
      obtain rfl := Option.some.inj hs
      exact h.congr rfl rfl (List.Subperm.refl _) h.superblock h.writing h.persisted
  | submit size write =>
      obtain ⟨i, -, rfl⟩ := Option.map_eq_some_iff.mp hs
      exact h.submitAt i size write
  | drain size write =>
      obtain ⟨i, -, rfl⟩ := Option.map_eq_some_iff.mp hs
      exact h.submitAt i size write
  | complete i ranges =>
      obtain ⟨io, -, hs⟩ := Option.bind_eq_some_iff.mp hs
      obtain ⟨-, hs⟩ := Option.ite_none_right_eq_some.mp hs
      obtain rfl := Option.some.inj hs
      exact h.congr rfl rfl (List.Subperm.refl _) h.superblock h.writing h.persisted
  | wait size =>
      obtain ⟨i, -, rfl⟩ := Option.map_eq_some_iff.mp hs
      exact h.congr rfl rfl (List.Subperm.refl _) h.superblock h.writing h.persisted
  | endWait ok =>
      rw [FileStore.act] at hs
      split at hs
      · cases hs
      · next w rest hwaits =>
          cases ok with
          | false =>
              obtain rfl := Option.some.inj hs
              exact h.congr rfl rfl (List.Subperm.refl _) h.superblock h.writing h.persisted
          | true =>
              obtain ⟨-, hs⟩ := Option.ite_none_right_eq_some.mp hs
              obtain rfl := Option.some.inj hs
              exact h.congr (st.space.fileIds_modifyFile _ fun _ => rfl) rfl (List.Subperm.refl _)
                h.superblock h.writing h.persisted
  | beginAsync =>
      obtain rfl := Option.some.inj hs
      exact h.beginAsync hc
  | endAsync ok =>
      obtain ⟨i, hi, rfl⟩ := Option.map_eq_some_iff.mp hs
      have hpending : st.pendingFiles = i :: st.allocs := by rw [pendingFiles, hi]; rfl
      have hsub : st.allocs.Subperm st.pendingFiles := hpending ▸ (List.sublist_cons_self ..).subperm
      cases ok with
      | false =>
          refine h.dropNewFile (hpending ▸ List.mem_cons_self) (hc i hi)
            st.space.fileIds_dropNewFile rfl ?_ rfl rfl rfl
          rw [hpending, List.erase_cons_head]
          exact List.Subperm.refl _
      | true =>
          rw [FileSpace.onNewFileAllocated_true hi (hc i hi)]
          exact h.congr (FileSpace.fileIds_finishNewFile _ i) rfl hsub
            (h.superblock.updateFileMapping _) h.writing h.persisted
  | beginAlloc =>
      obtain rfl := Option.some.inj hs
      exact h.beginAlloc hc
  | endAlloc use =>
      rw [FileStore.act] at hs
      split at hs
      · cases hs
      · next i rest hallocs =>
          obtain rfl := Option.some.inj hs
          have hfinish : TableOk { st with space := st.space.finishNewFile i, allocs := rest } := by
            refine h.finishNewFile i ?_
            rw [pendingFiles, hallocs]
            exact ((List.Sublist.refl _).append (List.sublist_cons_self ..)).subperm
          cases use with
          | sync size =>
              exact hfinish.congr rfl rfl (List.Subperm.refl _) hfinish.superblock h.writing
                h.persisted
          | buffer size write => exact hfinish.activate.submitAt i size write
          | compaction source =>
              exact hfinish.congr rfl rfl (List.Subperm.refl _) hfinish.superblock h.writing
                h.persisted
  | failAlloc =>
      rw [FileStore.act] at hs
      split at hs
      · cases hs
      · next i rest hallocs =>
          obtain rfl := Option.some.inj hs
          have hmem : i ∈ st.pendingFiles := by
            rw [pendingFiles, hallocs]
            exact List.mem_append_right _ List.mem_cons_self
          refine h.dropNewFile hmem (hc i (by rw [hallocs]; rfl)) st.space.fileIds_dropNewFile rfl
            ?_ rfl rfl rfl
          have hperm : st.pendingFiles.Perm (i :: (st.space.newFile.toList ++ rest)) := by
            rw [pendingFiles, hallocs]
            exact List.perm_middle
          have herase := hperm.erase i
          rw [List.erase_cons_head] at herase
          exact herase.symm.subperm
  | migrate k size ok =>
      obtain ⟨run, -, hs⟩ := Option.bind_eq_some_iff.mp hs
      cases ok with
      | false =>
          obtain rfl := Option.some.inj hs
          exact h
      | true =>
          obtain ⟨-, hs⟩ := Option.ite_none_right_eq_some.mp hs
          obtain rfl := Option.some.inj hs
          exact h.congr (st.space.fileIds_modifyFile _ fun _ => rfl) rfl (List.Subperm.refl _)
            h.superblock h.writing h.persisted
  | discard k =>
      obtain ⟨run, -, rfl⟩ := Option.map_eq_some_iff.mp hs
      exact h.congr (st.space.fileIds_modifyFile _ fun _ => rfl) rfl (List.Subperm.refl _)
        h.superblock h.writing h.persisted
  | updateSuperblock position dataBytes garbageBytes =>
      obtain rfl := Option.some.inj hs
      have hfits := h.superblock.updateAll st.space.files
      refine h.congr rfl rfl (List.Subperm.refl _) hfits (fun superblock hsb => ?_) h.persisted
      obtain rfl := Option.some.inj hsb
      exact hfits
  | superblockWritten ok =>
      obtain ⟨superblock, hsb, rfl⟩ := Option.map_eq_some_iff.mp hs
      refine h.congr rfl rfl (List.Subperm.refl _) h.superblock (by simp) ?_
      cases ok with
      | false => exact h.persisted
      | true => exact h.writing superblock hsb
  | reopen logged =>
      obtain ⟨-, hs⟩ := Option.ite_none_right_eq_some.mp hs
      obtain rfl := Option.some.inj hs
      exact h.reopen hc.1 hc.2

/-! ### The table of the engine -/

end FileStore

namespace EngineSystem

variable {n : ℕ}

/-- The ids of the files are distinct, and the next one is greater. -/
structure FileIdsOk (s : EngineSystem n) : Prop where
  nodup : s.engine.space.fileIds.Nodup
  lt : ∀ x ∈ s.engine.space.fileIds, x < s.engine.space.nextFileId

/-- What an event settles: a failed allocation removes exactly the file it added, and after
a successful asynchronous one the file it added is the active one. -/
structure SettlesAllocation (s : EngineSystem n) (ev : EngineEvent n) (s' : EngineSystem n) :
    Prop where
  sync_failed : ∀ i caller rest, s.stack = .allocating i caller :: rest → ev = .wake false →
    i < s.engine.space.files.length ∧
      s'.engine.space.files = s.engine.space.files.eraseIdx i
  async_failed : ∀ i, s.engine.space.newFile = some i → ev = .async (.newFileAllocated false) →
    i < s.engine.space.files.length ∧
      s'.engine.space.files = s.engine.space.files.eraseIdx i
  async_succeeded : ∀ i, s.engine.space.newFile = some i →
    ev = .async (.newFileAllocated true) →
    i < s.engine.space.files.length ∧
      s'.engine.space.activeFileId = (s.engine.space.fileAt i).fileId

/-- The condition for the table, for an event. -/
def OwnsLastFile (s : EngineSystem n) (ev : EngineEvent n) : Prop :=
  (fileMachine _).Meets FileStore.OwnsLastFile s.view (s.acts ev)

theorem tableOk_created (index : MemIndex n) (dataFileSize bufferCount blobPages : ℕ) :
    (created index dataFileSize bufferCount blobPages).view.TableOk where
  numbering := by
    refine ⟨List.nodup_singleton _, ?_, .nil, ?_⟩
    · simp [view, created, FileSpace.created, FileSpace.fileIds, FileInfo.opened, FileInfo.fresh]
    · simp [view, created, FileSpace.created, FileStore.pendingFiles]
  next_lt := by
    change 1 < 2 ^ 16
    decide
  superblock := by
    change 1 ≤ kMaxFileCount
    decide
  writing := by simp [view, created]
  persisted := by
    change 1 ≤ kMaxFileCount
    decide

/-- The table is in order in every run whose events meet the condition. -/
theorem tableOk_run {index : MemIndex n} {dataFileSize bufferCount blobPages : ℕ}
    {s : EngineSystem n} {evs : List (EngineEvent n)}
    (hc : (engineMachine n).Meets OwnsLastFile
      (created index dataFileSize bufferCount blobPages) evs)
    (hr : (engineMachine n).run (created index dataFileSize bufferCount blobPages) evs = some s) :
    s.Sound ∧ s.view.TableOk :=
  (engine_refines n).run_invariant FileStore.TableOk
    (fun _ _ _ h hc hs => FileStore.tableOk_act h hc hs) (.created ..) (tableOk_created ..) hc hr

/-- The files that wait in the queue do not change which file is active. -/
theorem processPendingWriteQueue_activeFileId (self : Engine n) :
    self.processPendingWriteQueue.1.space.activeFileId = self.space.activeFileId := by
  have hloop : ∀ (i : ℕ) (queue : List QueuedWrite) (e : Engine n),
      (queue.foldl (Engine.submitQueuedWrite i) e).space.activeFileId = e.space.activeFileId := by
    intro i queue
    induction queue with
    | nil => exact fun _ => rfl
    | cons req queue ih => exact fun e => ih (e.submitQueuedWrite i req)
  rw [Engine.processPendingWriteQueue]
  split
  · split_ifs
    · rfl
    · exact hloop _ _ _
  · rfl

/-- **The table of files**: in every run of the engine whose events meet the condition, the
ids are distinct and below the counter, and every further event that meets it settles the
allocation that it ends. -/
theorem file_table_ok {index : MemIndex n} {dataFileSize bufferCount blobPages : ℕ}
    {s : EngineSystem n} {evs : List (EngineEvent n)}
    (hc : (engineMachine n).Meets OwnsLastFile
      (created index dataFileSize bufferCount blobPages) evs)
    (hr : (engineMachine n).run (created index dataFileSize bufferCount blobPages) evs = some s) :
    s.FileIdsOk ∧ ∀ ev s', s.OwnsLastFile ev → s.step ev = some s' →
      s.SettlesAllocation ev s' := by
  obtain ⟨-, htable⟩ := tableOk_run hc hr
  refine ⟨⟨htable.numbering.nodup, htable.numbering.lt⟩, fun ev s' hev hs => ⟨?_, ?_, ?_⟩⟩
  · rintro i caller rest hstack rfl
    have hlast : i + 1 = s.engine.space.files.length := by
      have hacts : s.acts (.wake false) = [.failAlloc] := by
        rw [acts, wakeActs, hstack]
        rfl
      rw [OwnsLastFile, hacts] at hev
      refine hev.1 i ?_
      rw [view, hstack]
      rfl
    have hfiles : s'.engine.space.files = s.engine.space.files.dropLast := by
      obtain rfl : s' = handleNoSpace { s with
          engine := { s.engine with space := s.engine.space.dropNewFile }
          stack := rest } caller := by
        rw [step, wake, hstack] at hs
        exact (Option.some.inj hs).symm
      cases caller <;> rfl
    exact ⟨by omega, by rw [hfiles, List.dropLast_eq_eraseIdx hlast]⟩
  · rintro i hnew rfl
    have hlast : i + 1 = s.engine.space.files.length := hev.1 i hnew
    obtain ⟨-, r, hr, rfl⟩ := step_async hs
    obtain ⟨-, hr⟩ := Option.ite_none_right_eq_some.mp hr
    obtain rfl := Option.some.inj hr
    exact ⟨by omega, List.dropLast_eq_eraseIdx hlast⟩
  · rintro i hnew rfl
    have hlast : i + 1 = s.engine.space.files.length := hev.1 i hnew
    obtain ⟨-, r, hr, rfl⟩ := step_async hs
    obtain ⟨-, hr⟩ := Option.ite_none_right_eq_some.mp hr
    obtain rfl := Option.some.inj hr
    refine ⟨by omega, ?_⟩
    rw [Engine.onNewFileAllocated, if_pos rfl, processPendingWriteQueue_activeFileId]
    dsimp only
    rw [FileSpace.onNewFileAllocated_true hnew hlast]
    exact FileSpace.fileId_fileAt_finishNewFile _ i i

instance (s : EngineSystem n) (ev : EngineEvent n) : Decidable (s.OwnsLastFile ev) :=
  inferInstanceAs (Decidable ((fileMachine _).Meets _ _ _))

/-- An engine with files of two pages, of which the first is the header. -/
def smallEngine : EngineSystem 3 := created (MemIndex.fresh 3) 8192 kMinBufferCount 16

/-- A record fills the first file, and a second one waits for the file with id 1. -/
def fullFile : List (EngineEvent 3) :=
  [.async (.putAsync 1 [4096]), .async (.complete 0 true), .async (.putAsync 2 [4096])]

/-- The allocation fails, and takes back its file. -/
theorem file_table_fullFile :
    ∃ s s', (engineMachine 3).run smallEngine fullFile = some s ∧
      s.step (.async (.newFileAllocated false)) = some s' ∧ s.FileIdsOk ∧
      s'.engine.space.files = s.engine.space.files.eraseIdx 1 := by
  have hrun : ((engineMachine 3).run smallEngine fullFile).bind (fun s =>
      (s.step (.async (.newFileAllocated false))).map fun _ =>
        (s.engine.space.newFile, decide (s.OwnsLastFile (.async (.newFileAllocated false))))) =
      some (some 1, true) := by decide +kernel
  have hmeets : (engineMachine 3).Meets OwnsLastFile smallEngine fullFile := by decide +kernel
  obtain ⟨s, hs, hstep⟩ := Option.bind_eq_some_iff.mp hrun
  obtain ⟨s', hs', hfacts⟩ := Option.map_eq_some_iff.mp hstep
  obtain ⟨hnew, hown⟩ := Prod.mk.inj hfacts
  obtain ⟨hids, hsettles⟩ := file_table_ok hmeets hs
  exact ⟨s, s', hs, hs', hids,
    ((hsettles _ s' (of_decide_eq_true hown) hs').async_failed 1 hnew rfl).2⟩

/-- Meanwhile a `put` allocates the file with id 2 and writes its record to it. -/
def fullFileThenPut : List (EngineEvent 3) := fullFile ++ [.put 3 100, .wake true, .wake true]

/-- **A failed allocation removes a file that is in use**: the allocation of the file with
id 1 fails, and the file with id 2, to which a record was written, is removed. -/
theorem failed_allocation_removes_other_file :
    ∃ s s', (engineMachine 3).run smallEngine fullFileThenPut = some s ∧
      s.step (.async (.newFileAllocated false)) = some s' ∧
      s.engine.space.newFile = some 1 ∧ s.engine.space.fileIds = [0, 1, 2] ∧
      s.records.map (fun rec => rec.range.fileId) = [0, 2] ∧
      s'.engine.space.fileIds = [0, 1] ∧
      ¬ s.SettlesAllocation (.async (.newFileAllocated false)) s' := by
  have hrun : ((engineMachine 3).run smallEngine fullFileThenPut).bind (fun s =>
      (s.step (.async (.newFileAllocated false))).map fun s' =>
        (s.engine.space.newFile, s.engine.space.fileIds,
          s.records.map fun rec => rec.range.fileId, s'.engine.space.fileIds)) =
      some (some 1, [0, 1, 2], [0, 2], [0, 1]) := by decide +kernel
  obtain ⟨s, hs, hstep⟩ := Option.bind_eq_some_iff.mp hrun
  obtain ⟨s', hs', hfacts⟩ := Option.map_eq_some_iff.mp hstep
  simp only [Prod.mk.injEq] at hfacts
  obtain ⟨hnew, hids, hrecords, hids'⟩ := hfacts
  refine ⟨s, s', hs, hs', hnew, hids, hrecords, hids', fun h => ?_⟩
  have hfiles := congrArg (List.map FileInfo.fileId) (h.async_failed 1 hnew rfl).2
  rw [← List.eraseIdx_map] at hfiles
  have := hids'.symm.trans (hfiles.trans (congrArg (List.eraseIdx · 1) hids))
  cases this

end EngineSystem

end SpdkKv
