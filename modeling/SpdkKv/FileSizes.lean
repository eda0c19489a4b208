import SpdkKv.FileExtents
import SpdkKv.FileMappings

/-!
# How Long a File Is Said to Be

The superblock has a size for every file, which the engine takes from the file when the
superblock is filled in. The file has its size from the last write that was submitted to it,
or from none. As long as `open` does not restore a size below a record, and no file with
records is marked deleted, every record ends within the size of its file, unless that is 0.

## Main results

* `FileStore.placed_act`: records lie behind the header of their file and within its blob.
* `FileStore.sized_act`: **every act that meets the conditions keeps the sizes**.
-/

namespace SpdkKv

/-- The offsets of a superblock are behind the header. -/
def SuperblockFiles.BehindHeader (superblock : SuperblockFiles) : Prop :=
  ∀ m ∈ superblock.fileMappings, sizeofDataFileHeader ≤ m.writeOffset

namespace FileStore

variable {W : Type}

/-! ### Where records lie -/

/-- Records lie behind the header of their file and within its blob, and so do the places of
the next ones. -/
structure Placed (st : FileStore W) : Prop where
  files : ∀ file ∈ st.space.files, sizeofDataFileHeader ≤ file.writeOffset
  used : ∀ r ∈ st.used, sizeofDataFileHeader ≤ r.offset
  records : ∀ r ∈ st.records, r.stop ≤ st.blobSize
  waits : ∀ w ∈ st.waits, sizeofDataFileHeader ≤ w.file.writeOffset
  runs : ∀ run ∈ st.runs, sizeofDataFileHeader ≤ run.destOffset
  superblock : st.space.superblock.BehindHeader
  writing : ∀ superblock ∈ st.writing, superblock.BehindHeader
  persisted : st.persisted.BehindHeader

namespace Placed

variable {st : FileStore W}

theorem le_fileAt (h : st.Placed) (i : ℕ) :
    sizeofDataFileHeader ≤ (st.space.fileAt i).writeOffset := by
  by_cases hi : i < st.space.files.length
  · exact h.files _ (FileSpace.fileAt_mem hi)
  · rw [FileSpace.fileAt, List.getElem?_eq_none (not_lt.mp hi)]
    exact le_rfl

/-- A file changes, and its offset stays behind the header. -/
theorem modifyFile (h : st.Placed) (i : ℕ) {f : FileInfo → FileInfo}
    (hf : sizeofDataFileHeader ≤ (f (st.space.fileAt i)).writeOffset) :
    Placed { st with space := st.space.modifyFile i f } :=
  { h with
    files := by
      intro file hfile
      rcases FileSpace.mem_modifyFile hfile with hfile | ⟨-, rfl⟩
      · exact h.files file hfile
      · exact hf }

/-- A write is placed at the end of a file. -/
theorem submitAt (h : st.Placed) (i size : ℕ) (write : FileInfo → W) :
    Placed { st with space := st.space.submitAt i size write } :=
  { h.modifyFile i (f := fun file => file.grow size)
      ((h.le_fileAt i).trans (Nat.le_add_right _ _)) with
    used := by
      intro r hr
      rcases mem_used.mp hr with hr | ⟨io, hio, rfl⟩
      · exact h.used r (mem_used.mpr (.inl hr))
      · rcases List.mem_append.mp hio with hio | hio
        · exact h.used _ (mem_used.mpr (.inr ⟨io, hio, rfl⟩))
        · rw [List.mem_singleton.mp hio]
          exact h.le_fileAt i }

/-- A `put` or `del` begins to wait. -/
theorem wait (h : st.Placed) (i size : ℕ) :
    Placed { st with waits := ⟨i, st.space.fileAt i, size⟩ :: st.waits } :=
  { h with
    waits := by
      intro w hw
      rcases List.mem_cons.mp hw with rfl | hw
      · exact h.le_fileAt i
      · exact h.waits w hw }

/-- An allocation begins. -/
theorem pushNewFile (h : st.Placed) : Placed { st with space := st.space.pushNewFile } :=
  { h with
    files := by
      intro file hfile
      rcases List.mem_append.mp hfile with hfile | hfile
      · exact h.files file hfile
      · rw [List.mem_singleton.mp hfile]
        exact le_rfl }

/-- The rollback of an allocation. -/
theorem dropNewFile (h : st.Placed) : Placed { st with space := st.space.dropNewFile } :=
  { h with files := fun file hfile => h.files file (List.dropLast_subset _ hfile) }

theorem updateFileMapping (h : st.Placed) (i : ℕ) :
    Placed { st with space := st.space.updateFileMapping (st.space.fileAt i) } :=
  { h with
    superblock := by
      intro m hm
      rcases SuperblockFiles.mem_updateFileMapping hm with hm | rfl
      · exact h.superblock m hm
      · exact h.le_fileAt i }

/-- The blob of a new file is opened, and the superblock knows the file. -/
theorem finishNewFile (h : st.Placed) (i : ℕ) :
    Placed { st with space := st.space.finishNewFile i } := by
  have hopened : Placed { st with space := st.space.openNewFile i } :=
    { h.modifyFile i (f := fun file => file.opened st.space.nextBlobId) (h.le_fileAt i) with }
  exact hopened.updateFileMapping i

/-- The caller of an allocation goes on with the new file. -/
theorem useFile (h : st.Placed) (i : ℕ) (use : FileUse W) : (st.useFile i use).Placed := by
  have hactive : Placed { st with space := st.space.activate i } := { h with }
  cases use with
  | sync size => exact hactive.wait i size
  | buffer size write => exact hactive.submitAt i size write
  | compaction source =>
      refine { h with runs := fun run hrun => ?_ }
      rcases List.mem_append.mp hrun with hrun | hrun
      · exact h.runs run hrun
      · rw [List.mem_singleton.mp hrun]

/-- The engine is opened again. -/
theorem reopen (h : st.Placed) (logged : List (ℕ × ℕ)) :
    Placed (W := W) { st with
      space := .reopened st.space.dataFileSize st.space.nextBlobId st.persisted logged
      allocs := []
      waits := []
      runs := []
      writing := none } := by
  have hlogged : (st.persisted.addLogged logged).BehindHeader := by
    intro m hm
    rcases SuperblockFiles.mem_addLogged hm with hm | ⟨-, hoffset⟩
    · exact h.persisted m hm
    · exact hoffset.symm.le
  have hused : ∀ r ∈ FileStore.used (W := W) { st with
      space := .reopened st.space.dataFileSize st.space.nextBlobId st.persisted logged
      allocs := [], waits := [], runs := [], writing := none },
      sizeofDataFileHeader ≤ r.offset := by
    intro r hr
    rcases mem_used.mp hr with hr | ⟨io, hio, -⟩
    · exact h.used r (mem_used.mpr (.inl hr))
    · rw [FileSpace.reopened_inflight] at hio
      cases hio
  refine ⟨?_, hused, h.records, by simp, by simp, ?_, by simp, h.persisted⟩
  · by_cases hnil : (st.persisted.addLogged logged).fileMappings = []
    · rw [FileSpace.reopened_eq_of_nil _ _ hnil]
      intro file hfile
      rw [List.mem_singleton.mp hfile]
      exact le_rfl
    · rw [FileSpace.reopened_eq _ _ hnil]
      intro file hfile
      obtain ⟨m, hm, rfl⟩ := List.mem_map.mp hfile
      exact hlogged m hm
  · by_cases hnil : (st.persisted.addLogged logged).fileMappings = []
    · rw [FileSpace.reopened_eq_of_nil _ _ hnil]
      intro m hm
      rw [List.mem_singleton.mp hm]
      exact le_rfl
    · rw [FileSpace.reopened_eq _ _ hnil]
      exact hlogged

end Placed

/-- Every act keeps the records in place. -/
theorem placed_act {st st' : FileStore W} {act : FileAct W} (h : st.Placed)
    (hs : st.act act = some st') : st'.Placed := by
  cases act with
  | mark i state =>
      obtain rfl := Option.some.inj hs
      exact h.modifyFile i (h.le_fileAt i)
  | flags allocating pendingCheckpoint nearFull =>
      obtain rfl := Option.some.inj hs
      exact { h with }
  | submit size write =>
      obtain ⟨i, -, rfl⟩ := Option.map_eq_some_iff.mp hs
      exact h.submitAt i size write
  | drain size write =>
      obtain ⟨i, -, rfl⟩ := Option.map_eq_some_iff.mp hs
      exact h.submitAt i size write
  | complete i ranges =>
      obtain ⟨io, hio, hs⟩ := Option.bind_eq_some_iff.mp hs
      obtain ⟨⟨hsplits, hstop⟩, hs⟩ := Option.ite_none_right_eq_some.mp hs
      obtain rfl := Option.some.inj hs
      have hmem := List.mem_of_getElem? hio
      refine { h with used := fun r hr => ?_, records := fun r hr => ?_ }
      · rcases mem_used.mp hr with hr | ⟨other, hother, rfl⟩
        · rcases List.mem_append.mp hr with hr | hr
          · exact h.used r (mem_used.mpr (.inl hr))
          · exact (h.used _ (mem_used.mpr (.inr ⟨io, hmem, rfl⟩))).trans (hsplits.1 r hr).2.1
        · exact h.used _ (mem_used.mpr (.inr ⟨other, List.eraseIdx_subset hother, rfl⟩))
      · rcases List.mem_append.mp hr with hr | hr
        · exact h.records r hr
        · exact (hsplits.1 r hr).2.2.trans (hstop (List.ne_nil_of_mem hr))
  | wait size =>
      obtain ⟨i, -, rfl⟩ := Option.map_eq_some_iff.mp hs
      exact h.wait i size
  | endWait ok =>
      rw [FileStore.act] at hs
      split at hs
      · cases hs
      · next w rest hwaits =>
          have hrest : ∀ w ∈ rest, sizeofDataFileHeader ≤ w.file.writeOffset := fun w hw =>
            h.waits w (hwaits ▸ List.mem_cons_of_mem _ hw)
          have hw : sizeofDataFileHeader ≤ w.range.offset :=
            h.waits w (hwaits ▸ List.mem_cons_self)
          cases ok with
          | false =>
              obtain rfl := Option.some.inj hs
              exact { h with waits := hrest }
          | true =>
              obtain ⟨hstop, hs⟩ := Option.ite_none_right_eq_some.mp hs
              obtain rfl := Option.some.inj hs
              refine { h.modifyFile w.place (f := fun file => file.grow w.size)
                ((h.le_fileAt w.place).trans (Nat.le_add_right _ _)) with
                waits := hrest
                used := fun r hr => ?_
                records := fun r hr => ?_ }
              · rcases mem_used.mp hr with hr | hr
                · rcases List.mem_append.mp hr with hr | hr
                  · exact h.used r (mem_used.mpr (.inl hr))
                  · rw [List.mem_singleton.mp hr]
                    exact hw
                · exact h.used r (mem_used.mpr (.inr hr))
              · rcases List.mem_append.mp hr with hr | hr
                · exact h.records r hr
                · rw [List.mem_singleton.mp hr]
                  exact hstop
  | beginAsync =>
      obtain rfl := Option.some.inj hs
      exact { h.pushNewFile with }
  | endAsync ok =>
      obtain ⟨i, hi, rfl⟩ := Option.map_eq_some_iff.mp hs
      have hflags : Placed { st with
        space := { st.space with allocatingNewFile := false, newFile := none } } := { h with }
      cases ok with
      | false => exact hflags.dropNewFile
      | true =>
          have hopened : Placed { st with
            space := FileSpace.openNewFile
              { st.space with allocatingNewFile := false, newFile := none } i } :=
            { hflags.modifyFile i (f := fun file => file.opened st.space.nextBlobId)
                (h.le_fileAt i) with }
          have hmapped := hopened.updateFileMapping ((FileSpace.openNewFile
            { st.space with allocatingNewFile := false, newFile := none } i).files.length - 1)
          rw [FileSpace.onNewFileAllocated, hi, if_pos rfl]
          exact { hmapped with }
  | beginAlloc =>
      obtain rfl := Option.some.inj hs
      exact { h.pushNewFile with }
  | endAlloc use =>
      rw [FileStore.act] at hs
      split at hs
      · cases hs
      · next i rest hallocs =>
          obtain rfl := Option.some.inj hs
          have hfinish : Placed { st with space := st.space.finishNewFile i, allocs := rest } :=
            { h.finishNewFile i with }
          exact hfinish.useFile i use
  | failAlloc =>
      rw [FileStore.act] at hs
      split at hs
      · cases hs
      · obtain rfl := Option.some.inj hs
        exact { h.dropNewFile with }
  | migrate k size ok =>
      obtain ⟨run, hrun, hs⟩ := Option.bind_eq_some_iff.mp hs
      cases ok with
      | false =>
          obtain rfl := Option.some.inj hs
          exact h
      | true =>
          obtain ⟨-, hs⟩ := Option.ite_none_right_eq_some.mp hs
          obtain rfl := Option.some.inj hs
          have hoffset : sizeofDataFileHeader ≤ run.destOffset + size :=
            (h.runs run (List.mem_of_getElem? hrun)).trans (Nat.le_add_right _ _)
          refine { h.modifyFile run.dest (f := fun file =>
            { file with writeOffset := run.destOffset + size, size := run.destOffset + size })
            hoffset with runs := fun other hother => ?_ }
          rcases List.mem_or_eq_of_mem_set hother with hother | rfl
          · exact h.runs other hother
          · exact hoffset
  | discard k =>
      obtain ⟨run, -, rfl⟩ := Option.map_eq_some_iff.mp hs
      exact { h.modifyFile run.dest (f := fun file =>
        { file with state := .kDeleted, blobOpened := false }) (h.le_fileAt _) with
        runs := fun run hrun => h.runs run (List.eraseIdx_subset hrun) }
  | updateSuperblock position dataBytes garbageBytes =>
      obtain rfl := Option.some.inj hs
      have hall : (st.updatedSuperblock position dataBytes garbageBytes).BehindHeader := by
        intro m hm
        rcases SuperblockFiles.mem_updateAll hm with hm | ⟨file, hfile, rfl⟩
        · exact h.superblock m hm
        · exact h.files file hfile
      refine { h with superblock := hall, writing := fun superblock hsb => ?_ }
      obtain rfl := Option.some.inj hsb
      exact hall
  | superblockWritten ok =>
      obtain ⟨superblock, hsb, rfl⟩ := Option.map_eq_some_iff.mp hs
      refine { h with writing := by simp, persisted := ?_ }
      cases ok with
      | false => exact h.persisted
      | true => exact h.writing superblock hsb
  | reopen logged =>
      obtain ⟨-, hs⟩ := Option.ite_none_right_eq_some.mp hs
      obtain rfl := Option.some.inj hs
      exact h.reopen logged

/-! ### The sizes of files -/

/-- Nothing was submitted to the blob for a record. -/
def Unused (st : FileStore W) (blobId : ℕ) : Prop := ∀ r ∈ st.used, r.blobId ≠ blobId

/-- What was submitted to a file ends within its size, unless that is 0; files with records
are not deleted, and are the ones the superblock maps their blobs for. -/
structure Sized (st : FileStore W) : Prop where
  used_ne : st.Unused 0
  blob_inj : ∀ i < st.space.files.length, ∀ j < st.space.files.length,
    (st.space.fileAt i).blobId = (st.space.fileAt j).blobId →
      (st.space.fileAt i).blobId ≠ 0 → i = j
  pending : ∀ i ∈ st.pendingFiles,
    (st.space.fileAt i).blobId = 0 ∧ (st.space.fileAt i).state ≠ .kDeleted
  current : ∀ i ∈ st.current,
    (st.space.fileAt i).blobId ≠ 0 ∧ (st.space.fileAt i).state ≠ .kDeleted
  dests : ∀ run ∈ st.runs, st.Unused (st.space.fileAt run.dest).blobId
  deleted : ∀ f ∈ st.space.files, f.state = .kDeleted → st.Unused f.blobId
  covered : ∀ f ∈ st.space.files, ∀ r ∈ st.used, r.blobId = f.blobId →
    f.size = 0 ∨ r.stop ≤ f.size
  nodup : st.space.superblock.fileIds.Nodup
  mapped : ∀ m ∈ st.space.superblock.fileMappings, m.blobId = 0 ∨
    ∃ f ∈ st.space.files, f.fileId = m.fileId ∧ f.blobId = m.blobId

/-- The conditions for the sizes: no file is marked deleted but the destination of a
compaction, and `open` finds distinct blobs, none of them deleted or too short for a record
in it, and an active file that is not deleted. -/
def KeepsSizes (st : FileStore W) : FileAct W → Prop
  | .mark _ state => state ≠ .kDeleted
  | .reopen logged =>
      (st.persisted.addLogged logged).blobIds.Nodup ∧
        ∀ m ∈ (st.persisted.addLogged logged).fileMappings,
          (m.fileId = st.persisted.activeFileId → m.state ≠ .kDeleted) ∧
            ∀ r ∈ st.records, r.blobId = m.blobId →
              m.state ≠ .kDeleted ∧ (m.size = 0 ∨ r.stop ≤ m.size)
  | _ => True

instance decidableKeepsSizes (st : FileStore W) (act : FileAct W) :
    Decidable (st.KeepsSizes act) :=
  match act with
  | .mark _ _ => inferInstanceAs (Decidable (_ ≠ _))
  | .reopen logged => inferInstanceAs (Decidable (_ ∧
      ∀ m ∈ (st.persisted.addLogged logged).fileMappings, (_ → _) ∧ ∀ r ∈ st.records, _ → _))
  | .flags _ _ _ | .submit _ _ | .drain _ _ | .complete _ _ | .wait _ | .endWait _
  | .beginAsync | .endAsync _ | .beginAlloc | .endAlloc _ | .failAlloc | .migrate _ _ _
  | .discard _ | .updateSuperblock _ _ _ | .superblockWritten _ => .isTrue trivial

/-- What a pointer refers to after a write through one. -/
theorem fileAt_modifyFile_or (space : FileSpace W) (i j : ℕ) (f : FileInfo → FileInfo) :
    (space.modifyFile i f).fileAt j = space.fileAt j ∨
      (i = j ∧ (space.modifyFile i f).fileAt j = f (space.fileAt i)) := by
  by_cases hj : j < space.files.length
  · rw [FileSpace.fileAt_modifyFile _ _ _ _ hj]
    split_ifs with hij
    · exact .inr ⟨hij, hij ▸ rfl⟩
    · exact .inl rfl
  · refine .inl ?_
    rw [FileSpace.fileAt, FileSpace.fileAt, List.getElem?_eq_none (not_lt.mp hj),
      List.getElem?_eq_none]
    rw [FileSpace.length_modifyFile]
    exact not_lt.mp hj

namespace Sized

variable {st st' : FileStore W}

theorem idle_of_deleted (h : st.Sized) {i : ℕ} (hi : (st.space.fileAt i).state = .kDeleted) :
    i ∉ st.current ∧ i ∉ st.pendingFiles ∧ st.Unused (st.space.fileAt i).blobId := by
  refine ⟨fun hin => (h.current i hin).2 hi, fun hin => (h.pending i hin).2 hi, ?_⟩
  by_cases hlt : i < st.space.files.length
  · exact h.deleted _ (FileSpace.fileAt_mem hlt) hi
  · rw [FileSpace.fileAt, List.getElem?_eq_none (not_lt.mp hlt)]
    exact h.used_ne

/-- The files stay as they are, and no more is used. -/
theorem mono (h : st.Sized) (hfiles : st'.space.files = st.space.files)
    (hcurrent : st'.current ⊆ st.current) (hpending : st'.pendingFiles ⊆ st.pendingFiles)
    (hruns : ∀ run' ∈ st'.runs, ∃ run ∈ st.runs, run'.dest = run.dest)
    (hused : ∀ r' ∈ st'.used, ∃ r ∈ st.used, r'.blobId = r.blobId ∧ r'.stop ≤ r.stop)
    (hnodup : st'.space.superblock.fileIds.Nodup)
    (hmapped : ∀ m ∈ st'.space.superblock.fileMappings, m.blobId = 0 ∨
      ∃ f ∈ st.space.files, f.fileId = m.fileId ∧ f.blobId = m.blobId) : st'.Sized := by
  have hat : ∀ i, st'.space.fileAt i = st.space.fileAt i := fun i => by
    rw [FileSpace.fileAt, hfiles, FileSpace.fileAt]
  have hunused : ∀ b, st.Unused b → st'.Unused b := by
    intro b hb r hr
    obtain ⟨q, hq, hqb, -⟩ := hused r hr
    rw [hqb]
    exact hb q hq
  refine ⟨hunused 0 h.used_ne, fun i hi j hj => ?_, fun i hi => ?_, fun i hi => ?_,
    fun run hrun => ?_, fun f hf hd => ?_, fun f hf r hr hb => ?_, hnodup, ?_⟩
  · rw [hfiles] at hi hj
    rw [hat, hat]
    exact h.blob_inj i hi j hj
  · rw [hat]
    exact h.pending i (hpending hi)
  · rw [hat]
    exact h.current i (hcurrent hi)
  · obtain ⟨old, hold, hdest⟩ := hruns run hrun
    rw [hat, hdest]
    exact hunused _ (h.dests old hold)
  · exact hunused _ (h.deleted f (hfiles ▸ hf) hd)
  · obtain ⟨q, hq, hqb, hqs⟩ := hused r hr
    exact (h.covered f (hfiles ▸ hf) q hq (hqb ▸ hb)).imp_right hqs.trans
  · rw [hfiles]
    exact hmapped

/-- A file changes, but not its id or its blob; its size covers what was submitted to it. -/
theorem modifyFile (h : st.Sized) (i : ℕ) {f : FileInfo → FileInfo}
    (hid : ∀ file, (f file).fileId = file.fileId) (hb : ∀ file, (f file).blobId = file.blobId)
    (hstate : (f (st.space.fileAt i)).state = .kDeleted →
      i ∉ st.current ∧ i ∉ st.pendingFiles ∧ st.Unused (st.space.fileAt i).blobId)
    (hsize : ∀ r ∈ st.used, r.blobId = (st.space.fileAt i).blobId →
      (f (st.space.fileAt i)).size = 0 ∨ r.stop ≤ (f (st.space.fileAt i)).size) :
    Sized { st with space := st.space.modifyFile i f } := by
  have hblob : ∀ j, ((st.space.modifyFile i f).fileAt j).blobId = (st.space.fileAt j).blobId :=
    fun j => st.space.apply_fileAt_modifyFile i j hb
  have hcurrent : FileStore.current { st with space := st.space.modifyFile i f } = st.current := by
    rw [FileStore.current, st.space.activeIndex_modifyFile i hid, FileStore.current]
  refine ⟨h.used_ne, fun j hj k hk => ?_, fun j hj => ⟨?_, fun hd => ?_⟩,
    fun j hj => ⟨?_, fun hd => ?_⟩, fun run hrun => ?_, fun file hfile hd => ?_,
    fun file hfile r hr hrb => ?_, h.nodup, fun m hm => ?_⟩
  · rw [FileSpace.length_modifyFile] at hj hk
    rw [hblob, hblob]
    exact h.blob_inj j hj k hk
  · rw [hblob]
    exact (h.pending j hj).1
  · rcases fileAt_modifyFile_or st.space i j f with heq | ⟨rfl, heq⟩
    · rw [heq] at hd
      exact (h.pending j hj).2 hd
    · rw [heq] at hd
      exact (hstate hd).2.1 hj
  · rw [hblob]
    exact (h.current j (hcurrent ▸ hj)).1
  · rcases fileAt_modifyFile_or st.space i j f with heq | ⟨rfl, heq⟩
    · rw [heq] at hd
      exact (h.current j (hcurrent ▸ hj)).2 hd
    · rw [heq] at hd
      exact (hstate hd).1 (hcurrent ▸ hj)
  · rw [hblob]
    exact h.dests run hrun
  · rcases FileSpace.mem_modifyFile hfile with hfile | ⟨-, rfl⟩
    · exact h.deleted file hfile hd
    · rw [hb]
      exact (hstate hd).2.2
  · rcases FileSpace.mem_modifyFile hfile with hfile | ⟨-, rfl⟩
    · exact h.covered file hfile r hr hrb
    · rw [hb] at hrb
      exact hsize r hr hrb
  · refine (h.mapped m hm).imp_right ?_
    rintro ⟨file, hfile, hfid, hfb⟩
    obtain ⟨j, hj⟩ := List.mem_iff_getElem?.mp hfile
    have hjlt := (List.getElem?_eq_some_iff.mp hj).1
    have hat : st.space.fileAt j = file := by
      rw [FileSpace.fileAt, hj]
      rfl
    refine ⟨(st.space.modifyFile i f).fileAt j, FileSpace.fileAt_mem ?_, ?_, ?_⟩
    · rwa [FileSpace.length_modifyFile]
    · rw [st.space.apply_fileAt_modifyFile i j hid, hat, hfid]
    · rw [hblob, hat, hfb]

/-- A range within the size of a file that writes go to is used. -/
theorem use (h : st.Sized) (hext : st.Extents) {i : ℕ} (hi : i ∈ st.current) {q : BlobRange}
    (hqb : q.blobId = (st.space.fileAt i).blobId) (hqs : q.stop ≤ (st.space.fileAt i).size)
    (hspace : st'.space.files = st.space.files ∧ st'.space.superblock = st.space.superblock)
    (hcurrent : st'.current = st.current) (hpending : st'.pendingFiles = st.pendingFiles)
    (hruns : st'.runs = st.runs) (hused : ∀ r ∈ st'.used, r = q ∨ r ∈ st.used) :
    st'.Sized := by
  obtain ⟨hfiles, hsuperblock⟩ := hspace
  have hat : ∀ i, st'.space.fileAt i = st.space.fileAt i := fun i => by
    rw [FileSpace.fileAt, hfiles, FileSpace.fileAt]
  have hilt : i < st.space.files.length := by
    rcases mem_current.mp hi with hi | ⟨w, hw, rfl⟩
    · exact FileSpace.activeIndex_lt hi
    · exact (hext.waits w hw).place_lt
  -- Of all files only this one has its blob.
  have hfile : ∀ j < st.space.files.length, (st.space.fileAt i).blobId =
      (st.space.fileAt j).blobId → j = i := fun j hj heq =>
    (h.blob_inj i hilt j hj heq (h.current i hi).1).symm
  have hmem : ∀ f ∈ st.space.files, q.blobId = f.blobId → f = st.space.fileAt i := by
    intro f hf heq
    obtain ⟨j, hj⟩ := List.mem_iff_getElem?.mp hf
    have hfat : st.space.fileAt j = f := by
      rw [FileSpace.fileAt, hj]
      rfl
    rw [← hfat, hfile j (List.getElem?_eq_some_iff.mp hj).1 (by rw [hfat, ← heq, hqb])]
  refine ⟨fun r hr => ?_, fun j hj k hk => ?_, fun j hj => ?_, fun j hj => ?_,
    fun run hrun r hr => ?_, fun f hf hd r hr heq => ?_, fun f hf r hr heq => ?_,
    hsuperblock ▸ h.nodup, by rw [hsuperblock, hfiles]; exact h.mapped⟩
  · rcases hused r hr with rfl | hr
    · rw [hqb]
      exact (h.current i hi).1
    · exact h.used_ne r hr
  · rw [hfiles] at hj hk
    rw [hat, hat]
    exact h.blob_inj j hj k hk
  · rw [hat]
    exact h.pending j (hpending ▸ hj)
  · rw [hat]
    exact h.current j (hcurrent ▸ hj)
  · rw [hat]
    rcases hused r hr with rfl | hr
    · intro heq
      have hdest := hext.runs run (hruns ▸ hrun)
      exact hdest.not_current (hfile _ hdest.dest_lt (hqb.symm.trans heq) ▸ hi)
    · exact h.dests run (hruns ▸ hrun) r hr
  · rcases hused r hr with rfl | hr
    · rw [hmem f (hfiles ▸ hf) heq] at hd
      exact (h.current i hi).2 hd
    · exact h.deleted f (hfiles ▸ hf) hd r hr heq
  · rcases hused r hr with rfl | hr
    · rw [hmem f (hfiles ▸ hf) heq]
      exact .inr hqs
    · exact h.covered f (hfiles ▸ hf) r hr heq

/-- A write is placed at the end of the active file. -/
theorem submitAt (h : st.Sized) (hext : st.Extents) {i : ℕ} (hi : st.space.activeIndex = some i)
    (size : ℕ) (write : FileInfo → W) :
    Sized { st with space := st.space.submitAt i size write } := by
  have hmem : i ∈ st.current := mem_current.mpr (.inl hi)
  have hgrow := h.modifyFile i (f := fun file => file.grow size) (fun _ => rfl) (fun _ => rfl)
    h.idle_of_deleted fun r hr hrb =>
      .inr ((hext.stop_le i hmem r hr hrb).trans (Nat.le_add_right _ _))
  have hext' := hext.modifyFile i (f := fun file => file.grow size) (fun _ => rfl) (fun _ => rfl)
    fun _ _ => Nat.le_add_right _ _
  have hfile : (st.space.modifyFile i fun file => file.grow size).fileAt i =
      (st.space.fileAt i).grow size :=
    (st.space.fileAt_modifyFile i i _ (FileSpace.activeIndex_lt hi)).trans (if_pos rfl)
  refine hgrow.use hext' (i := i) (q := (st.space.fileAt i).rangeFor size) ?_ ?_ ?_ ⟨rfl, rfl⟩
    rfl rfl rfl fun r hr => ?_
  · exact mem_current.mpr (.inl ((st.space.activeIndex_submitAt i size write).trans hi))
  · rw [hfile]
    rfl
  · rw [hfile]
    exact (st.space.fileAt i).stop_rangeFor_le size
  · rcases mem_used.mp hr with hr | ⟨io, hio, rfl⟩
    · exact .inr (mem_used.mpr (.inl hr))
    · rcases List.mem_append.mp hio with hio | hio
      · exact .inr (mem_used.mpr (.inr ⟨io, hio, rfl⟩))
      · rw [List.mem_singleton.mp hio]
        exact .inl rfl

/-- A `put` or `del` begins to wait for the active file. -/
theorem wait (h : st.Sized) {i : ℕ} (hi : st.space.activeIndex = some i) (size : ℕ) :
    Sized { st with waits := ⟨i, st.space.fileAt i, size⟩ :: st.waits } := by
  refine h.mono rfl (fun j hj => ?_) (List.Subset.refl _) (fun run hrun => ⟨run, hrun, rfl⟩)
    (fun r hr => ⟨r, hr, rfl, le_rfl⟩) h.nodup h.mapped
  rcases mem_current.mp hj with hj | ⟨w, hw, rfl⟩
  · exact mem_current.mpr (.inl hj)
  · rcases List.mem_cons.mp hw with rfl | hw
    · exact mem_current.mpr (.inl hi)
    · exact mem_current.mpr (.inr ⟨w, hw, rfl⟩)

/-- The innermost `put` or `del` takes its space. -/
theorem endWait (h : st.Sized) (hext : st.Extents) {w : FileWait} {rest : List FileWait}
    (hwaits : st.waits = w :: rest) :
    Sized { st with
      space := st.space.modifyFile w.place fun file => file.grow w.size
      waits := rest
      records := st.records ++ [w.range] } := by
  have hw : w ∈ st.waits := hwaits ▸ List.mem_cons_self
  obtain ⟨hlt, -, hblob, hle⟩ := hext.waits w hw
  have hmem : w.place ∈ st.current := mem_current.mpr (.inr ⟨w, hw, rfl⟩)
  have hgrow := h.modifyFile w.place (f := fun file => file.grow w.size) (fun _ => rfl)
    (fun _ => rfl) h.idle_of_deleted fun r hr hrb =>
      .inr ((hext.stop_le w.place hmem r hr hrb).trans (Nat.le_add_right _ _))
  have hext' := hext.modifyFile w.place (f := fun file => file.grow w.size) (fun _ => rfl)
    (fun _ => rfl) fun _ _ => Nat.le_add_right _ _
  have hfile : (st.space.modifyFile w.place fun file => file.grow w.size).fileAt w.place =
      (st.space.fileAt w.place).grow w.size :=
    (st.space.fileAt_modifyFile w.place w.place _ hlt).trans (if_pos rfl)
  have hused : Sized { st with
      space := st.space.modifyFile w.place fun file => file.grow w.size
      records := st.records ++ [w.range] } := by
    refine hgrow.use hext' (i := w.place) (q := w.range) ?_ ?_ ?_ ⟨rfl, rfl⟩ rfl rfl rfl
      fun r hr => ?_
    · exact mem_current.mpr (.inr ⟨w, hw, rfl⟩)
    · rw [hfile]
      exact hblob.symm
    · rw [hfile]
      exact (w.file.stop_rangeFor_le w.size).trans (Nat.add_le_add_right hle _)
    · rcases mem_used.mp hr with hr | hr
      · rcases List.mem_append.mp hr with hr | hr
        · exact .inr (mem_used.mpr (.inl hr))
        · exact .inl (List.mem_singleton.mp hr)
      · exact .inr (mem_used.mpr (.inr hr))
  refine hused.mono rfl (fun j hj => ?_) (List.Subset.refl _) (fun run hrun => ⟨run, hrun, rfl⟩)
    (fun r hr => ⟨r, hr, rfl, le_rfl⟩) hused.nodup hused.mapped
  rcases mem_current.mp hj with hj | ⟨v, hv, rfl⟩
  · exact mem_current.mpr (.inl hj)
  · exact mem_current.mpr (.inr ⟨v, hwaits ▸ List.mem_cons_of_mem _ hv, rfl⟩)

/-- An allocation begins. -/
theorem push (h : st.Sized) (htable : st.TableOk)
    (hspace : st'.space.files = st.space.pushNewFile.files ∧
      st'.space.superblock = st.space.superblock)
    (hcurrent : ∀ i ∈ st'.current, i ∈ st.current ∧ i < st.space.files.length)
    (hpending : st'.pendingFiles ⊆ st.space.files.length :: st.pendingFiles)
    (hruns : ∀ run ∈ st'.runs, run ∈ st.runs ∧ run.dest < st.space.files.length)
    (hused : st'.used = st.used) : st'.Sized := by
  obtain ⟨hfiles, hsuperblock⟩ := hspace
  have hlen : st'.space.files.length = st.space.files.length + 1 := by
    rw [hfiles, FileSpace.pushNewFile, List.length_append, List.length_singleton]
  have hat : ∀ j < st.space.files.length, st'.space.fileAt j = st.space.fileAt j := by
    intro j hj
    rw [← st.space.fileAt_pushNewFile hj, FileSpace.fileAt, hfiles, FileSpace.fileAt]
  have hlast : st'.space.fileAt st.space.files.length = .fresh st.space.nextFileId := by
    rw [FileSpace.fileAt, hfiles, FileSpace.pushNewFile, List.getElem?_concat_length]
    rfl
  have hunused : ∀ b, st.Unused b → st'.Unused b := fun b hb r hr => hb r (hused ▸ hr)
  have hmem : ∀ f ∈ st'.space.files, f ∈ st.space.files ∨ f = .fresh st.space.nextFileId := by
    intro f hf
    rw [hfiles] at hf
    exact (List.mem_append.mp hf).imp_right List.mem_singleton.mp
  refine ⟨hunused 0 h.used_ne, fun j hj k hk heq hne => ?_, fun j hj => ?_, fun j hj => ?_,
    fun run hrun => ?_, fun f hf hd => ?_, fun f hf r hr hrb => ?_, hsuperblock ▸ h.nodup,
    fun m hm => ?_⟩
  · -- the new file has no blob
    have hold : ∀ x, x < st'.space.files.length → (st'.space.fileAt x).blobId ≠ 0 →
        x < st.space.files.length := by
      intro x hx hxne
      by_contra hge
      obtain rfl : x = st.space.files.length := by omega
      rw [hlast] at hxne
      exact hxne rfl
    have hjlt := hold j hj hne
    have hklt := hold k hk (heq ▸ hne)
    rw [hat j hjlt] at heq hne
    rw [hat k hklt] at heq
    exact h.blob_inj j hjlt k hklt heq hne
  · rcases List.mem_cons.mp (hpending hj) with rfl | hj
    · rw [hlast]
      exact ⟨rfl, fun hd => by cases hd⟩
    · rw [hat j (htable.pending_lt j hj)]
      exact h.pending j hj
  · rw [hat j (hcurrent j hj).2]
    exact h.current j (hcurrent j hj).1
  · rw [hat _ (hruns run hrun).2]
    exact hunused _ (h.dests run (hruns run hrun).1)
  · rcases hmem f hf with hf | rfl
    · exact hunused _ (h.deleted f hf hd)
    · cases hd
  · rcases hmem f hf with hf | rfl
    · exact h.covered f hf r (hused ▸ hr) hrb
    · exact .inl rfl
  · refine (h.mapped m (hsuperblock ▸ hm)).imp_right ?_
    rintro ⟨f, hf, heq⟩
    exact ⟨f, hfiles ▸ List.mem_append_left _ hf, heq⟩

/-- The blob of a pending file is opened, and the superblock knows the file. -/
theorem openFile (h : st.Sized) (hext : st.Extents) (htable : st.TableOk) {i : ℕ}
    (hi : i ∈ st.pendingFiles)
    (hspace : st'.space.files = (st.space.finishNewFile i).files ∧
      st'.space.superblock = (st.space.finishNewFile i).superblock)
    (hcurrent : ∀ j ∈ st'.current, j ∈ st.current ∨ j = i)
    (hpending : ∀ j ∈ st'.pendingFiles, j ∈ st.pendingFiles ∧ j ≠ i)
    (hruns : ∀ run ∈ st'.runs, run ∈ st.runs ∨ run.dest = i) (hused : st'.used = st.used) :
    st'.Sized := by
  obtain ⟨hfiles, hsuperblock⟩ := hspace
  have hilt := htable.pending_lt i hi
  have hlen : st'.space.files.length = st.space.files.length := by
    rw [hfiles]
    exact st.space.length_modifyFile i _
  have hati : st'.space.fileAt i = (st.space.fileAt i).opened st.space.nextBlobId := by
    rw [FileSpace.fileAt, hfiles]
    exact (st.space.fileAt_modifyFile i i _ hilt).trans (if_pos rfl)
  have hat : ∀ j, j ≠ i → st'.space.fileAt j = st.space.fileAt j := by
    intro j hne
    rw [FileSpace.fileAt, hfiles]
    exact (fileAt_modifyFile_or st.space i j _).resolve_right fun hr => hne hr.1.symm
  have hunused : ∀ b, st.Unused b → st'.Unused b := fun b hb r hr => hb r (hused ▸ hr)
  have hnew : st'.Unused st.space.nextBlobId := fun r hr =>
    Nat.ne_of_lt (hext.used_lt r (hused ▸ hr))
  have hmem : ∀ f ∈ st'.space.files, f ∈ st.space.files ∨
      f = (st.space.fileAt i).opened st.space.nextBlobId := by
    intro f hf
    rw [hfiles] at hf
    exact (FileSpace.mem_modifyFile hf).imp_right And.right
  refine ⟨hunused 0 h.used_ne, fun j hj k hk heq hne => ?_, fun j hj => ?_, fun j hj => ?_,
    fun run hrun => ?_, fun f hf hd => ?_, fun f hf r hr hrb => ?_, ?_, fun m hm => ?_⟩
  · rw [hlen] at hj hk
    have hlt : ∀ x < st.space.files.length, x ≠ i →
        (st'.space.fileAt x).blobId ≠ (st'.space.fileAt i).blobId := by
      intro x hx hxne
      rw [hat x hxne, hati]
      exact Nat.ne_of_lt (hext.file_lt _ (FileSpace.fileAt_mem hx))
    by_cases hji : j = i
    · by_contra hne'
      exact hlt k hk (fun hki => hne' (hji.trans hki.symm)) (hji ▸ heq.symm)
    · by_cases hki : k = i
      · exact absurd (hki ▸ heq) (hlt j hj hji)
      · rw [hat j hji] at heq hne
        rw [hat k hki] at heq
        exact h.blob_inj j hj k hk heq hne
  · obtain ⟨hj, hne⟩ := hpending j hj
    rw [hat j hne]
    exact h.pending j hj
  · by_cases hji : j = i
    · rw [hji, hati]
      exact ⟨Nat.ne_of_gt hext.nextBlobId_pos, (h.pending i hi).2⟩
    · rw [hat j hji]
      exact h.current j ((hcurrent j hj).resolve_right hji)
  · by_cases hji : run.dest = i
    · rw [hji, hati]
      exact hnew
    · rw [hat _ hji]
      exact hunused _ (h.dests run ((hruns run hrun).resolve_right hji))
  · rcases hmem f hf with hf | rfl
    · exact hunused _ (h.deleted f hf hd)
    · exact absurd hd (h.pending i hi).2
  · rcases hmem f hf with hf | rfl
    · exact h.covered f hf r (hused ▸ hr) hrb
    · exact absurd hrb (hnew r hr)
  · rw [hsuperblock]
    exact SuperblockFiles.nodup_fileIds_updateFileMapping h.nodup _
  · have hifile : (st.space.openNewFile i).fileAt i = st'.space.fileAt i := by
      rw [FileSpace.fileAt, FileSpace.fileAt, hfiles]
      rfl
    rw [hsuperblock] at hm
    rcases SuperblockFiles.mem_updateFileMapping hm with hm | rfl
    · rcases h.mapped m hm with hzero | ⟨f, hf, hfid, hfb⟩
      · exact .inl hzero
      · obtain ⟨j, hj⟩ := List.mem_iff_getElem?.mp hf
        have hfat : st.space.fileAt j = f := by
          rw [FileSpace.fileAt, hj]
          rfl
        by_cases hji : j = i
        · rw [← hfb, ← hfat, hji]
          exact .inl (h.pending i hi).1
        · refine .inr ⟨st'.space.fileAt j, FileSpace.fileAt_mem ?_, ?_, ?_⟩
          · rw [hlen]
            exact (List.getElem?_eq_some_iff.mp hj).1
          · rw [hat j hji, hfat, hfid]
          · rw [hat j hji, hfat, hfb]
    · refine .inr ⟨st'.space.fileAt i, FileSpace.fileAt_mem (hlen ▸ hilt), ?_, ?_⟩
      · exact congrArg FileInfo.fileId hifile.symm
      · exact congrArg FileInfo.blobId hifile.symm

/-- The last file is removed, which an allocation has added. -/
theorem drop (h : st.Sized) {i : ℕ} (hi : i ∈ st.pendingFiles)
    (hlast : i + 1 = st.space.files.length)
    (hspace : st'.space.files = st.space.files.dropLast ∧
      st'.space.superblock = st.space.superblock)
    (hcurrent : ∀ j ∈ st'.current, j ∈ st.current ∧ j < st'.space.files.length)
    (hpending : ∀ j ∈ st'.pendingFiles, j ∈ st.pendingFiles ∧ j < st'.space.files.length)
    (hruns : ∀ run ∈ st'.runs, run ∈ st.runs ∧ run.dest < st'.space.files.length)
    (hused : st'.used = st.used) : st'.Sized := by
  obtain ⟨hfiles, hsuperblock⟩ := hspace
  have hlen : st'.space.files.length + 1 = st.space.files.length := by
    rw [hfiles, List.length_dropLast]
    omega
  have hat : ∀ j < st'.space.files.length, st'.space.fileAt j = st.space.fileAt j := by
    intro j hj
    rw [← st.space.fileAt_dropNewFile (by omega), FileSpace.fileAt, hfiles, FileSpace.fileAt]
    rfl
  have hsub : ∀ f ∈ st'.space.files, f ∈ st.space.files := fun f hf =>
    List.dropLast_subset _ (hfiles ▸ hf)
  have hunused : ∀ b, st.Unused b → st'.Unused b := fun b hb r hr => hb r (hused ▸ hr)
  refine ⟨hunused 0 h.used_ne, fun j hj k hk => ?_, fun j hj => ?_, fun j hj => ?_,
    fun run hrun => ?_, fun f hf hd => hunused _ (h.deleted f (hsub f hf) hd),
    fun f hf r hr => h.covered f (hsub f hf) r (hused ▸ hr), hsuperblock ▸ h.nodup,
    fun m hm => ?_⟩
  · rw [hat j hj, hat k hk]
    exact h.blob_inj j (by omega) k (by omega)
  · rw [hat j (hpending j hj).2]
    exact h.pending j (hpending j hj).1
  · rw [hat j (hcurrent j hj).2]
    exact h.current j (hcurrent j hj).1
  · rw [hat _ (hruns run hrun).2]
    exact hunused _ (h.dests run (hruns run hrun).1)
  · rcases h.mapped m (hsuperblock ▸ hm) with hzero | ⟨f, hf, hfid, hfb⟩
    · exact .inl hzero
    · obtain ⟨j, hj⟩ := List.mem_iff_getElem?.mp hf
      have hfat : st.space.fileAt j = f := by
        rw [FileSpace.fileAt, hj]
        rfl
      have hjlt := (List.getElem?_eq_some_iff.mp hj).1
      by_cases hji : j = i
      · rw [← hfb, ← hfat, hji]
        exact .inl (h.pending i hi).1
      · have hjlt' : j < st'.space.files.length := by omega
        refine .inr ⟨st'.space.fileAt j, FileSpace.fileAt_mem hjlt', ?_, ?_⟩
        · rw [hat j hjlt', hfat, hfid]
        · rw [hat j hjlt', hfat, hfb]

/-- The engine is opened again. -/
theorem reopen (hext : st.Extents) {logged : List (ℕ × ℕ)}
    (hblobs : ∀ m ∈ (st.persisted.addLogged logged).fileMappings,
      m.blobId ≠ 0 ∧ m.blobId < st.space.nextBlobId)
    (hused : st.Unused 0)
    (hids : ((st.persisted.addLogged logged).fileMappings.map FileMapping.fileId).Nodup)
    (hkeeps : st.KeepsSizes (.reopen logged)) :
    Sized (W := W) { st with
      space := .reopened st.space.dataFileSize st.space.nextBlobId st.persisted logged
      allocs := []
      waits := []
      runs := []
      writing := none } := by
  obtain ⟨hnodup, hkeeps⟩ := hkeeps
  have hrecords : ∀ r ∈ st.records, r.blobId ≠ 0 ∧ r.blobId < st.space.nextBlobId := fun r hr =>
    ⟨hused r (mem_used.mpr (.inl hr)), hext.used_lt r (mem_used.mpr (.inl hr))⟩
  have hindex : ∀ {space : FileSpace W}, ∀ i ∈ FileStore.current (W := W) { st with
      space := space, allocs := [], waits := [], runs := [], writing := none },
      space.activeIndex = some i := by
    intro space i hi
    rcases mem_current.mp hi with hi | ⟨w, hw, -⟩
    · exact hi
    · cases hw
  by_cases hnil : (st.persisted.addLogged logged).fileMappings = []
  · rw [FileSpace.reopened_eq_of_nil _ _ hnil]
    have hmem : ∀ r : BlobRange, r ∈ st.records ++ [] → r ∈ st.records := fun r hr => by
      rwa [List.append_nil] at hr
    have hfresh : ∀ f ∈ [(FileInfo.fresh 0).opened st.space.nextBlobId],
        f.blobId = st.space.nextBlobId ∧ f.state ≠ .kDeleted ∧ f.size = 0 := by
      intro f hf
      rw [List.mem_singleton.mp hf]
      exact ⟨rfl, (fun hd => by cases hd), rfl⟩
    refine ⟨fun r hr => (hrecords r (hmem r hr)).1, fun i hi j hj _ _ => ?_,
      by simp [pendingFiles], fun i hi => ?_, by simp, fun f hf hd => ?_, fun f hf r hr _ => ?_,
      List.nodup_singleton _, fun m hm => ?_⟩
    · rw [List.length_singleton] at hi hj
      omega
    · have hfile := hfresh _ (FileSpace.fileAt_mem (FileSpace.activeIndex_lt (hindex i hi)))
      rw [hfile.1]
      exact ⟨Nat.ne_of_gt hext.nextBlobId_pos, hfile.2.1⟩
    · exact absurd hd (hfresh f hf).2.1
    · exact .inl (hfresh f hf).2.2
    · rw [List.mem_singleton.mp hm]
      exact .inr ⟨_, List.mem_singleton.mpr rfl, rfl, rfl⟩
  · rw [FileSpace.reopened_eq _ _ hnil]
    have hmem : ∀ r : BlobRange, r ∈ st.records ++ [] → r ∈ st.records := fun r hr => by
      rwa [List.append_nil] at hr
    have hfile : ∀ f ∈ (st.persisted.addLogged logged).fileMappings.map FileMapping.toFile,
        ∃ m ∈ (st.persisted.addLogged logged).fileMappings, m.toFile = f := fun f hf =>
      List.mem_map.mp hf
    refine ⟨fun r hr => (hrecords r (hmem r hr)).1, fun i hi j hj heq _ => ?_,
      by simp [pendingFiles], fun i hi => ?_, by simp, fun f hf hd r hr hrb => ?_,
      fun f hf r hr hrb => ?_, hids, fun m hm => ?_⟩
    · have hids : ∀ k < ((st.persisted.addLogged logged).fileMappings.map
          FileMapping.toFile).length, (st.persisted.addLogged logged).blobIds[k]? =
          some ((((st.persisted.addLogged logged).fileMappings.map
            FileMapping.toFile)[k]?.getD default).blobId) := by
        intro k hk
        rw [List.length_map] at hk
        rw [SuperblockFiles.blobIds, List.getElem?_map, List.getElem?_map,
          List.getElem?_eq_getElem hk]
        rfl
      have hlen : i < (st.persisted.addLogged logged).blobIds.length := by
        rw [List.length_map] at hi
        rwa [SuperblockFiles.blobIds, List.length_map]
      refine (List.getElem?_inj hlen hnodup).mp ?_
      rw [hids i hi, hids j hj]
      exact congrArg some heq
    · have hi := hindex i hi
      have hid := FileSpace.fileId_of_activeIndex hi
      obtain ⟨m, hm, heq⟩ := hfile _ (FileSpace.fileAt_mem (FileSpace.activeIndex_lt hi))
      rw [← heq] at hid ⊢
      exact ⟨(hblobs m hm).1, (hkeeps m hm).1 hid⟩
    · obtain ⟨m, hm, rfl⟩ := hfile f hf
      exact ((hkeeps m hm).2 r (hmem r hr) hrb).1 hd
    · obtain ⟨m, hm, rfl⟩ := hfile f hf
      exact ((hkeeps m hm).2 r (hmem r hr) hrb).2
    · exact .inr ⟨_, List.mem_map_of_mem hm, rfl, rfl⟩

end Sized

/-! ### Files that writes go to -/

namespace Extents

variable {st st' : FileStore W}

theorem lt_of_mem_current (h : st.Extents) {i : ℕ} (hi : i ∈ st.current) :
    i < st.space.files.length ∧ i ∉ st.pendingFiles := by
  rcases mem_current.mp hi with hi | ⟨w, hw, rfl⟩
  · exact ⟨FileSpace.activeIndex_lt hi,
      fun hin => h.pending_ne i hin (FileSpace.fileId_of_activeIndex hi)⟩
  · exact ⟨(h.waits w hw).place_lt, (h.waits w hw).not_pending⟩

/-- They stay the same when a file is added. -/
theorem current_push (h : st.Extents) (hfiles : st'.space.files = st.space.pushNewFile.files)
    (hactive : st'.space.activeFileId = st.space.activeFileId) (hwaits : st'.waits = st.waits) :
    ∀ i ∈ st'.current, i ∈ st.current ∧ i < st.space.files.length := by
  have hindex : st'.space.activeIndex = st.space.activeIndex := by
    rw [← st.space.activeIndex_pushNewFile h.active_lt, FileSpace.activeIndex, hfiles, hactive,
      FileSpace.activeIndex]
    rfl
  intro i hi
  have hi : i ∈ st.current := by
    rwa [current, hindex, hwaits, ← current] at hi
  exact ⟨hi, (h.lt_of_mem_current hi).1⟩

/-- They stay the same when the last file, a pending one, is removed. -/
theorem current_drop (h : st.Extents) {i : ℕ} (hi : i ∈ st.pendingFiles)
    (hlast : i + 1 = st.space.files.length)
    (hfiles : st'.space.files = st.space.dropNewFile.files)
    (hactive : st'.space.activeFileId = st.space.activeFileId) (hwaits : st'.waits = st.waits) :
    ∀ j ∈ st'.current, j ∈ st.current ∧ j < st'.space.files.length := by
  have hindex : st'.space.activeIndex = st.space.activeIndex := by
    rw [← st.space.activeIndex_dropNewFile hlast (h.pending_ne i hi), FileSpace.activeIndex,
      hfiles, hactive, FileSpace.activeIndex]
    rfl
  intro j hj
  have hj : j ∈ st.current := by
    rwa [current, hindex, hwaits, ← current] at hj
  refine ⟨hj, ?_⟩
  obtain ⟨hlt, hnot⟩ := h.lt_of_mem_current hj
  have hne : j ≠ i := fun heq => hnot (heq ▸ hi)
  rw [hfiles, FileSpace.dropNewFile, List.length_dropLast]
  omega

/-- A new file is one of them when it becomes the active one. -/
theorem current_open (htable : st.TableOk) {i : ℕ} (hi : i ∈ st.pendingFiles)
    (hfiles : st'.space.files = (st.space.finishNewFile i).files)
    (hactive : st'.space.activeFileId = st.space.activeFileId ∨
      st'.space.activeFileId = (st.space.fileAt i).fileId)
    (hwaits : st'.waits = st.waits) : ∀ j ∈ st'.current, j ∈ st.current ∨ j = i := by
  intro j hj
  rcases mem_current.mp hj with hj | ⟨w, hw, rfl⟩
  · rcases hactive with hactive | hactive
    · refine .inl (mem_current.mpr (.inl ?_))
      rw [← st.space.activeIndex_modifyFile i (f := fun file => file.opened st.space.nextBlobId)
        fun _ => rfl, ← hj, FileSpace.activeIndex, FileSpace.activeIndex, hfiles, hactive]
      rfl
    · have hnodup : st'.space.fileIds.Nodup := by
        have hids : st'.space.fileIds = (st.space.finishNewFile i).fileIds :=
          congrArg (List.map FileInfo.fileId) hfiles
        rw [hids, FileSpace.fileIds_finishNewFile]
        exact htable.numbering.nodup
      have hilt : i < st'.space.files.length := by
        rw [hfiles]
        exact (st.space.length_modifyFile i _).symm ▸ htable.pending_lt i hi
      have hid : (st'.space.fileAt i).fileId = st'.space.activeFileId := by
        rw [hactive, ← FileSpace.fileId_fileAt_finishNewFile st.space i i, FileSpace.fileAt, hfiles,
          FileSpace.fileAt]
      exact .inr (Option.some.inj
        (hj.symm.trans (FileSpace.activeIndex_eq_some_of hnodup hilt hid)))
  · exact .inl (mem_current.mpr (.inr ⟨w, hwaits ▸ hw, rfl⟩))

end Extents

/-- **Every act that meets the conditions keeps the sizes.** -/
theorem sized_act {st st' : FileStore W} {act : FileAct W} (h : st.Sized) (hext : st.Extents)
    (htable : st.TableOk) (hown : st.OwnsLastFile act) (hkeeps : st.KeepsSizes act)
    (hs : st.act act = some st') : st'.Sized := by
  have hsub {α : Type} (l : List α) : l ⊆ l := List.Subset.refl l
  have hsame : ∀ r ∈ st.used, ∃ q ∈ st.used, r.blobId = q.blobId ∧ r.stop ≤ q.stop :=
    fun r hr => ⟨r, hr, rfl, le_rfl⟩
  have hruns : ∀ run ∈ st.runs, ∃ old ∈ st.runs, run.dest = old.dest :=
    fun run hrun => ⟨run, hrun, rfl⟩
  cases act with
  | mark i state =>
      obtain rfl := Option.some.inj hs
      refine h.modifyFile i (fun _ => rfl) (fun _ => rfl) (fun hd => absurd hd hkeeps)
        fun r hr hrb => ?_
      by_cases hi : i < st.space.files.length
      · exact h.covered _ (FileSpace.fileAt_mem hi) r hr hrb
      · rw [FileSpace.fileAt, List.getElem?_eq_none (not_lt.mp hi)]
        exact .inl rfl
  | flags allocating pendingCheckpoint nearFull =>
      obtain rfl := Option.some.inj hs
      exact h.mono rfl (hsub _) (hsub _) hruns hsame h.nodup h.mapped
  | submit size write =>
      obtain ⟨i, hi, rfl⟩ := Option.map_eq_some_iff.mp hs
      exact h.submitAt hext (FileSpace.roomyFile_eq_some hi).1 size write
  | drain size write =>
      obtain ⟨i, hi, rfl⟩ := Option.map_eq_some_iff.mp hs
      exact h.submitAt hext (Option.filter_eq_some_iff.mp hi).1 size write
  | complete i ranges =>
      obtain ⟨io, hio, hs⟩ := Option.bind_eq_some_iff.mp hs
      obtain ⟨⟨hsplits, -⟩, hs⟩ := Option.ite_none_right_eq_some.mp hs
      obtain rfl := Option.some.inj hs
      refine h.mono rfl (hsub _) (hsub _) hruns (fun r hr => ?_) h.nodup h.mapped
      rcases mem_used.mp hr with hr | ⟨other, hother, rfl⟩
      · rcases List.mem_append.mp hr with hr | hr
        · exact hsame r (mem_used.mpr (.inl hr))
        · exact ⟨io.range, mem_used.mpr (.inr ⟨io, List.mem_of_getElem? hio, rfl⟩),
            (hsplits.1 r hr).1, (hsplits.1 r hr).2.2⟩
      · exact hsame _ (mem_used.mpr (.inr ⟨other, List.eraseIdx_subset hother, rfl⟩))
  | wait size =>
      obtain ⟨i, hi, rfl⟩ := Option.map_eq_some_iff.mp hs
      exact h.wait (FileSpace.roomyFile_eq_some hi).1 size
  | endWait ok =>
      rw [FileStore.act] at hs
      split at hs
      · cases hs
      · next w rest hwaits =>
          cases ok with
          | false =>
              obtain rfl := Option.some.inj hs
              refine h.mono rfl (fun j hj => ?_) (hsub _) hruns hsame h.nodup h.mapped
              rcases mem_current.mp hj with hj | ⟨v, hv, rfl⟩
              · exact mem_current.mpr (.inl hj)
              · exact mem_current.mpr (.inr ⟨v, hwaits ▸ List.mem_cons_of_mem _ hv, rfl⟩)
          | true =>
              obtain ⟨-, hs⟩ := Option.ite_none_right_eq_some.mp hs
              obtain rfl := Option.some.inj hs
              exact h.endWait hext hwaits
  | beginAsync =>
      obtain rfl := Option.some.inj hs
      exact h.push htable ⟨rfl, rfl⟩ (hext.current_push rfl rfl rfl)
        (List.cons_subset_cons _ (List.subset_append_right _ _))
        (fun run hrun => ⟨hrun, (hext.runs run hrun).dest_lt⟩) rfl
  | endAsync ok =>
      obtain ⟨i, hi, rfl⟩ := Option.map_eq_some_iff.mp hs
      obtain ⟨hmem, hpending⟩ := htable.pending_of_newFile hi
      cases ok with
      | false =>
          have hlt : ∀ j, j < st.space.files.length → j ≠ i →
              j < st.space.files.dropLast.length := by
            have hlast := hown i hi
            intro j hj hne
            rw [List.length_dropLast]
            omega
          exact h.drop hmem (hown i hi) ⟨rfl, rfl⟩ (hext.current_drop hmem (hown i hi) rfl rfl rfl)
            (fun j hj => ⟨(hpending j hj).1, hlt j (htable.pending_lt j (hpending j hj).1)
              (hpending j hj).2⟩)
            (fun run hrun => ⟨hrun, hlt _ (hext.runs run hrun).dest_lt fun heq =>
              (hext.runs run hrun).not_pending (heq ▸ hmem)⟩) rfl
      | true =>
          rw [FileSpace.onNewFileAllocated_true hi (hown i hi)]
          exact h.openFile hext htable hmem ⟨rfl, rfl⟩
            (Extents.current_open htable hmem rfl
              (.inr (FileSpace.fileId_fileAt_finishNewFile _ i i)) rfl)
            hpending (fun run hrun => .inl hrun) rfl
  | beginAlloc =>
      obtain rfl := Option.some.inj hs
      exact h.push htable ⟨rfl, rfl⟩ (hext.current_push rfl rfl rfl) List.perm_middle.subset
        (fun run hrun => ⟨hrun, (hext.runs run hrun).dest_lt⟩) rfl
  | endAlloc use =>
      rw [FileStore.act] at hs
      split at hs
      · cases hs
      · next i rest hallocs =>
          obtain rfl := Option.some.inj hs
          obtain ⟨hmem, hpending⟩ := htable.pending_of_allocs hallocs
          obtain ⟨hactive, hindex⟩ := hext.endAlloc htable hallocs
          have hopened : Sized { st with
              space := (st.space.finishNewFile i).activate i, allocs := rest } :=
            h.openFile hext htable hmem ⟨rfl, rfl⟩ (Extents.current_open htable hmem rfl
              (.inr (FileSpace.fileId_fileAt_finishNewFile _ i i)) rfl) hpending
              (fun run hrun => .inl hrun) rfl
          cases use with
          | sync size => exact hopened.wait hindex size
          | buffer size write => exact hopened.submitAt hactive hindex size write
          | compaction source =>
              refine h.openFile hext htable hmem ⟨rfl, rfl⟩
                (Extents.current_open htable hmem rfl (.inl rfl) rfl) hpending
                (fun run hrun => ?_) rfl
              rcases List.mem_append.mp hrun with hrun | hrun
              · exact .inl hrun
              · rw [List.mem_singleton.mp hrun]
                exact .inr rfl
  | failAlloc =>
      rw [FileStore.act] at hs
      split at hs
      · cases hs
      · next i rest hallocs =>
          obtain rfl := Option.some.inj hs
          obtain ⟨hmem, hpending⟩ := htable.pending_of_allocs hallocs
          have hlast := hown i (by rw [hallocs]; rfl)
          have hlt : ∀ j, j < st.space.files.length → j ≠ i →
              j < st.space.files.dropLast.length := by
            intro j hj hne
            rw [List.length_dropLast]
            omega
          exact h.drop hmem hlast ⟨rfl, rfl⟩ (hext.current_drop hmem hlast rfl rfl rfl)
            (fun j hj => ⟨(hpending j hj).1, hlt j (htable.pending_lt j (hpending j hj).1)
              (hpending j hj).2⟩)
            (fun run hrun => ⟨hrun, hlt _ (hext.runs run hrun).dest_lt fun heq =>
              (hext.runs run hrun).not_pending (heq ▸ hmem)⟩) rfl
  | migrate k size ok =>
      obtain ⟨run, hrun, hs⟩ := Option.bind_eq_some_iff.mp hs
      cases ok with
      | false =>
          obtain rfl := Option.some.inj hs
          exact h
      | true =>
          obtain ⟨-, hs⟩ := Option.ite_none_right_eq_some.mp hs
          obtain rfl := Option.some.inj hs
          have hmem := List.mem_of_getElem? hrun
          have hmoved := h.modifyFile run.dest (f := fun file =>
            { file with writeOffset := run.destOffset + size, size := run.destOffset + size })
            (fun _ => rfl) (fun _ => rfl) h.idle_of_deleted
            fun r hr hrb => absurd hrb (h.dests run hmem r hr)
          refine hmoved.mono rfl (hsub _) (hsub _) (fun other hother => ?_)
            (fun r hr => ⟨r, hr, rfl, le_rfl⟩) hmoved.nodup hmoved.mapped
          rcases List.mem_or_eq_of_mem_set hother with hother | rfl
          · exact ⟨other, hother, rfl⟩
          · exact ⟨run, hmem, rfl⟩
  | discard k =>
      obtain ⟨run, hrun, rfl⟩ := Option.map_eq_some_iff.mp hs
      have hmem := List.mem_of_getElem? hrun
      have hdest := hext.runs run hmem
      have hmarked := h.modifyFile run.dest (f := fun file =>
        { file with state := .kDeleted, blobOpened := false }) (fun _ => rfl) (fun _ => rfl)
        (fun _ => ⟨hdest.not_current, hdest.not_pending, h.dests run hmem⟩)
        fun r hr hrb => absurd hrb (h.dests run hmem r hr)
      exact hmarked.mono rfl (hsub _) (hsub _) (fun run hrun => ⟨run, List.eraseIdx_subset hrun, rfl⟩)
        (fun r hr => ⟨r, hr, rfl, le_rfl⟩) hmarked.nodup hmarked.mapped
  | updateSuperblock position dataBytes garbageBytes =>
      obtain rfl := Option.some.inj hs
      refine h.mono rfl (hsub _) (hsub _) hruns hsame
        (SuperblockFiles.nodup_fileIds_updateAll h.nodup _) fun m hm => ?_
      rcases SuperblockFiles.mem_updateAll hm with hm | ⟨file, hfile, rfl⟩
      · exact h.mapped m hm
      · exact .inr ⟨file, hfile, rfl, rfl⟩
  | superblockWritten ok =>
      obtain ⟨superblock, -, rfl⟩ := Option.map_eq_some_iff.mp hs
      exact h.mono rfl (hsub _) (hsub _) hruns hsame h.nodup h.mapped
  | reopen logged =>
      obtain ⟨hblobs, hs⟩ := Option.ite_none_right_eq_some.mp hs
      obtain rfl := Option.some.inj hs
      exact Sized.reopen hext hblobs h.used_ne hown.1 hkeeps

end FileStore

end SpdkKv
