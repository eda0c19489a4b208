import SpdkKv.FileTable

/-!
# Room in the Data Files

Before a record is placed behind the others the code looks whether the active file has room
for it; but a record that waits for a new file is placed there without a look, one of `put`
or `del` takes its space from whatever the file has become meanwhile, and a compaction does
not look at all. As long as these find room, no file is longer than `data_file_size`.

## Main results

* `FileStore.inBounds_act`: every act that meets `FileStore.FindsRoom` keeps the files within
  bounds.
* `EngineSystem.files_in_bounds`: **in every run of the engine whose events meet the
  condition, no file is longer than `data_file_size`, and no range that is submitted ends
  behind it**.
-/

namespace SpdkKv

/-- The bytes that are taken for a use of a new file. -/
def FileUse.size {W : Type} : FileUse W → ℕ
  | .sync size => size
  | .buffer size _ => size
  | .compaction _ => 0

/-- The files of a superblock are not longer than a bound. -/
def SuperblockFiles.InBounds (superblock : SuperblockFiles) (dataFileSize : ℕ) : Prop :=
  ∀ m ∈ superblock.fileMappings, m.writeOffset ≤ dataFileSize

/-- The range of a write behind the others ends where the file ends afterwards. -/
theorem FileInfo.stop_rangeFor_le (file : FileInfo) (size : ℕ) :
    (file.rangeFor size).stop ≤ file.writeOffset + size := by
  rw [BlobRange.stop]
  exact Nat.add_le_add_left (Nat.mod_le _ _) _

theorem FileSpace.roomyFile_eq_some {W : Type} {self : FileSpace W} {size i : ℕ}
    (h : self.roomyFile size = some i) :
    self.activeIndex = some i ∧ (self.fileAt i).blobOpened = true ∧
      (self.fileAt i).writeOffset + size ≤ self.dataFileSize := by
  obtain ⟨hactive, hroom⟩ := Option.filter_eq_some_iff.mp h
  rw [Bool.and_eq_true, decide_eq_true_eq] at hroom
  exact ⟨hactive, hroom.1, hroom.2⟩

namespace FileStore

variable {W : Type}

/-- Files, ranges and superblocks are within bounds. -/
structure InBounds (st : FileStore W) : Prop where
  header : sizeofDataFileHeader ≤ st.space.dataFileSize
  files : ∀ file ∈ st.space.files, file.writeOffset ≤ st.space.dataFileSize
  inflight : ∀ io ∈ st.space.inflight, io.range.stop ≤ st.space.dataFileSize
  waits : ∀ w ∈ st.waits, w.range.stop ≤ st.space.dataFileSize
  copies : ∀ range ∈ st.copies, range.stop ≤ st.space.dataFileSize
  superblock : st.space.superblock.InBounds st.space.dataFileSize
  writing : ∀ superblock ∈ st.writing, superblock.InBounds st.space.dataFileSize
  persisted : st.persisted.InBounds st.space.dataFileSize

/-- The condition for the sizes: what is placed without a look has room. -/
def FindsRoom (st : FileStore W) : FileAct W → Prop
  | .drain size _ => ∀ i ∈ st.space.activeIndex,
      (st.space.fileAt i).writeOffset + size ≤ st.space.dataFileSize
  | .endWait true => ∀ w ∈ st.waits.head?,
      (st.space.fileAt w.place).writeOffset + w.size ≤ st.space.dataFileSize
  | .endAlloc use => ∀ i ∈ st.allocs.head?,
      (st.space.fileAt i).writeOffset + use.size ≤ st.space.dataFileSize
  | .migrate k size true => ∀ run ∈ st.runs[k]?,
      run.destOffset + size ≤ st.space.dataFileSize
  | _ => True

namespace InBounds

variable {st : FileStore W}

theorem fileAt_le (h : st.InBounds) (i : ℕ) :
    (st.space.fileAt i).writeOffset ≤ st.space.dataFileSize := by
  by_cases hi : i < st.space.files.length
  · exact h.files _ (FileSpace.fileAt_mem hi)
  · rw [FileSpace.fileAt, List.getElem?_eq_none (not_lt.mp hi)]
    exact h.header

/-- A file changes, and stays within bounds. -/
theorem modifyFile (h : st.InBounds) (i : ℕ) {f : FileInfo → FileInfo}
    (hf : i < st.space.files.length →
      (f (st.space.fileAt i)).writeOffset ≤ st.space.dataFileSize) :
    InBounds { st with space := st.space.modifyFile i f } :=
  { h with
    files := by
      intro file hfile
      rcases FileSpace.mem_modifyFile hfile with hfile | ⟨hi, rfl⟩
      · exact h.files file hfile
      · exact hf hi }

/-- A write is placed at the end of a file that has room. -/
theorem submitAt (h : st.InBounds) {i size : ℕ} (write : FileInfo → W)
    (hroom : (st.space.fileAt i).writeOffset + size ≤ st.space.dataFileSize) :
    InBounds { st with space := st.space.submitAt i size write } :=
  { h.modifyFile i (f := fun file => file.grow size) fun _ => hroom with
    inflight := by
      intro io hio
      rcases List.mem_append.mp hio with hio | hio
      · exact h.inflight io hio
      · rw [List.mem_singleton.mp hio]
        exact ((st.space.fileAt i).stop_rangeFor_le size).trans hroom }

/-- A record of `put` or `del` is submitted to a file that has room. -/
theorem wait (h : st.InBounds) {i size : ℕ}
    (hroom : (st.space.fileAt i).writeOffset + size ≤ st.space.dataFileSize) :
    InBounds { st with waits := ⟨i, st.space.fileAt i, size⟩ :: st.waits } :=
  { h with
    waits := by
      intro w hw
      rcases List.mem_cons.mp hw with rfl | hw
      · exact ((st.space.fileAt i).stop_rangeFor_le size).trans hroom
      · exact h.waits w hw }

theorem pushNewFile (h : st.InBounds) : InBounds { st with space := st.space.pushNewFile } :=
  { h with
    files := by
      intro file hfile
      rcases List.mem_append.mp hfile with hfile | hfile
      · exact h.files file hfile
      · rw [List.mem_singleton.mp hfile]
        exact h.header }

theorem dropNewFile (h : st.InBounds) : InBounds { st with space := st.space.dropNewFile } :=
  { h with files := fun file hfile => h.files file (List.dropLast_subset _ hfile) }

theorem updateFileMapping (h : st.InBounds) {file : FileInfo}
    (hfile : file.writeOffset ≤ st.space.dataFileSize) :
    InBounds { st with space := st.space.updateFileMapping file } :=
  { h with
    superblock := by
      intro m hm
      rcases SuperblockFiles.mem_updateFileMapping hm with hm | rfl
      · exact h.superblock m hm
      · exact hfile }

/-- The blob of a new file is opened, and the superblock knows the file. -/
theorem finishNewFile (h : st.InBounds) (i : ℕ) :
    InBounds { st with space := st.space.finishNewFile i } := by
  have hopened : InBounds { st with space := st.space.openNewFile i } :=
    { h.modifyFile i (f := fun file => file.opened st.space.nextBlobId) fun _ => h.fileAt_le i with }
  exact hopened.updateFileMapping (hopened.fileAt_le i)

/-- The caller of an allocation goes on with the new file. -/
theorem useFile (h : st.InBounds) {i : ℕ} {use : FileUse W}
    (hroom : (st.space.fileAt i).writeOffset + use.size ≤ st.space.dataFileSize) :
    (st.useFile i use).InBounds := by
  cases use with
  | sync size =>
      have hactive : InBounds { st with space := st.space.activate i } := { h with }
      exact hactive.wait hroom
  | buffer size write =>
      have hactive : InBounds { st with space := st.space.activate i } := { h with }
      exact hactive.submitAt write hroom
  | compaction source => exact { h with }

theorem reopen (h : st.InBounds) (logged : List (ℕ × ℕ)) :
    InBounds (W := W) { st with
      space := .reopened st.space.dataFileSize st.space.nextBlobId st.persisted logged
      allocs := []
      waits := []
      runs := []
      writing := none } := by
  have hlogged : (st.persisted.addLogged logged).InBounds st.space.dataFileSize := by
    intro m hm
    rcases SuperblockFiles.mem_addLogged hm with hm | ⟨-, hoffset⟩
    · exact h.persisted m hm
    · rw [hoffset]
      exact h.header
  by_cases hnil : (st.persisted.addLogged logged).fileMappings = []
  · rw [FileSpace.reopened_eq_of_nil _ _ hnil]
    refine ⟨h.header, ?_, by simp, by simp, h.copies, ?_, by simp, h.persisted⟩
    · intro file hfile
      rw [List.mem_singleton.mp hfile]
      exact h.header
    · intro m hm
      rw [List.mem_singleton.mp hm]
      exact h.header
  · rw [FileSpace.reopened_eq _ _ hnil]
    refine ⟨h.header, ?_, by simp, by simp, h.copies, hlogged, by simp, h.persisted⟩
    intro file hfile
    obtain ⟨m, hm, rfl⟩ := List.mem_map.mp hfile
    exact hlogged m hm

end InBounds

/-- **Every act that meets the condition keeps the files within bounds.** -/
theorem inBounds_act {st st' : FileStore W} {act : FileAct W} (h : st.InBounds)
    (hc : st.FindsRoom act) (hs : st.act act = some st') : st'.InBounds := by
  cases act with
  | mark i state =>
      obtain rfl := Option.some.inj hs
      exact h.modifyFile i fun _ => h.fileAt_le _
  | flags allocating pendingCheckpoint nearFull =>
      obtain rfl := Option.some.inj hs
      exact { h with }
  | submit size write =>
      obtain ⟨i, hi, rfl⟩ := Option.map_eq_some_iff.mp hs
      exact h.submitAt write (FileSpace.roomyFile_eq_some hi).2.2
  | drain size write =>
      obtain ⟨i, hi, rfl⟩ := Option.map_eq_some_iff.mp hs
      exact h.submitAt write (hc i (Option.filter_eq_some_iff.mp hi).1)
  | complete i ranges =>
      obtain ⟨io, -, hs⟩ := Option.bind_eq_some_iff.mp hs
      obtain ⟨-, hs⟩ := Option.ite_none_right_eq_some.mp hs
      obtain rfl := Option.some.inj hs
      exact { h with inflight := fun io hio => h.inflight io (List.eraseIdx_subset hio) }
  | wait size =>
      obtain ⟨i, hi, rfl⟩ := Option.map_eq_some_iff.mp hs
      exact h.wait (FileSpace.roomyFile_eq_some hi).2.2
  | endWait ok =>
      rw [FileStore.act] at hs
      split at hs
      · cases hs
      · next w rest hwaits =>
          have hrest : ∀ w ∈ rest, w.range.stop ≤ st.space.dataFileSize := fun w hw =>
            h.waits w (hwaits ▸ List.mem_cons_of_mem _ hw)
          cases ok with
          | false =>
              obtain rfl := Option.some.inj hs
              exact { h with waits := hrest }
          | true =>
              obtain ⟨-, hs⟩ := Option.ite_none_right_eq_some.mp hs
              obtain rfl := Option.some.inj hs
              have hgrow := h.modifyFile w.place (f := fun file => file.grow w.size) fun _ =>
                hc w (by rw [hwaits]; rfl)
              exact { hgrow with waits := hrest }
  | beginAsync =>
      obtain rfl := Option.some.inj hs
      exact { h.pushNewFile with }
  | endAsync ok =>
      obtain ⟨i, hi, rfl⟩ := Option.map_eq_some_iff.mp hs
      have hflags : InBounds { st with
        space := { st.space with allocatingNewFile := false, newFile := none } } := { h with }
      cases ok with
      | false => exact hflags.dropNewFile
      | true =>
          have hopened : InBounds { st with
            space := FileSpace.openNewFile
              { st.space with allocatingNewFile := false, newFile := none } i } :=
            { hflags.modifyFile i (f := fun file => file.opened st.space.nextBlobId) fun _ =>
                h.fileAt_le i with }
          have hmapped := hopened.updateFileMapping (hopened.fileAt_le
            ((FileSpace.openNewFile
              { st.space with allocatingNewFile := false, newFile := none } i).files.length - 1))
          rw [FileSpace.onNewFileAllocated, hi, if_pos rfl]
          exact { hmapped with }
  | beginAlloc =>
      obtain rfl := Option.some.inj hs
      exact { h.pushNewFile with }
  | endAlloc use =>
      rw [FileStore.act] at hs
      split at hs
      · cases hs
      · next i rest hallocs =>
          obtain rfl := Option.some.inj hs
          have hfinish : InBounds
              { st with space := st.space.finishNewFile i, allocs := rest } :=
            { h.finishNewFile i with }
          have hoffset : ((st.space.finishNewFile i).fileAt i).writeOffset =
              (st.space.fileAt i).writeOffset :=
            st.space.apply_fileAt_modifyFile i i (g := FileInfo.writeOffset) fun _ => rfl
          refine hfinish.useFile ?_
          rw [hoffset]
          exact hc i (by rw [hallocs]; rfl)
  | failAlloc =>
      rw [FileStore.act] at hs
      split at hs
      · cases hs
      · obtain rfl := Option.some.inj hs
        exact { h.dropNewFile with }
  | migrate k size ok =>
      obtain ⟨run, hrun, hs⟩ := Option.bind_eq_some_iff.mp hs
      cases ok with
      | false =>
          obtain rfl := Option.some.inj hs
          exact h
      | true =>
          obtain ⟨-, hs⟩ := Option.ite_none_right_eq_some.mp hs
          obtain rfl := Option.some.inj hs
          have hroom := hc run hrun
          have hmigrated := h.modifyFile run.dest (f := fun file =>
            { file with writeOffset := run.destOffset + size, size := run.destOffset + size })
            fun _ => hroom
          refine { hmigrated with copies := fun range hrange => ?_ }
          rcases List.mem_append.mp hrange with hrange | hrange
          · exact h.copies range hrange
          · rw [List.mem_singleton.mp hrange]
            exact (Nat.add_le_add_left (Nat.mod_le _ _) _).trans hroom
  | discard k =>
      obtain ⟨run, -, rfl⟩ := Option.map_eq_some_iff.mp hs
      exact { h.modifyFile run.dest fun _ => h.fileAt_le _ with }
  | updateSuperblock position dataBytes garbageBytes =>
      obtain rfl := Option.some.inj hs
      have hall : (st.updatedSuperblock position dataBytes garbageBytes).InBounds
          st.space.dataFileSize := by
        intro m hm
        rcases SuperblockFiles.mem_updateAll hm with hm | ⟨file, hfile, rfl⟩
        · exact h.superblock m hm
        · exact h.files file hfile
      refine { h with superblock := hall, writing := fun superblock hsb => ?_ }
      obtain rfl := Option.some.inj hsb
      exact hall
  | superblockWritten ok =>
      obtain ⟨superblock, hsb, rfl⟩ := Option.map_eq_some_iff.mp hs
      refine { h with writing := by simp, persisted := ?_ }
      cases ok with
      | false => exact h.persisted
      | true => exact h.writing superblock hsb
  | reopen logged =>
      obtain ⟨-, hs⟩ := Option.ite_none_right_eq_some.mp hs
      obtain rfl := Option.some.inj hs
      exact h.reopen logged

instance decidableFindsRoom (st : FileStore W) (act : FileAct W) :
    Decidable (st.FindsRoom act) :=
  match act with
  | .drain _ _ => inferInstanceAs (Decidable (∀ i ∈ st.space.activeIndex, _ ≤ _))
  | .endWait true => inferInstanceAs (Decidable (∀ w ∈ st.waits.head?, _ ≤ _))
  | .endAlloc _ => inferInstanceAs (Decidable (∀ i ∈ st.allocs.head?, _ ≤ _))
  | .migrate k _ true => inferInstanceAs (Decidable (∀ run ∈ st.runs[k]?, _ ≤ _))
  | .endWait false | .migrate _ _ false | .mark _ _ | .flags _ _ _ | .submit _ _
  | .complete _ _ | .wait _ | .beginAsync | .endAsync _ | .beginAlloc | .failAlloc | .discard _
  | .updateSuperblock _ _ _ | .superblockWritten _ | .reopen _ => .isTrue trivial

end FileStore

/-! ### The files of the engine -/

namespace EngineSystem

variable {n : ℕ}

/-- No file is longer than `data_file_size`, and no range that was submitted for a record ends
behind it. -/
structure FilesInBounds (s : EngineSystem n) : Prop where
  files : ∀ file ∈ s.engine.space.files, file.writeOffset ≤ s.engine.space.dataFileSize
  inflight : ∀ io ∈ s.engine.space.inflight, io.range.stop ≤ s.engine.space.dataFileSize
  waiting : ∀ w, Frame.writing w ∈ s.stack → w.range.stop ≤ s.engine.space.dataFileSize
  copies : ∀ range ∈ s.copies, range.stop ≤ s.engine.space.dataFileSize

/-- The condition for the sizes, for an event. -/
def FindsRoom (s : EngineSystem n) (ev : EngineEvent n) : Prop :=
  (fileMachine _).Meets FileStore.FindsRoom s.view (s.acts ev)

instance (s : EngineSystem n) (ev : EngineEvent n) : Decidable (s.FindsRoom ev) :=
  inferInstanceAs (Decidable ((fileMachine _).Meets _ _ _))

theorem inBounds_created (index : MemIndex n) {dataFileSize : ℕ} (bufferCount blobPages : ℕ)
    (h : sizeofDataFileHeader ≤ dataFileSize) :
    (created index dataFileSize bufferCount blobPages).view.InBounds where
  header := h
  files := by
    intro file hfile
    rw [List.mem_singleton.mp hfile]
    exact h
  inflight := by simp [view, created, FileSpace.created]
  waits := by simp [view, created]
  copies := by simp [view, created]
  superblock := by
    intro m hm
    rw [List.mem_singleton.mp hm]
    exact h
  writing := by simp [view, created]
  persisted := by
    intro m hm
    rw [List.mem_singleton.mp hm]
    exact h

/-- **No file grows beyond its size**: in every run of the engine whose events meet the
condition, the offsets of all files and the ends of all ranges submitted for records are at
most `data_file_size`. -/
theorem files_in_bounds {index : MemIndex n} {dataFileSize bufferCount blobPages : ℕ}
    (hheader : sizeofDataFileHeader ≤ dataFileSize) {s : EngineSystem n}
    {evs : List (EngineEvent n)}
    (hc : (engineMachine n).Meets FindsRoom
      (created index dataFileSize bufferCount blobPages) evs)
    (hr : (engineMachine n).run (created index dataFileSize bufferCount blobPages) evs = some s) :
    s.FilesInBounds := by
  obtain ⟨-, h⟩ := (engine_refines n).run_invariant FileStore.InBounds
    (fun _ _ _ h hc hs => FileStore.inBounds_act h hc hs) (.created ..)
    (inBounds_created index bufferCount blobPages hheader) hc hr
  exact ⟨h.files, h.inflight, fun w hw => h.waits ⟨w.place, w.file, w.req.alignedSize⟩
    (List.mem_filterMap.mpr ⟨_, hw, rfl⟩), h.copies⟩

/-- A record of one page fits the first file. -/
theorem files_in_bounds_small_put :
    ∃ s, (engineMachine 3).run smallEngine [.put 1 100, .wake true] = some s ∧
      s.FilesInBounds := by
  have hmeets : (engineMachine 3).Meets FindsRoom smallEngine [.put 1 100, .wake true] := by
    decide +kernel
  have hrun : ((engineMachine 3).run smallEngine [.put 1 100, .wake true]).isSome := by
    decide +kernel
  obtain ⟨s, hs⟩ := Option.isSome_iff_exists.mp hrun
  exact ⟨s, hs, files_in_bounds (by decide) hmeets hs⟩

/-- **A record can be larger than a file**: it goes to a new file, without a look whether it
has room there. -/
theorem large_record_leaves_bounds :
    ∃ s, (engineMachine 3).run smallEngine [.put 1 8192, .wake true, .wake true] = some s ∧
      s.engine.space.files.map FileInfo.writeOffset = [4096, 16384] ∧ ¬ s.FilesInBounds := by
  have hrun : ((engineMachine 3).run smallEngine [.put 1 8192, .wake true, .wake true]).map
      (fun s => (s.engine.space.dataFileSize, s.engine.space.files.map FileInfo.writeOffset)) =
      some (8192, [4096, 16384]) := by decide +kernel
  obtain ⟨s, hs, hfacts⟩ := Option.map_eq_some_iff.mp hrun
  obtain ⟨hsize, hoffsets⟩ := Prod.mk.inj hfacts
  refine ⟨s, hs, hoffsets, fun h => ?_⟩
  obtain ⟨file, hfile, hoffset⟩ : ∃ file ∈ s.engine.space.files, file.writeOffset = 16384 := by
    rw [← List.mem_map, hoffsets]
    decide
  have := h.files file hfile
  rw [hsize, hoffset] at this
  exact absurd this (by decide)

end EngineSystem

end SpdkKv
