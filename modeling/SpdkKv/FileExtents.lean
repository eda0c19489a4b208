import SpdkKv.FileRoom

/-!
# What a File Already Holds

A write goes to the active file, behind `write_offset`; a `put` or `del` that waits holds a
pointer to what was the active file when it was called. As long as the table of files is in
order and `open` restores an offset behind the records of the active file, everything that
was submitted to these files ends before their offsets. A compaction fills none of them.

## Main results

* `FileStore.Extents`: the invariant of the files that writes go to.
* `FileStore.extents_act`: **every act that meets the conditions keeps it**.
-/

namespace SpdkKv

/-! ### Places -/

namespace FileSpace

variable {W : Type}

/-- The active file, if ids are distinct, is the one with its id. -/
theorem activeIndex_eq_some_of {self : FileSpace W} (h : self.fileIds.Nodup) {i : ℕ}
    (hi : i < self.files.length) (hid : (self.fileAt i).fileId = self.activeFileId) :
    self.activeIndex = some i := by
  rw [activeIndex, List.findIdx?_eq_some_iff_getElem]
  rw [fileAt, List.getElem?_eq_getElem hi, Option.getD_some] at hid
  refine ⟨hi, beq_iff_eq.mpr hid, fun j hji => ?_⟩
  rw [beq_iff_eq]
  intro hjd
  have hids : self.fileIds[j]? = self.fileIds[i]? := by
    rw [self.getElem?_fileIds hi, self.getElem?_fileIds (hji.trans hi), fileAt, fileAt,
      List.getElem?_eq_getElem hi, List.getElem?_eq_getElem (hji.trans hi)]
    exact congrArg some (hjd.trans hid.symm)
  have hlt : j < self.fileIds.length := by
    rw [length_fileIds]
    exact hji.trans hi
  exact Nat.ne_of_lt hji ((List.getElem?_inj hlt h).mp hids)

theorem fileId_of_activeIndex {self : FileSpace W} {i : ℕ} (h : self.activeIndex = some i) :
    (self.fileAt i).fileId = self.activeFileId := by
  obtain ⟨hi, hid, -⟩ := List.findIdx?_eq_some_iff_getElem.mp h
  rw [fileAt, List.getElem?_eq_getElem hi]
  exact beq_iff_eq.mp hid

theorem fileAt_pushNewFile (self : FileSpace W) {j : ℕ} (hj : j < self.files.length) :
    self.pushNewFile.fileAt j = self.fileAt j := by
  rw [fileAt, fileAt, pushNewFile, List.getElem?_append_left hj]

theorem fileAt_dropNewFile (self : FileSpace W) {j : ℕ} (hj : j + 1 < self.files.length) :
    self.dropNewFile.fileAt j = self.fileAt j := by
  rw [fileAt, fileAt, dropNewFile, List.getElem?_dropLast, if_pos (by omega)]

/-- A file with another id does not become the active one when it is added. -/
theorem activeIndex_pushNewFile (self : FileSpace W) (h : self.activeFileId < self.nextFileId) :
    self.pushNewFile.activeIndex = self.activeIndex := by
  have hne : ((FileInfo.fresh self.nextFileId).fileId == self.activeFileId) = false :=
    beq_eq_false_iff_ne.mpr (Nat.ne_of_gt h)
  rw [activeIndex, activeIndex, pushNewFile, List.findIdx?_append, List.findIdx?_singleton, hne]
  cases List.findIdx? (fun f => f.fileId == self.activeFileId) self.files <;> rfl

/-- Removing a file with another id does not change which one is active. -/
theorem activeIndex_dropNewFile (self : FileSpace W) {i : ℕ} (hlast : i + 1 = self.files.length)
    (h : (self.fileAt i).fileId ≠ self.activeFileId) :
    self.dropNewFile.activeIndex = self.activeIndex := by
  obtain ⟨files, last, hfiles⟩ : ∃ files last, self.files = files ++ [last] :=
    List.eq_nil_or_concat' self.files |>.resolve_left fun hnil => by simp [hnil] at hlast
  have hi : i = files.length := by
    rw [hfiles, List.length_append, List.length_singleton] at hlast
    omega
  have hid : (last.fileId == self.activeFileId) = false := by
    rw [fileAt, hfiles, hi, List.getElem?_concat_length] at h
    exact beq_eq_false_iff_ne.mpr h
  rw [activeIndex, activeIndex, dropNewFile, hfiles, List.dropLast_concat, List.findIdx?_append,
    List.findIdx?_singleton, hid]
  cases List.findIdx? (fun f => f.fileId == self.activeFileId) files <;> rfl

end FileSpace

/-! ### The invariant -/

namespace FileStore

variable {W : Type}

/-- The ranges of the records that were reported successful and of the writes in flight. -/
def used (self : FileStore W) : List BlobRange :=
  self.records ++ self.space.inflight.map InflightIo.range

/-- The files that writes go to: the active one, and those that a `put` or `del` waits for. -/
def current (self : FileStore W) : List ℕ :=
  self.space.activeIndex.toList ++ self.waits.map FileWait.place

/-- A `put` or `del` waits for a file that has a blob, and has not become shorter. -/
structure WaitOk (st : FileStore W) (w : FileWait) : Prop where
  place_lt : w.place < st.space.files.length
  not_pending : w.place ∉ st.pendingFiles
  blobId : (st.space.fileAt w.place).blobId = w.file.blobId
  offset_le : w.file.writeOffset ≤ (st.space.fileAt w.place).writeOffset

/-- A compaction fills a file that no write goes to. -/
structure DestOk (st : FileStore W) (run : CompactionRun) : Prop where
  dest_lt : run.dest < st.space.files.length
  not_pending : run.dest ∉ st.pendingFiles
  not_current : run.dest ∉ st.current

/-- What was submitted to the files that writes go to ends before their offsets. -/
structure Extents (st : FileStore W) : Prop where
  active_lt : st.space.activeFileId < st.space.nextFileId
  pending_ne : ∀ i ∈ st.pendingFiles, (st.space.fileAt i).fileId ≠ st.space.activeFileId
  nextBlobId_pos : 0 < st.space.nextBlobId
  used_lt : ∀ r ∈ st.used, r.blobId < st.space.nextBlobId
  file_lt : ∀ file ∈ st.space.files, file.blobId < st.space.nextBlobId
  waits : ∀ w ∈ st.waits, st.WaitOk w
  runs : ∀ run ∈ st.runs, st.DestOk run
  blob_inj : ∀ i ∈ st.current, ∀ j ∈ st.current,
    (st.space.fileAt i).blobId = (st.space.fileAt j).blobId → i = j
  stop_le : ∀ i ∈ st.current, ∀ r ∈ st.used, r.blobId = (st.space.fileAt i).blobId →
    r.stop ≤ (st.space.fileAt i).writeOffset

/-- The condition for `open`: the active file of the superblock on disk is one of its files,
and has an offset behind every record of the file that was reported successful. -/
def RestoresOffset (st : FileStore W) : FileAct W → Prop
  | .reopen logged =>
      st.persisted.activeFileId < max 1 (st.persisted.addLogged logged).fileMappings.length ∧
        ∀ m ∈ (st.persisted.addLogged logged).fileMappings,
          m.fileId = st.persisted.activeFileId →
            ∀ r ∈ st.records, r.blobId = m.blobId → r.stop ≤ m.writeOffset
  | _ => True

instance decidableRestoresOffset (st : FileStore W) (act : FileAct W) :
    Decidable (st.RestoresOffset act) :=
  match act with
  | .reopen _ => inferInstanceAs (Decidable (_ ∧ ∀ m ∈ _, _ → ∀ r ∈ _, _ → _))
  | .mark _ _ | .flags _ _ _ | .submit _ _ | .drain _ _ | .complete _ _ | .wait _ | .endWait _
  | .beginAsync | .endAsync _ | .beginAlloc | .endAlloc _ | .failAlloc | .migrate _ _ _
  | .discard _ | .updateSuperblock _ _ _ | .superblockWritten _ => .isTrue trivial

theorem mem_current {st : FileStore W} {i : ℕ} :
    i ∈ st.current ↔ st.space.activeIndex = some i ∨ ∃ w ∈ st.waits, w.place = i := by
  rw [current, List.mem_append, Option.mem_toList, List.mem_map]

theorem mem_used {st : FileStore W} {r : BlobRange} :
    r ∈ st.used ↔ r ∈ st.records ∨ ∃ io ∈ st.space.inflight, io.range = r := by
  rw [used, List.mem_append, List.mem_map]

namespace Extents

variable {st st' : FileStore W}

/-- Fewer calls wait, and what is used was used before. -/
theorem mono (h : st.Extents) (hfiles : st'.space.files = st.space.files)
    (hactive : st'.space.activeFileId = st.space.activeFileId)
    (hnext : st'.space.nextFileId = st.space.nextFileId)
    (hblob : st'.space.nextBlobId = st.space.nextBlobId)
    (hpending : st'.pendingFiles ⊆ st.pendingFiles) (hwaits : st'.waits ⊆ st.waits)
    (hruns : ∀ run' ∈ st'.runs, ∃ run ∈ st.runs, run'.dest = run.dest)
    (hused : ∀ r' ∈ st'.used, ∃ r ∈ st.used, r'.blobId = r.blobId ∧ r'.stop ≤ r.stop) :
    st'.Extents := by
  have hat : ∀ i, st'.space.fileAt i = st.space.fileAt i := fun i => by
    rw [FileSpace.fileAt, hfiles, FileSpace.fileAt]
  have hindex : st'.space.activeIndex = st.space.activeIndex := by
    rw [FileSpace.activeIndex, hfiles, hactive, FileSpace.activeIndex]
  have hcurrent : ∀ i ∈ st'.current, i ∈ st.current := fun i hi => by
    rw [mem_current] at hi ⊢
    rw [hindex] at hi
    refine hi.imp_right fun hwait => ?_
    obtain ⟨w, hw, hplace⟩ := hwait
    exact ⟨w, hwaits hw, hplace⟩
  refine ⟨by rw [hactive, hnext]; exact h.active_lt, fun i hi => ?_, hblob ▸ h.nextBlobId_pos,
    fun r hr => ?_, ?_, fun w hw => ?_, fun run hrun => ?_, fun i hi j hj => ?_,
    fun i hi r hr hrb => ?_⟩
  · rw [hat, hactive]
    exact h.pending_ne i (hpending hi)
  · obtain ⟨q, hq, hqb, -⟩ := hused r hr
    rw [hblob, hqb]
    exact h.used_lt q hq
  · rw [hfiles, hblob]
    exact h.file_lt
  · obtain ⟨hlt, hnot, hwb, hle⟩ := h.waits w (hwaits hw)
    exact ⟨by rw [hfiles]; exact hlt, fun hin => hnot (hpending hin), by rw [hat]; exact hwb,
      by rw [hat]; exact hle⟩
  · obtain ⟨old, hold, hdest⟩ := hruns run hrun
    obtain ⟨hlt, hnot, hcur⟩ := h.runs old hold
    exact ⟨by rw [hdest, hfiles]; exact hlt, fun hin => hnot (hdest ▸ hpending hin),
      fun hin => hcur (hdest ▸ hcurrent _ hin)⟩
  · rw [hat, hat]
    exact h.blob_inj i (hcurrent i hi) j (hcurrent j hj)
  · obtain ⟨q, hq, hqb, hqs⟩ := hused r hr
    rw [hat] at hrb ⊢
    exact hqs.trans (h.stop_le i (hcurrent i hi) q hq (hqb.symm.trans hrb))

/-- A file changes, but not its id or its blob, and its offset only grows if writes go to
it. -/
theorem modifyFile (h : st.Extents) (i : ℕ) {f : FileInfo → FileInfo}
    (hid : ∀ file, (f file).fileId = file.fileId) (hb : ∀ file, (f file).blobId = file.blobId)
    (hoff : i ∈ st.current → ∀ file, file.writeOffset ≤ (f file).writeOffset) :
    Extents { st with space := st.space.modifyFile i f } := by
  have hindex := st.space.activeIndex_modifyFile i hid
  have hblob : ∀ j, ((st.space.modifyFile i f).fileAt j).blobId = (st.space.fileAt j).blobId :=
    fun j => st.space.apply_fileAt_modifyFile i j hb
  have hle : ∀ j ∈ st.current, j < st.space.files.length →
      (st.space.fileAt j).writeOffset ≤ ((st.space.modifyFile i f).fileAt j).writeOffset := by
    intro j hj hlt
    rw [FileSpace.fileAt_modifyFile _ _ _ _ hlt]
    split_ifs with hij
    · exact hoff (hij ▸ hj) _
    · exact le_rfl
  have hlt : ∀ j ∈ st.current, j < st.space.files.length := by
    intro j hj
    rcases mem_current.mp hj with hj | ⟨w, hw, rfl⟩
    · exact FileSpace.activeIndex_lt hj
    · exact (h.waits w hw).place_lt
  have hcurrent : current { st with space := st.space.modifyFile i f } = st.current := by
    rw [current, hindex, current]
  refine ⟨h.active_lt, fun j hj => ?_, h.nextBlobId_pos, h.used_lt, fun file hfile => ?_,
    fun w hw => ?_, fun run hrun => ?_, fun j hj k hk => ?_, fun j hj r hr hrb => ?_⟩
  · rw [show ((st.space.modifyFile i f).fileAt j).fileId = _ from
      st.space.apply_fileAt_modifyFile i j hid]
    exact h.pending_ne j hj
  · rcases FileSpace.mem_modifyFile hfile with hfile | ⟨hi, rfl⟩
    · exact h.file_lt file hfile
    · rw [hb]
      exact h.file_lt _ (FileSpace.fileAt_mem hi)
  · obtain ⟨hwlt, hnot, hwb, hwle⟩ := h.waits w hw
    exact ⟨by rwa [FileSpace.length_modifyFile], hnot, (hblob _).trans hwb,
      hwle.trans (hle _ (mem_current.mpr (.inr ⟨w, hw, rfl⟩)) hwlt)⟩
  · obtain ⟨hrlt, hnot, hcur⟩ := h.runs run hrun
    exact ⟨by rwa [FileSpace.length_modifyFile], hnot, by rwa [hcurrent]⟩
  · rw [hcurrent] at hj hk
    rw [hblob, hblob]
    exact h.blob_inj j hj k hk
  · rw [hcurrent] at hj
    rw [hblob] at hrb
    exact (h.stop_le j hj r hr hrb).trans (hle j hj (hlt j hj))

/-- A range at the end of a file that writes go to is used, and ends before its offset. -/
theorem use (h : st.Extents) {i : ℕ} (hi : i ∈ st.current) {q : BlobRange}
    (hqb : q.blobId = (st.space.fileAt i).blobId)
    (hqs : q.stop ≤ (st.space.fileAt i).writeOffset) (hblob : q.blobId < st.space.nextBlobId)
    (hspace : st'.space.files = st.space.files ∧
      st'.space.activeFileId = st.space.activeFileId ∧
      st'.space.nextFileId = st.space.nextFileId ∧ st'.space.nextBlobId = st.space.nextBlobId)
    (hpending : st'.pendingFiles = st.pendingFiles) (hwaits : st'.waits = st.waits)
    (hruns : st'.runs = st.runs) (hused : ∀ r ∈ st'.used, r = q ∨ r ∈ st.used) :
    st'.Extents := by
  obtain ⟨hfiles, hactive, hnext, hnextBlob⟩ := hspace
  have hat : ∀ i, st'.space.fileAt i = st.space.fileAt i := fun i => by
    rw [FileSpace.fileAt, hfiles, FileSpace.fileAt]
  have hcurrent : st'.current = st.current := by
    rw [current, FileSpace.activeIndex, hfiles, hactive, hwaits, current, FileSpace.activeIndex]
  refine ⟨by rw [hactive, hnext]; exact h.active_lt, fun j hj => ?_,
    hnextBlob ▸ h.nextBlobId_pos, fun r hr => ?_, ?_, fun w hw => ?_, fun run hrun => ?_,
    fun j hj k hk => ?_, fun j hj r hr hrb => ?_⟩
  · rw [hat, hactive]
    exact h.pending_ne j (hpending ▸ hj)
  · rw [hnextBlob]
    rcases hused r hr with rfl | hr
    · exact hblob
    · exact h.used_lt r hr
  · rw [hfiles, hnextBlob]
    exact h.file_lt
  · obtain ⟨hlt, hnot, hwb, hle⟩ := h.waits w (hwaits ▸ hw)
    exact ⟨hfiles ▸ hlt, hpending ▸ hnot, by rw [hat]; exact hwb, by rw [hat]; exact hle⟩
  · obtain ⟨hlt, hnot, hcur⟩ := h.runs run (hruns ▸ hrun)
    exact ⟨hfiles ▸ hlt, hpending ▸ hnot, hcurrent ▸ hcur⟩
  · rw [hcurrent] at hj hk
    rw [hat, hat]
    exact h.blob_inj j hj k hk
  · rw [hcurrent] at hj
    rw [hat] at hrb ⊢
    rcases hused r hr with rfl | hr
    · obtain rfl := h.blob_inj i hi j hj (hqb.symm.trans hrb)
      exact hqs
    · exact h.stop_le j hj r hr hrb

/-- A write is placed at the end of the active file. -/
theorem submitAt (h : st.Extents) {i : ℕ} (hi : st.space.activeIndex = some i) (size : ℕ)
    (write : FileInfo → W) : Extents { st with space := st.space.submitAt i size write } := by
  have hlt := FileSpace.activeIndex_lt hi
  have hgrow := h.modifyFile i (f := fun file => file.grow size) (fun _ => rfl) (fun _ => rfl)
    fun _ _ => Nat.le_add_right _ _
  have hfile : (st.space.modifyFile i fun file => file.grow size).fileAt i =
      (st.space.fileAt i).grow size :=
    (st.space.fileAt_modifyFile i i _ hlt).trans (if_pos rfl)
  refine hgrow.use (i := i) (q := (st.space.fileAt i).rangeFor size) ?_ ?_ ?_ ?_
    ⟨rfl, rfl, rfl, rfl⟩ rfl rfl rfl fun r hr => ?_
  · rw [mem_current]
    exact .inl ((st.space.activeIndex_submitAt i size write).trans hi)
  · rw [hfile]
    rfl
  · rw [hfile]
    exact (st.space.fileAt i).stop_rangeFor_le size
  · exact h.file_lt _ (FileSpace.fileAt_mem hlt)
  · rcases mem_used.mp hr with hr | ⟨io, hio, rfl⟩
    · exact .inr (mem_used.mpr (.inl hr))
    · rcases List.mem_append.mp hio with hio | hio
      · exact .inr (mem_used.mpr (.inr ⟨io, hio, rfl⟩))
      · rw [List.mem_singleton.mp hio]
        exact .inl rfl

/-- A `put` or `del` begins to wait for the active file. -/
theorem wait (h : st.Extents) {i : ℕ} (hi : st.space.activeIndex = some i) (size : ℕ) :
    Extents { st with waits := ⟨i, st.space.fileAt i, size⟩ :: st.waits } := by
  have hnot : i ∉ st.pendingFiles := fun hin =>
    h.pending_ne i hin (FileSpace.fileId_of_activeIndex hi)
  have hcurrent : ∀ j, j ∈ current { st with waits := ⟨i, st.space.fileAt i, size⟩ :: st.waits } →
      j ∈ st.current := by
    intro j hj
    rcases mem_current.mp hj with hj | ⟨w, hw, rfl⟩
    · exact mem_current.mpr (.inl hj)
    · rcases List.mem_cons.mp hw with rfl | hw
      · exact mem_current.mpr (.inl hi)
      · exact mem_current.mpr (.inr ⟨w, hw, rfl⟩)
  refine ⟨h.active_lt, h.pending_ne, h.nextBlobId_pos, h.used_lt, h.file_lt, fun w hw => ?_,
    fun run hrun => ?_, fun j hj k hk => h.blob_inj j (hcurrent j hj) k (hcurrent k hk),
    fun j hj => h.stop_le j (hcurrent j hj)⟩
  · rcases List.mem_cons.mp hw with rfl | hw
    · exact ⟨FileSpace.activeIndex_lt hi, hnot, rfl, le_rfl⟩
    · exact ⟨(h.waits w hw).place_lt, (h.waits w hw).not_pending, (h.waits w hw).blobId,
        (h.waits w hw).offset_le⟩
  · exact ⟨(h.runs run hrun).dest_lt, (h.runs run hrun).not_pending, fun hin =>
      (h.runs run hrun).not_current (hcurrent _ hin)⟩

/-- The innermost `put` or `del` takes its space. -/
theorem endWait (h : st.Extents) {w : FileWait} {rest : List FileWait}
    (hwaits : st.waits = w :: rest) :
    Extents { st with
      space := st.space.modifyFile w.place fun file => file.grow w.size
      waits := rest
      records := st.records ++ [w.range] } := by
  have hw : w ∈ st.waits := hwaits ▸ List.mem_cons_self
  obtain ⟨hlt, -, hblob, hle⟩ := h.waits w hw
  have hgrow := h.modifyFile w.place (f := fun file => file.grow w.size) (fun _ => rfl)
    (fun _ => rfl) fun _ _ => Nat.le_add_right _ _
  have hfile : (st.space.modifyFile w.place fun file => file.grow w.size).fileAt w.place =
      (st.space.fileAt w.place).grow w.size :=
    (st.space.fileAt_modifyFile w.place w.place _ hlt).trans (if_pos rfl)
  have hused : Extents { st with
      space := st.space.modifyFile w.place fun file => file.grow w.size
      records := st.records ++ [w.range] } := by
    refine hgrow.use (i := w.place) (q := w.range) ?_ ?_ ?_ ?_ ⟨rfl, rfl, rfl, rfl⟩ rfl rfl rfl
      fun r hr => ?_
    · exact mem_current.mpr (.inr ⟨w, hw, rfl⟩)
    · rw [hfile]
      exact hblob.symm
    · rw [hfile]
      have := w.file.stop_rangeFor_le w.size
      exact this.trans (Nat.add_le_add_right hle _)
    · have hmem := h.file_lt _ (FileSpace.fileAt_mem hlt)
      rw [hblob] at hmem
      exact hmem
    · rcases mem_used.mp hr with hr | hr
      · rcases List.mem_append.mp hr with hr | hr
        · exact .inr (mem_used.mpr (.inl hr))
        · exact .inl (List.mem_singleton.mp hr)
      · exact .inr (mem_used.mpr (.inr hr))
  exact hused.mono rfl rfl rfl rfl (List.Subset.refl _)
    (by rw [hwaits]; exact List.subset_cons_self _ _) (fun run hrun => ⟨run, hrun, rfl⟩)
    fun r hr => ⟨r, hr, rfl, le_rfl⟩

/-- An allocation begins. -/
theorem push (h : st.Extents) (hnext : st.space.nextFileId + 1 < 2 ^ 16)
    (hspace : st'.space.files = st.space.pushNewFile.files ∧
      st'.space.activeFileId = st.space.activeFileId ∧
      st'.space.nextFileId = st.space.pushNewFile.nextFileId ∧
      st'.space.nextBlobId = st.space.nextBlobId)
    (hpending : st'.pendingFiles ⊆ st.space.files.length :: st.pendingFiles)
    (hwaits : st'.waits = st.waits) (hruns : st'.runs = st.runs) (hused : st'.used = st.used)
    (hplaces : ∀ i ∈ st.pendingFiles, i < st.space.files.length) : st'.Extents := by
  obtain ⟨hfiles, hactive, hnext', hblob⟩ := hspace
  have hlen : st'.space.files.length = st.space.files.length + 1 := by
    rw [hfiles, FileSpace.pushNewFile, List.length_append, List.length_singleton]
  have hat : ∀ j < st.space.files.length, st'.space.fileAt j = st.space.fileAt j := by
    intro j hj
    rw [← st.space.fileAt_pushNewFile hj, FileSpace.fileAt, hfiles, FileSpace.fileAt]
  have hlast : st'.space.fileAt st.space.files.length = .fresh st.space.nextFileId := by
    rw [FileSpace.fileAt, hfiles, FileSpace.pushNewFile, List.getElem?_concat_length]
    rfl
  have hindex : st'.space.activeIndex = st.space.activeIndex := by
    rw [← st.space.activeIndex_pushNewFile h.active_lt, FileSpace.activeIndex, hfiles, hactive,
      FileSpace.activeIndex]
    rfl
  have hcurrent : st'.current = st.current := by
    rw [current, hindex, hwaits, current]
  have hlt : ∀ j ∈ st.current, j < st.space.files.length := by
    intro j hj
    rcases mem_current.mp hj with hj | ⟨w, hw, rfl⟩
    · exact FileSpace.activeIndex_lt hj
    · exact (h.waits w hw).place_lt
  have hmod : st'.space.nextFileId = st.space.nextFileId + 1 := by
    rw [hnext']
    exact Nat.mod_eq_of_lt hnext
  have hnot : ∀ j, j < st.space.files.length → j ∉ st.pendingFiles → j ∉ st'.pendingFiles := by
    intro j hj hnot hin
    rcases List.mem_cons.mp (hpending hin) with heq | hin
    · exact absurd heq (Nat.ne_of_lt hj)
    · exact hnot hin
  refine ⟨?_, fun j hj => ?_, hblob ▸ h.nextBlobId_pos, ?_, fun file hfile => ?_,
    fun w hw => ?_, fun run hrun => ?_, fun j hj k hk => ?_, fun j hj r hr hrb => ?_⟩
  · rw [hactive, hmod]
    exact Nat.lt_succ_of_lt h.active_lt
  · rw [hactive]
    rcases List.mem_cons.mp (hpending hj) with rfl | hj
    · rw [hlast]
      exact Nat.ne_of_gt h.active_lt
    · rw [hat j (hplaces j hj)]
      exact h.pending_ne j hj
  · rw [hused, hblob]
    exact h.used_lt
  · rw [hblob]
    rw [hfiles] at hfile
    rcases List.mem_append.mp hfile with hfile | hfile
    · exact h.file_lt file hfile
    · rw [List.mem_singleton.mp hfile]
      exact h.nextBlobId_pos
  · obtain ⟨hwlt, hwnot, hwb, hwle⟩ := h.waits w (hwaits ▸ hw)
    exact ⟨by omega, hnot _ hwlt hwnot, by rwa [hat _ hwlt], by rwa [hat _ hwlt]⟩
  · obtain ⟨hrlt, hrnot, hrcur⟩ := h.runs run (hruns ▸ hrun)
    exact ⟨by omega, hnot _ hrlt hrnot, hcurrent ▸ hrcur⟩
  · rw [hcurrent] at hj hk
    rw [hat j (hlt j hj), hat k (hlt k hk)]
    exact h.blob_inj j hj k hk
  · rw [hcurrent] at hj
    rw [hat j (hlt j hj)] at hrb ⊢
    exact h.stop_le j hj r (hused ▸ hr) hrb

/-- The blob of a pending file is opened: no write has gone to it yet. -/
theorem openNewFile (h : st.Extents) {i : ℕ} (hi : i ∈ st.pendingFiles)
    (hspace : st'.space.files = (st.space.openNewFile i).files ∧
      st'.space.activeFileId = st.space.activeFileId ∧
      st'.space.nextFileId = st.space.nextFileId ∧
      st'.space.nextBlobId = st.space.nextBlobId + 1)
    (hpending : st'.pendingFiles = st.pendingFiles) (hwaits : st'.waits = st.waits)
    (hruns : st'.runs = st.runs) (hused : st'.used = st.used) : st'.Extents := by
  obtain ⟨hfiles, hactive, hnext, hblob⟩ := hspace
  have hlen : st'.space.files.length = st.space.files.length := by
    rw [hfiles]
    exact st.space.length_modifyFile i _
  have hnotcur : i ∉ st.current := by
    intro hin
    rcases mem_current.mp hin with hin | ⟨w, hw, rfl⟩
    · exact h.pending_ne i hi (FileSpace.fileId_of_activeIndex hin)
    · exact (h.waits w hw).not_pending hi
  have hid : ∀ j, (st'.space.fileAt j).fileId = (st.space.fileAt j).fileId := by
    intro j
    rw [← show ((st.space.openNewFile i).fileAt j).fileId = _ from
      st.space.apply_fileAt_modifyFile i j (g := FileInfo.fileId) fun _ => rfl,
      FileSpace.fileAt, hfiles, FileSpace.fileAt]
  have hat : ∀ j, j ≠ i → j < st.space.files.length → st'.space.fileAt j = st.space.fileAt j := by
    intro j hne hj
    have hsame : (st.space.openNewFile i).fileAt j = st.space.fileAt j :=
      (st.space.fileAt_modifyFile i j _ hj).trans (if_neg (Ne.symm hne))
    rw [← hsame, FileSpace.fileAt, hfiles, FileSpace.fileAt]
  have hindex : st'.space.activeIndex = st.space.activeIndex := by
    rw [← st.space.activeIndex_modifyFile i (f := fun file => file.opened st.space.nextBlobId)
      fun _ => rfl, FileSpace.activeIndex, hfiles, hactive, FileSpace.activeIndex]
    rfl
  have hcurrent : st'.current = st.current := by
    rw [current, hindex, hwaits, current]
  have hlt : ∀ j ∈ st.current, j ≠ i ∧ j < st.space.files.length := by
    intro j hj
    refine ⟨fun heq => hnotcur (heq ▸ hj), ?_⟩
    rcases mem_current.mp hj with hj | ⟨w, hw, rfl⟩
    · exact FileSpace.activeIndex_lt hj
    · exact (h.waits w hw).place_lt
  refine ⟨by rw [hactive, hnext]; exact h.active_lt, fun j hj => ?_, by omega, fun r hr => ?_,
    fun file hfile => ?_, fun w hw => ?_, fun run hrun => ?_, fun j hj k hk => ?_,
    fun j hj r hr hrb => ?_⟩
  · rw [hid, hactive]
    exact h.pending_ne j (hpending ▸ hj)
  · rw [hblob]
    exact Nat.lt_succ_of_lt (h.used_lt r (hused ▸ hr))
  · rw [hblob]
    rw [hfiles] at hfile
    rcases FileSpace.mem_modifyFile hfile with hfile | ⟨-, rfl⟩
    · exact Nat.lt_succ_of_lt (h.file_lt file hfile)
    · exact Nat.lt_succ_self _
  · have hw : w ∈ st.waits := hwaits ▸ hw
    obtain ⟨hwlt, hwnot, hwb, hwle⟩ := h.waits w hw
    have hne := (hlt _ (mem_current.mpr (.inr ⟨w, hw, rfl⟩))).1
    exact ⟨by omega, hpending ▸ hwnot, by rwa [hat _ hne hwlt], by rwa [hat _ hne hwlt]⟩
  · obtain ⟨hrlt, hrnot, hrcur⟩ := h.runs run (hruns ▸ hrun)
    exact ⟨by omega, hpending ▸ hrnot, hcurrent ▸ hrcur⟩
  · rw [hcurrent] at hj hk
    rw [hat j (hlt j hj).1 (hlt j hj).2, hat k (hlt k hk).1 (hlt k hk).2]
    exact h.blob_inj j hj k hk
  · rw [hcurrent] at hj
    rw [hat j (hlt j hj).1 (hlt j hj).2] at hrb ⊢
    exact h.stop_le j hj r (hused ▸ hr) hrb

/-- A new file whose blob was just opened becomes the active one. -/
theorem activate (h : st.Extents) (htable : st.TableOk) {i : ℕ} (hi : i ∈ st.pendingFiles)
    (hfresh : ∀ j < st.space.files.length, j ≠ i →
      (st.space.fileAt j).blobId ≠ (st.space.fileAt i).blobId)
    (hunused : ∀ r ∈ st.used, r.blobId ≠ (st.space.fileAt i).blobId)
    (hspace : st'.space.files = st.space.files ∧
      st'.space.activeFileId = (st.space.fileAt i).fileId ∧
      st'.space.nextFileId = st.space.nextFileId ∧ st'.space.nextBlobId = st.space.nextBlobId)
    (hpending : ∀ j ∈ st'.pendingFiles, j ∈ st.pendingFiles ∧ j ≠ i)
    (hwaits : st'.waits = st.waits) (hruns : st'.runs = st.runs) (hused : st'.used = st.used) :
    st'.Extents := by
  obtain ⟨hfiles, hactive, hnext, hnextBlob⟩ := hspace
  have hplaces := htable.pending_lt
  have hilt := hplaces i hi
  have hat : ∀ i, st'.space.fileAt i = st.space.fileAt i := fun i => by
    rw [FileSpace.fileAt, hfiles, FileSpace.fileAt]
  have hnodup : st'.space.fileIds.Nodup := by
    rw [FileSpace.fileIds, hfiles]
    exact htable.numbering.nodup
  have hindex : st'.space.activeIndex = some i :=
    FileSpace.activeIndex_eq_some_of hnodup (hfiles ▸ hilt) (by rw [hat, hactive])
  -- The files that writes go to are the new one and those that calls wait for.
  have hcurrent : ∀ j ∈ st'.current, j = i ∨ ∃ w ∈ st.waits, w.place = j := by
    intro j hj
    rcases mem_current.mp hj with hj | hj
    · exact .inl (Option.some.inj (hj.symm.trans hindex))
    · exact .inr (hwaits ▸ hj)
  have hwait : ∀ w ∈ st.waits, w.place < st.space.files.length ∧ w.place ≠ i := fun w hw =>
    ⟨(h.waits w hw).place_lt, fun heq => (h.waits w hw).not_pending (heq ▸ hi)⟩
  have hmem : ∀ w ∈ st.waits, w.place ∈ st.current := fun w hw =>
    mem_current.mpr (.inr ⟨w, hw, rfl⟩)
  refine ⟨?_, fun j hj => ?_, hnextBlob ▸ h.nextBlobId_pos, ?_, ?_, fun w hw => ?_,
    fun run hrun => ?_, fun j hj k hk heq => ?_, fun j hj r hr hrb => ?_⟩
  · rw [hactive, hnext]
    exact htable.numbering.lt _ (List.mem_map_of_mem (FileSpace.fileAt_mem hilt))
  · obtain ⟨hj, hne⟩ := hpending j hj
    rw [hat, hactive]
    intro heq
    refine hne (htable.numbering.eq_of_getElem? (st.space.getElem?_fileIds (hplaces j hj)) ?_)
    rw [heq]
    exact st.space.getElem?_fileIds hilt
  · rw [hused, hnextBlob]
    exact h.used_lt
  · rw [hfiles, hnextBlob]
    exact h.file_lt
  · obtain ⟨hlt, hnot, hwb, hle⟩ := h.waits w (hwaits ▸ hw)
    exact ⟨hfiles ▸ hlt, fun hin => hnot (hpending _ hin).1, by rwa [hat], by rwa [hat]⟩
  · obtain ⟨hlt, hnot, hcur⟩ := h.runs run (hruns ▸ hrun)
    refine ⟨hfiles ▸ hlt, fun hin => hnot (hpending _ hin).1, fun hin => ?_⟩
    rcases hcurrent _ hin with heq | ⟨w, hw, heq⟩
    · exact hnot (heq ▸ hi)
    · exact hcur (heq ▸ hmem w hw)
  · rw [hat, hat] at heq
    rcases hcurrent j hj with rfl | ⟨w, hw, rfl⟩ <;> rcases hcurrent k hk with rfl | ⟨v, hv, rfl⟩
    · rfl
    · exact absurd heq.symm (hfresh _ (hwait v hv).1 (hwait v hv).2)
    · exact absurd heq (hfresh _ (hwait w hw).1 (hwait w hw).2)
    · exact h.blob_inj _ (hmem w hw) _ (hmem v hv) heq
  · have hr : r ∈ st.used := hused ▸ hr
    rw [hat] at hrb ⊢
    rcases hcurrent j hj with rfl | ⟨w, hw, rfl⟩
    · exact absurd hrb (hunused r hr)
    · exact h.stop_le _ (hmem w hw) r hr hrb

/-- The blob of a pending file is opened, and the file becomes the active one. -/
theorem openAndActivate (h : st.Extents) (htable : st.TableOk) {i : ℕ}
    (hi : i ∈ st.pendingFiles)
    (hspace : st'.space.files = (st.space.openNewFile i).files ∧
      st'.space.activeFileId = (st.space.fileAt i).fileId ∧
      st'.space.nextFileId = st.space.nextFileId ∧
      st'.space.nextBlobId = st.space.nextBlobId + 1)
    (hpending : ∀ j ∈ st'.pendingFiles, j ∈ st.pendingFiles ∧ j ≠ i)
    (hwaits : st'.waits = st.waits) (hruns : st'.runs = st.runs) (hused : st'.used = st.used) :
    st'.Extents := by
  obtain ⟨hfiles, hactive, hnext, hnextBlob⟩ := hspace
  have hilt := htable.pending_lt i hi
  have hfile : (st.space.openNewFile i).fileAt i = (st.space.fileAt i).opened st.space.nextBlobId :=
    (st.space.fileAt_modifyFile i i _ hilt).trans (if_pos rfl)
  have hopened : Extents { st with space := st.space.openNewFile i } :=
    h.openNewFile hi ⟨rfl, rfl, rfl, rfl⟩ rfl rfl rfl rfl
  have htable' : TableOk { st with space := st.space.openNewFile i } :=
    htable.congr (st.space.fileIds_modifyFile i fun _ => rfl) rfl (List.Subperm.refl _)
      htable.superblock htable.writing htable.persisted
  refine hopened.activate htable' hi ?_ ?_ ⟨hfiles, ?_, hnext, hnextBlob⟩ hpending hwaits hruns
    hused
  · intro j hj hne
    have hjlt : j < st.space.files.length := by
      rwa [show (st.space.openNewFile i).files.length = _ from st.space.length_modifyFile i _] at hj
    rw [show (st.space.openNewFile i).fileAt j = st.space.fileAt j from
      (st.space.fileAt_modifyFile i j _ hjlt).trans (if_neg (Ne.symm hne)), hfile]
    exact Nat.ne_of_lt (h.file_lt _ (FileSpace.fileAt_mem hjlt))
  · intro r hr
    rw [hfile]
    exact Nat.ne_of_lt (h.used_lt r hr)
  · rw [hfile]
    exact hactive

/-- A new file is given to a compaction. -/
theorem addRun (h : st.Extents) {run : CompactionRun} (hdest : st.DestOk run) :
    Extents { st with runs := st.runs ++ [run] } where
  active_lt := h.active_lt
  pending_ne := h.pending_ne
  nextBlobId_pos := h.nextBlobId_pos
  used_lt := h.used_lt
  file_lt := h.file_lt
  waits := fun w hw => ⟨(h.waits w hw).place_lt, (h.waits w hw).not_pending,
    (h.waits w hw).blobId, (h.waits w hw).offset_le⟩
  runs := by
    intro other hother
    rcases List.mem_append.mp hother with hother | hother
    · have := h.runs other hother
      exact ⟨this.dest_lt, this.not_pending, this.not_current⟩
    · rw [List.mem_singleton.mp hother]
      exact ⟨hdest.dest_lt, hdest.not_pending, hdest.not_current⟩
  blob_inj := h.blob_inj
  stop_le := h.stop_le

/-- The last file is removed, which an allocation has added. -/
theorem drop (h : st.Extents) (htable : st.TableOk) {i : ℕ} (hi : i ∈ st.pendingFiles)
    (hlast : i + 1 = st.space.files.length)
    (hspace : st'.space.files = st.space.files.dropLast ∧
      st'.space.activeFileId = st.space.activeFileId ∧
      st'.space.nextFileId = st.space.dropNewFile.nextFileId ∧
      st'.space.nextBlobId = st.space.nextBlobId)
    (hpending : ∀ j ∈ st'.pendingFiles, j ∈ st.pendingFiles ∧ j ≠ i)
    (hwaits : st'.waits = st.waits) (hruns : st'.runs = st.runs) (hused : st'.used = st.used) :
    st'.Extents := by
  obtain ⟨hfiles, hactive, hnext, hnextBlob⟩ := hspace
  have hid := h.pending_ne i hi
  have hlen : st'.space.files.length + 1 = st.space.files.length := by
    rw [hfiles, List.length_dropLast]
    omega
  have hat : ∀ j, j < st.space.files.length → j ≠ i →
      j < st'.space.files.length ∧ st'.space.fileAt j = st.space.fileAt j := by
    intro j hj hne
    refine ⟨by omega, ?_⟩
    rw [← st.space.fileAt_dropNewFile (by omega), FileSpace.fileAt, hfiles, FileSpace.fileAt]
    rfl
  have hindex : st'.space.activeIndex = st.space.activeIndex := by
    rw [← st.space.activeIndex_dropNewFile hlast hid, FileSpace.activeIndex, hfiles, hactive,
      FileSpace.activeIndex]
    rfl
  have hcurrent : st'.current = st.current := by
    rw [current, hindex, hwaits, current]
  have hplace : ∀ j ∈ st.current, j < st.space.files.length ∧ j ≠ i := by
    intro j hj
    rcases mem_current.mp hj with hj | ⟨w, hw, rfl⟩
    · exact ⟨FileSpace.activeIndex_lt hj,
        fun heq => hid (heq ▸ FileSpace.fileId_of_activeIndex hj)⟩
    · exact ⟨(h.waits w hw).place_lt, fun heq => (h.waits w hw).not_pending (heq ▸ hi)⟩
  have hpendinglt := htable.pending_lt
  refine ⟨?_, fun j hj => ?_, hnextBlob ▸ h.nextBlobId_pos, ?_, fun file hfile => ?_,
    fun w hw => ?_, fun run hrun => ?_, fun j hj k hk => ?_, fun j hj r hr hrb => ?_⟩
  · have hnumber := htable.numbering.last hi (by rw [FileSpace.length_fileIds, hlast])
      (st.space.getElem?_fileIds (hpendinglt i hi))
    have heq : st.space.dropNewFile.nextFileId = (st.space.nextFileId + (2 ^ 16 - 1)) % 2 ^ 16 :=
      rfl
    have hlt := htable.next_lt
    have hactivelt := h.active_lt
    rw [hactive, hnext]
    omega
  · obtain ⟨hj, hne⟩ := hpending j hj
    rw [(hat j (hpendinglt j hj) hne).2, hactive]
    exact h.pending_ne j hj
  · rw [hused, hnextBlob]
    exact h.used_lt
  · rw [hnextBlob]
    rw [hfiles] at hfile
    exact h.file_lt file (List.dropLast_subset _ hfile)
  · have hw : w ∈ st.waits := hwaits ▸ hw
    obtain ⟨hwlt, hwnot, hwb, hwle⟩ := h.waits w hw
    have hne := (hplace _ (mem_current.mpr (.inr ⟨w, hw, rfl⟩))).2
    obtain ⟨hlt, hfile⟩ := hat _ hwlt hne
    exact ⟨hlt, fun hin => hwnot (hpending _ hin).1, by rwa [hfile], by rwa [hfile]⟩
  · obtain ⟨hrlt, hrnot, hrcur⟩ := h.runs run (hruns ▸ hrun)
    have hne : run.dest ≠ i := fun heq => hrnot (heq ▸ hi)
    exact ⟨(hat _ hrlt hne).1, fun hin => hrnot (hpending _ hin).1, hcurrent ▸ hrcur⟩
  · rw [hcurrent] at hj hk
    rw [(hat j (hplace j hj).1 (hplace j hj).2).2, (hat k (hplace k hk).1 (hplace k hk).2).2]
    exact h.blob_inj j hj k hk
  · rw [hcurrent] at hj
    rw [(hat j (hplace j hj).1 (hplace j hj).2).2] at hrb ⊢
    exact h.stop_le j hj r (hused ▸ hr) hrb

/-- A synchronous allocation ends well, and its file becomes the active one. -/
theorem endAlloc (h : st.Extents) (htable : st.TableOk) {i : ℕ} {rest : List ℕ}
    (hallocs : st.allocs = i :: rest) :
    Extents { st with space := (st.space.finishNewFile i).activate i, allocs := rest } ∧
      ((st.space.finishNewFile i).activate i).activeIndex = some i := by
  obtain ⟨hmem, hpending⟩ := htable.pending_of_allocs hallocs
  have hid : ((st.space.finishNewFile i).fileAt i).fileId = (st.space.fileAt i).fileId :=
    FileSpace.fileId_fileAt_finishNewFile _ i i
  refine ⟨h.openAndActivate htable hmem ⟨rfl, hid, rfl, rfl⟩ hpending rfl rfl rfl,
    FileSpace.activeIndex_eq_some_of ?_ ?_ rfl⟩
  · rw [show ((st.space.finishNewFile i).activate i).fileIds = _ from
      st.space.fileIds_finishNewFile i]
    exact htable.numbering.nodup
  · rw [show ((st.space.finishNewFile i).activate i).files.length = _ from
      st.space.length_modifyFile i _]
    exact htable.pending_lt i hmem

/-- The engine is opened again. -/
theorem reopen (h : st.Extents) {logged : List (ℕ × ℕ)}
    (hblobs : ∀ m ∈ (st.persisted.addLogged logged).fileMappings,
      m.blobId ≠ 0 ∧ m.blobId < st.space.nextBlobId)
    (hactive : st.persisted.activeFileId <
      max 1 (st.persisted.addLogged logged).fileMappings.length)
    (hoffset : ∀ m ∈ (st.persisted.addLogged logged).fileMappings,
      m.fileId = st.persisted.activeFileId →
        ∀ r ∈ st.records, r.blobId = m.blobId → r.stop ≤ m.writeOffset) :
    Extents (W := W) { st with
      space := .reopened st.space.dataFileSize st.space.nextBlobId st.persisted logged
      allocs := []
      waits := []
      runs := []
      writing := none } := by
  have hrecords : ∀ r ∈ st.records, r.blobId < st.space.nextBlobId := fun r hr =>
    h.used_lt r (mem_used.mpr (.inl hr))
  have hpos := h.nextBlobId_pos
  -- No call waits, so that only the active file counts.
  have hinj : ∀ {space : FileSpace W}, ∀ i ∈ current (W := W) { st with
      space := space, allocs := [], waits := [], runs := [], writing := none },
      space.activeIndex = some i := by
    intro space i hi
    rcases mem_current.mp hi with hi | ⟨w, hw, -⟩
    · exact hi
    · cases hw
  by_cases hnil : (st.persisted.addLogged logged).fileMappings = []
  · rw [hnil] at hactive
    rw [FileSpace.reopened_eq_of_nil _ _ hnil]
    refine ⟨hactive, by simp [pendingFiles], Nat.succ_pos _, fun r hr => ?_, fun file hfile => ?_,
      by simp, by simp, fun i hi j hj _ => Option.some.inj ((hinj i hi).symm.trans (hinj j hj)),
      fun i hi r hr hrb => ?_⟩
    · rcases mem_used.mp hr with hr | ⟨io, hio, -⟩
      · exact Nat.lt_succ_of_lt (hrecords r hr)
      · cases hio
    · rw [List.mem_singleton.mp hfile]
      exact Nat.lt_succ_self _
    · have hmem := FileSpace.fileAt_mem (FileSpace.activeIndex_lt (hinj i hi))
      rw [List.mem_singleton.mp hmem] at hrb
      rcases mem_used.mp hr with hr | ⟨io, hio, -⟩
      · exact absurd hrb (Nat.ne_of_lt (hrecords r hr))
      · cases hio
  · have hpositive : 1 ≤ (st.persisted.addLogged logged).fileMappings.length :=
      List.length_pos_iff.mpr hnil
    rw [Nat.max_eq_right hpositive] at hactive
    rw [FileSpace.reopened_eq _ _ hnil]
    refine ⟨hactive, by simp [pendingFiles], hpos, fun r hr => ?_, fun file hfile => ?_,
      by simp, by simp, fun i hi j hj _ => Option.some.inj ((hinj i hi).symm.trans (hinj j hj)),
      fun i hi r hr hrb => ?_⟩
    · rcases mem_used.mp hr with hr | ⟨io, hio, -⟩
      · exact hrecords r hr
      · cases hio
    · obtain ⟨m, hm, rfl⟩ := List.mem_map.mp hfile
      exact (hblobs m hm).2
    · have hmem := FileSpace.fileAt_mem (FileSpace.activeIndex_lt (hinj i hi))
      have hid := FileSpace.fileId_of_activeIndex (hinj i hi)
      obtain ⟨m, hm, hfile⟩ := List.mem_map.mp hmem
      rw [← hfile] at hid hrb ⊢
      rcases mem_used.mp hr with hr | ⟨io, hio, -⟩
      · exact hoffset m hm hid r hr hrb
      · cases hio

end Extents

/-- **Every act that meets the conditions keeps the invariant.** -/
theorem extents_act {st st' : FileStore W} {act : FileAct W} (h : st.Extents)
    (htable : st.TableOk) (hown : st.OwnsLastFile act) (hoffset : st.RestoresOffset act)
    (hs : st.act act = some st') : st'.Extents := by
  have hsub {α : Type} (l : List α) : l ⊆ l := List.Subset.refl l
  have hsame : ∀ r ∈ st.used, ∃ q ∈ st.used, r.blobId = q.blobId ∧ r.stop ≤ q.stop :=
    fun r hr => ⟨r, hr, rfl, le_rfl⟩
  have hruns : ∀ run ∈ st.runs, ∃ old ∈ st.runs, run.dest = old.dest :=
    fun run hrun => ⟨run, hrun, rfl⟩
  have hplaces := htable.pending_lt
  cases act with
  | mark i state =>
      obtain rfl := Option.some.inj hs
      exact h.modifyFile i (fun _ => rfl) (fun _ => rfl) fun _ _ => le_rfl
  | flags allocating pendingCheckpoint nearFull =>
      obtain rfl := Option.some.inj hs
      exact h.mono rfl rfl rfl rfl (hsub _) (hsub _) hruns hsame
  | submit size write =>
      obtain ⟨i, hi, rfl⟩ := Option.map_eq_some_iff.mp hs
      exact h.submitAt (FileSpace.roomyFile_eq_some hi).1 size write
  | drain size write =>
      obtain ⟨i, hi, rfl⟩ := Option.map_eq_some_iff.mp hs
      exact h.submitAt (Option.filter_eq_some_iff.mp hi).1 size write
  | complete i ranges =>
      obtain ⟨io, hio, hs⟩ := Option.bind_eq_some_iff.mp hs
      obtain ⟨⟨hsplits, -⟩, hs⟩ := Option.ite_none_right_eq_some.mp hs
      obtain rfl := Option.some.inj hs
      refine h.mono rfl rfl rfl rfl (hsub _) (hsub _) hruns fun r hr => ?_
      rcases mem_used.mp hr with hr | ⟨other, hother, rfl⟩
      · rcases List.mem_append.mp hr with hr | hr
        · exact hsame r (mem_used.mpr (.inl hr))
        · exact ⟨io.range, mem_used.mpr (.inr ⟨io, List.mem_of_getElem? hio, rfl⟩),
            (hsplits.1 r hr).1, (hsplits.1 r hr).2.2⟩
      · exact hsame _ (mem_used.mpr (.inr ⟨other, List.eraseIdx_subset hother, rfl⟩))
  | wait size =>
      obtain ⟨i, hi, rfl⟩ := Option.map_eq_some_iff.mp hs
      exact h.wait (FileSpace.roomyFile_eq_some hi).1 size
  | endWait ok =>
      rw [FileStore.act] at hs
      split at hs
      · cases hs
      · next w rest hwaits =>
          cases ok with
          | false =>
              obtain rfl := Option.some.inj hs
              exact h.mono rfl rfl rfl rfl (hsub _)
                (by rw [hwaits]; exact List.subset_cons_self _ _) hruns hsame
          | true =>
              obtain ⟨-, hs⟩ := Option.ite_none_right_eq_some.mp hs
              obtain rfl := Option.some.inj hs
              exact h.endWait hwaits
  | beginAsync =>
      obtain rfl := Option.some.inj hs
      refine h.push hown ⟨rfl, rfl, rfl, rfl⟩ ?_ rfl rfl rfl hplaces
      exact List.cons_subset_cons _ (List.subset_append_right _ _)
  | endAsync ok =>
      obtain ⟨i, hi, rfl⟩ := Option.map_eq_some_iff.mp hs
      obtain ⟨hmem, hpending⟩ := htable.pending_of_newFile hi
      cases ok with
      | false => exact h.drop htable hmem (hown i hi) ⟨rfl, rfl, rfl, rfl⟩ hpending rfl rfl rfl
      | true =>
          rw [FileSpace.onNewFileAllocated_true hi (hown i hi)]
          refine h.openAndActivate htable hmem ⟨rfl, ?_, rfl, rfl⟩ hpending rfl rfl rfl
          exact FileSpace.fileId_fileAt_finishNewFile _ i i
  | beginAlloc =>
      obtain rfl := Option.some.inj hs
      refine h.push hown ⟨rfl, rfl, rfl, rfl⟩ ?_ rfl rfl rfl hplaces
      exact List.perm_middle.subset
  | endAlloc use =>
      rw [FileStore.act] at hs
      split at hs
      · cases hs
      · next i rest hallocs =>
          obtain rfl := Option.some.inj hs
          obtain ⟨hmem, hpending⟩ := htable.pending_of_allocs hallocs
          have hid : ((st.space.finishNewFile i).fileAt i).fileId = (st.space.fileAt i).fileId :=
            FileSpace.fileId_fileAt_finishNewFile _ i i
          obtain ⟨hactive, hindex⟩ := h.endAlloc htable hallocs
          cases use with
          | sync size => exact hactive.wait hindex size
          | buffer size write => exact hactive.submitAt hindex size write
          | compaction source =>
              have hfinished : Extents { st with space := st.space.finishNewFile i } :=
                h.openNewFile hmem ⟨rfl, rfl, rfl, rfl⟩ rfl rfl rfl rfl
              have hopened : Extents { st with space := st.space.finishNewFile i, allocs := rest } :=
                hfinished.mono rfl rfl rfl rfl (fun j hj => (hpending j hj).1) (hsub _) hruns
                  fun r hr => ⟨r, hr, rfl, le_rfl⟩
              refine hopened.addRun ⟨?_, fun hin => (hpending i hin).2 rfl, fun hin => ?_⟩
              · rw [show (st.space.finishNewFile i).files.length = _ from
                  st.space.length_modifyFile i _]
                exact hplaces i hmem
              · rcases mem_current.mp hin with hin | ⟨w, hw, heq⟩
                · have hfile := FileSpace.fileId_of_activeIndex hin
                  rw [hid] at hfile
                  exact h.pending_ne i hmem hfile
                · exact (h.waits w hw).not_pending (heq ▸ hmem)
  | failAlloc =>
      rw [FileStore.act] at hs
      split at hs
      · cases hs
      · next i rest hallocs =>
          obtain rfl := Option.some.inj hs
          obtain ⟨hmem, hpending⟩ := htable.pending_of_allocs hallocs
          exact h.drop htable hmem (hown i (by rw [hallocs]; rfl)) ⟨rfl, rfl, rfl, rfl⟩ hpending
            rfl rfl rfl
  | migrate k size ok =>
      obtain ⟨run, hrun, hs⟩ := Option.bind_eq_some_iff.mp hs
      cases ok with
      | false =>
          obtain rfl := Option.some.inj hs
          exact h
      | true =>
          obtain ⟨-, hs⟩ := Option.ite_none_right_eq_some.mp hs
          obtain rfl := Option.some.inj hs
          have hdest := (h.runs run (List.mem_of_getElem? hrun)).not_current
          refine (h.modifyFile run.dest (f := fun file =>
            { file with writeOffset := run.destOffset + size, size := run.destOffset + size })
            (fun _ => rfl) (fun _ => rfl) fun hin => absurd hin hdest).mono rfl rfl rfl rfl
            (hsub _) (hsub _) (fun other hother => ?_) fun r hr => ⟨r, hr, rfl, le_rfl⟩
          rcases List.mem_or_eq_of_mem_set hother with hother | rfl
          · exact ⟨other, hother, rfl⟩
          · exact ⟨run, List.mem_of_getElem? hrun, rfl⟩
  | discard k =>
      obtain ⟨run, hrun, rfl⟩ := Option.map_eq_some_iff.mp hs
      have hdest := (h.runs run (List.mem_of_getElem? hrun)).not_current
      exact (h.modifyFile run.dest (f := fun file =>
        { file with state := .kDeleted, blobOpened := false }) (fun _ => rfl) (fun _ => rfl)
        fun hin => absurd hin hdest).mono rfl rfl rfl rfl (hsub _) (hsub _)
        (fun run hrun => ⟨run, List.eraseIdx_subset hrun, rfl⟩) fun r hr => ⟨r, hr, rfl, le_rfl⟩
  | updateSuperblock position dataBytes garbageBytes =>
      obtain rfl := Option.some.inj hs
      exact h.mono rfl rfl rfl rfl (hsub _) (hsub _) hruns hsame
  | superblockWritten ok =>
      obtain ⟨superblock, -, rfl⟩ := Option.map_eq_some_iff.mp hs
      exact h.mono rfl rfl rfl rfl (hsub _) (hsub _) hruns hsame
  | reopen logged =>
      obtain ⟨hblobs, hs⟩ := Option.ite_none_right_eq_some.mp hs
      obtain rfl := Option.some.inj hs
      exact h.reopen hblobs hoffset.1 hoffset.2

end FileStore

end SpdkKv
