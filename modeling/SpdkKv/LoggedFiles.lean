import SpdkKv.FileLifecycle

/-!
# Files That Are Logged

The invariant that ties the data files to the allocation log and the superblocks, and what
each step does to it. A superblock covers the files when scans from its position find what
is logged afterwards, and every file that was logged before is mapped in it; the one on disk
and the one that is being written both do.

## Main results

* `FileLifecycle.Inv`: **the invariant**.
* `Inv.pushNewFile`, `Inv.dropNewFile`, `Inv.assignBlob`, `Inv.startLogging`,
  `Inv.pageWritten`, `Inv.pageFailed`, `Inv.headerWritten`, `Inv.updateSuperblock`,
  `Inv.persist`, `Inv.reopened`: what the parts of a step keep.
-/

namespace SpdkKv

namespace FileLifecycle

variable {n : ℕ}

/-- The blobs of the files, by place. -/
def blobIds (self : FileLifecycle n) : List ℕ := self.space.files.map FileInfo.blobId

/-- The allocations under way. -/
def pending (self : FileLifecycle n) : List FileAllocation :=
  self.creating ++ self.logging ++ self.opening

/-- The blobs that have a header or were written to. -/
def usedBlobs (self : FileLifecycle n) : List ℕ :=
  self.headers.map Prod.fst ++ self.records.map StoredRecord.blobId

/-- The positions that count: the one on disk and the one that is being written. -/
def positions (self : FileLifecycle n) : List AllocLogPosition :=
  self.log.superblock.toList ++ (self.writing.map Prod.snd).toList

end FileLifecycle

/-- The entries of the log that were written, or are being written. -/
def AllocLogState.entries (s : AllocLogState) : List AllocLogEntry :=
  s.completed ++ s.inFlight.map Prod.fst

/-! ### The invariant -/

/-- A superblock with a position of the log: what is written after the position is tracked,
and files that were logged before it are mapped. -/
structure Covered (log : AllocLogState) (blobIds : List ℕ) (p : AllocLogPosition)
    (table : SuperblockFiles) : Prop where
  tracked : ∃ entries done, Tracks log p entries done
  mapped : ∀ e ∈ log.entries, e.sequence ≤ p.sequence → e.blobId.toNat ∈ blobIds →
    e.blobId.toNat ∈ table.blobIds

/-- The file of an allocation is the one of an entry of the log. -/
structure FileSpace.Logs (space : FileSpace Unit) (a : FileAllocation) (e : AllocLogEntry) :
    Prop where
  blobId : (space.fileAt a.place).blobId = e.blobId.toNat
  fileId : UInt16.ofNat (space.fileAt a.place).fileId = e.fileId

/-- The file of an allocation under way: nothing else uses its blob, once it has one. -/
structure FileSpace.PendingFile (space : FileSpace Unit) (usedBlobs : List ℕ)
    (a : FileAllocation) : Prop where
  lt : a.place < space.files.length
  closed : (space.fileAt a.place).blobOpened = false
  alone : ∀ j < space.files.length, j ≠ a.place →
    (space.fileAt j).blobId = (space.fileAt a.place).blobId → (space.fileAt a.place).blobId = 0
  unused : (space.fileAt a.place).blobId ∉ usedBlobs

/-- The file stays the same. -/
theorem FileSpace.Logs.congr {space space' : FileSpace Unit} {a : FileAllocation}
    {e : AllocLogEntry} (h : space.Logs a e)
    (hfile : space'.fileAt a.place = space.fileAt a.place) : space'.Logs a e :=
  ⟨by rw [hfile, h.blobId], by rw [hfile, h.fileId]⟩

namespace FileLifecycle

variable {n : ℕ}

/-- A blob has a header and a logged entry, or is mapped wherever it has to be. -/
def Secured (s : FileLifecycle n) (b : ℕ) : Prop :=
  (∃ e ∈ s.log.completed, e.blobId.toNat = b ∧ (b, e.fileId) ∈ s.headers) ∨
    (b ∈ s.persisted.blobIds ∧
      ∀ w : SuperblockFiles × AllocLogPosition, s.writing = some w → b ∈ w.1.blobIds)

/-- The invariant of a run. -/
structure Inv (s : FileLifecycle n) : Prop where
  pages : PagesInOrder s.log
  persisted : ∃ p, s.log.superblock = some p ∧ Covered s.log s.blobIds p s.persisted
  writing : ∀ w : SuperblockFiles × AllocLogPosition, s.writing = some w →
    Covered s.log s.blobIds w.2 w.1
  next_pos : 0 < s.space.nextBlobId
  blob_lt : ∀ b ∈ s.blobIds, b < s.space.nextBlobId
  blobs_lt : ∀ b ∈ s.blobs, b ≠ 0 ∧ b < s.space.nextBlobId
  used_lt : ∀ b ∈ s.usedBlobs, b ≠ 0 ∧ b < s.space.nextBlobId
  entry_lt : ∀ e ∈ s.log.entries, e.blobId.toNat ≠ 0 ∧ e.blobId.toNat < s.space.nextBlobId
  length_eq : s.logging.length = s.log.inFlight.length
  places : (s.pending.map FileAllocation.place).Nodup
  pending : ∀ a ∈ s.pending, s.space.PendingFile s.usedBlobs a
  logging : ∀ (i : ℕ) (a : FileAllocation) (w : AllocLogEntry × AllocLogPage),
    s.logging[i]? = some a → s.log.inFlight[i]? = some w → s.space.Logs a w.1
  opening : ∀ a ∈ s.opening, ∃ e ∈ s.log.completed, s.space.Logs a e
  headers : ∀ h ∈ s.headers, ∃ e ∈ s.log.completed, e.blobId.toNat = h.1 ∧ e.fileId = h.2
  used : ∀ b ∈ s.usedBlobs, b ∈ s.blobs → b ∈ s.blobIds ∧ s.Secured b
  opened : ∀ f ∈ s.space.files, f.blobOpened = true → f.blobId ≠ 0 ∧ s.Secured f.blobId

end FileLifecycle

/-! ### The log -/

namespace Covered

variable {log : AllocLogState} {blobIds : List ℕ} {p : AllocLogPosition}
  {table : SuperblockFiles}

/-- Of the logged files no more have to be mapped. -/
theorem files (h : Covered log blobIds p table) {blobIds' : List ℕ}
    (hsub : ∀ e ∈ log.entries, e.blobId.toNat ∈ blobIds' → e.blobId.toNat ∈ blobIds) :
    Covered log blobIds' p table :=
  ⟨h.tracked, fun e he hle hb => h.mapped e he hle (hsub e he hb)⟩

/-- An entry is written for a new blob. -/
theorem writeEntry (h : Covered log blobIds p table) (hs : PagesInOrder log) {a : Allocation}
    {e : AllocLogEntry} {mgr : AllocLogManager} (hw : log.mgr.writeEntry a = some (e, mgr))
    (hwrap : log.mgr.sequence.toNat + 1 < 2 ^ 32) (halign : p.Aligned log.mgr) :
    Covered { log with mgr := mgr, inFlight := log.inFlight ++ [(e, mgr.page)] } blobIds p
      table where
  tracked := by
    obtain ⟨entries, done, ht⟩ := h.tracked
    exact ⟨_, done, ht.writeEntry hs hw hwrap halign⟩
  mapped := by
    intro x hx hle hb
    rw [AllocLogState.entries, List.map_append, ← List.append_assoc] at hx
    rcases List.mem_append.mp hx with hx | hx
    · exact h.mapped x hx hle hb
    · obtain rfl := List.mem_singleton.mp hx
      obtain ⟨entries, done, ht⟩ := h.tracked
      have hnew := toNat_add_one hwrap
      rw [← (AllocLogEntry.build_sequence a _ : _ = log.mgr.sequence + 1),
        ← (writeEntry_eq_some hw).2.1, ht.sequence] at hnew
      rw [UInt32.le_iff_toNat_le] at hle
      omega

/-- The first page write lands. -/
theorem pageWritten (h : Covered log blobIds p table) (hs : PagesInOrder log) (late : Bool)
    {w : AllocLogEntry × AllocLogPage} {rest : List (AllocLogEntry × AllocLogPage)}
    (hw : log.inFlight = w :: rest) :
    Covered { log with
      disk := if late then log.mgr.page else w.2
      inFlight := rest
      completed := log.completed ++ [w.1] } blobIds p table where
  tracked := by
    obtain ⟨entries, done, ht⟩ := h.tracked
    exact ⟨entries, _, ht.pageWritten hs late hw⟩
  mapped := by
    intro x hx
    refine h.mapped x ?_
    rw [AllocLogState.entries] at hx ⊢
    rwa [hw, List.map_cons, List.append_cons]

theorem pageFailed (h : Covered log blobIds p table) (i : ℕ) (failed : List AllocLogEntry) :
    Covered { log with inFlight := log.inFlight.eraseIdx i, failed := failed } blobIds p
      table where
  tracked := by
    obtain ⟨entries, done, ht⟩ := h.tracked
    exact ⟨entries, done, ht.pageFailed i failed⟩
  mapped := by
    intro x hx
    refine h.mapped x ?_
    refine List.append_subset.mpr ⟨List.subset_append_left .., fun y hy => ?_⟩ hx
    exact List.mem_append_right _ ((List.map_subset _ List.eraseIdx_subset) hy)

theorem reclaim (h : Covered log blobIds p table) :
    Covered { log with mgr := log.mgr.reclaim } blobIds p table where
  tracked := by
    obtain ⟨entries, done, ht⟩ := h.tracked
    exact ⟨entries, done, ht.reclaim⟩
  mapped := h.mapped

theorem persist (h : Covered log blobIds p table) (q : Option AllocLogPosition) :
    Covered { log with superblock := q } blobIds p table where
  tracked := by
    obtain ⟨entries, done, ht⟩ := h.tracked
    exact ⟨entries, done, ht.persist q⟩
  mapped := h.mapped

/-- A superblock into which all files were entered. -/
theorem take (hs : PagesInOrder log) (hp : p.sequence = log.mgr.sequence)
    (htable : ∀ b ∈ blobIds, b ∈ table.blobIds) : Covered log blobIds p table where
  tracked := ⟨[], 0, hs.tracks hp⟩
  mapped := fun _ _ _ hb => htable _ hb

end Covered

/-! ### Steps that leave blobs alone -/

namespace FileLifecycle

variable {n : ℕ} {s : FileLifecycle n}

theorem fileAt_blobId_mem (s : FileLifecycle n) {i : ℕ} (hi : i < s.space.files.length) :
    (s.space.fileAt i).blobId ∈ s.blobIds :=
  List.mem_map_of_mem (FileSpace.fileAt_mem hi)

theorem exists_fileAt_of_mem {f : FileInfo} (hf : f ∈ s.space.files) :
    ∃ i < s.space.files.length, s.space.fileAt i = f := by
  obtain ⟨i, hi, rfl⟩ := List.mem_iff_getElem.mp hf
  exact ⟨i, hi, by rw [FileSpace.fileAt, List.getElem?_eq_getElem hi]; rfl⟩

theorem exists_fileAt_of_mem_blobIds {b : ℕ} (hb : b ∈ s.blobIds) :
    ∃ i < s.space.files.length, (s.space.fileAt i).blobId = b := by
  obtain ⟨f, hf, rfl⟩ := List.mem_map.mp hb
  obtain ⟨i, hi, rfl⟩ := exists_fileAt_of_mem hf
  exact ⟨i, hi, rfl⟩

/-- The blob of a file that takes writes is not that of an allocation under way. -/
theorem Inv.opened_ne_pending (h : s.Inv) {f : FileInfo} (hf : f ∈ s.space.files)
    (hopen : f.blobOpened = true) {a : FileAllocation} (ha : a ∈ s.pending) :
    f.blobId ≠ (s.space.fileAt a.place).blobId := by
  intro heq
  obtain ⟨j, hj, rfl⟩ := exists_fileAt_of_mem hf
  have hp := h.pending a ha
  have hne : j ≠ a.place := by
    rintro rfl
    rw [hp.closed] at hopen
    cases hopen
  exact (h.opened _ hf hopen).1 (heq.trans (hp.alone j hj hne heq))

/-- The steps that leave the log, the superblocks and the blobs of the files alone. -/
theorem Inv.frame (h : s.Inv) {s' : FileLifecycle n} (hlog : s'.log = s.log)
    (hwriting : s'.writing = s.writing) (hpersisted : s'.persisted = s.persisted)
    (hheaders : s'.headers = s.headers) (hcreating : s'.creating = s.creating)
    (hlogging : s'.logging = s.logging) (hopening : s'.opening = s.opening)
    (hnext : s'.space.nextBlobId = s.space.nextBlobId) (hblobs : s'.blobs ⊆ s.blobs)
    (hrecords : ∀ r ∈ s'.records, r ∈ s.records ∨
      ∃ f ∈ s.space.files, f.blobOpened = true ∧ r.blobId = f.blobId)
    (hlen : s'.space.files.length = s.space.files.length)
    (hblob : ∀ i, (s'.space.fileAt i).blobId = (s.space.fileAt i).blobId)
    (hid : ∀ i, (s'.space.fileAt i).fileId = (s.space.fileAt i).fileId)
    (hopen : ∀ i, (s'.space.fileAt i).blobOpened = true →
      (s.space.fileAt i).blobOpened = true) : s'.Inv := by
  have hblobIds : s'.blobIds = s.blobIds := by
    refine List.ext_getElem? fun i => ?_
    rcases Nat.lt_or_ge i s.space.files.length with hi | hi
    · have := hblob i
      rw [FileSpace.fileAt, FileSpace.fileAt, List.getElem?_eq_getElem (hlen ▸ hi),
        List.getElem?_eq_getElem hi] at this
      rw [blobIds, blobIds, List.getElem?_map, List.getElem?_map,
        List.getElem?_eq_getElem (hlen ▸ hi), List.getElem?_eq_getElem hi]
      exact congrArg some this
    · rw [List.getElem?_eq_none (by rw [blobIds, List.length_map, hlen]; exact hi),
        List.getElem?_eq_none (by rw [blobIds, List.length_map]; exact hi)]
  have hsecured : ∀ b, s.Secured b → s'.Secured b := by
    intro b
    rw [Secured, Secured, hlog, hheaders, hpersisted, hwriting]
    exact id
  have hlogs : ∀ a e, s.space.Logs a e → s'.space.Logs a e := fun a e hl =>
    ⟨(hblob _).trans hl.blobId, by rw [hid]; exact hl.fileId⟩
  have hpending : s'.pending = s.pending := by
    rw [FileLifecycle.pending, FileLifecycle.pending, hcreating, hlogging, hopening]
  have hused : ∀ b ∈ s'.usedBlobs, b ∈ s.usedBlobs ∨
      ∃ f ∈ s.space.files, f.blobOpened = true ∧ b = f.blobId := by
    intro b hb
    rw [usedBlobs, hheaders] at hb
    rcases List.mem_append.mp hb with hb | hb
    · exact .inl (List.mem_append_left _ hb)
    · obtain ⟨r, hr, rfl⟩ := List.mem_map.mp hb
      rcases hrecords r hr with hr | hf
      · exact .inl (List.mem_append_right _ (List.mem_map_of_mem hr))
      · exact .inr hf
  refine ⟨hlog ▸ h.pages, ?_, ?_, hnext ▸ h.next_pos, ?_, fun b hb => ?_, fun b hb => ?_, ?_, ?_, ?_, fun a ha => ?_,
    fun i a w ha hw => ?_, fun a ha => ?_, ?_, fun b hb hin => ?_, fun f hf hfo => ?_⟩
  · rw [hlog, hblobIds, hpersisted]
    exact h.persisted
  · rw [hlog, hblobIds, hwriting]
    exact h.writing
  · rw [hblobIds, hnext]
    exact h.blob_lt
  · rw [hnext]
    exact h.blobs_lt b (hblobs hb)
  · rw [hnext]
    rcases hused b hb with hb | ⟨f, hf, hfo, rfl⟩
    · exact h.used_lt b hb
    · exact ⟨(h.opened f hf hfo).1, h.blob_lt _ (List.mem_map_of_mem hf)⟩
  · rw [hlog, hnext]
    exact h.entry_lt
  · rw [hlogging, hlog]
    exact h.length_eq
  · rw [hpending]
    exact h.places
  · rw [hpending] at ha
    obtain ⟨hlt, hclosed, halone, hunused⟩ := h.pending a ha
    refine ⟨hlen ▸ hlt, ?_, fun j hj hne heq => ?_, fun hin => ?_⟩
    · rw [Bool.eq_false_iff]
      exact fun hbo => Bool.eq_false_iff.mp hclosed (hopen _ hbo)
    · rw [hblob] at heq ⊢
      rw [hblob] at heq
      exact halone j (hlen ▸ hj) hne heq
    · rw [hblob] at hin
      rcases hused _ hin with hin | ⟨f, hf, hfo, heq⟩
      · exact hunused hin
      · exact h.opened_ne_pending hf hfo ha heq.symm
  · rw [hlogging] at ha
    rw [hlog] at hw
    exact hlogs _ _ (h.logging i a w ha hw)
  · rw [hopening] at ha
    rw [hlog]
    obtain ⟨e, he, hl⟩ := h.opening a ha
    exact ⟨e, he, hlogs _ _ hl⟩
  · rw [hheaders, hlog]
    exact h.headers
  · rw [hblobIds]
    rcases hused b hb with hb | ⟨f, hf, hfo, rfl⟩
    · obtain ⟨hmem, hsec⟩ := h.used b hb (hblobs hin)
      exact ⟨hmem, hsecured b hsec⟩
    · exact ⟨List.mem_map_of_mem hf, hsecured _ (h.opened f hf hfo).2⟩
  · obtain ⟨i, hi, rfl⟩ := exists_fileAt_of_mem hf
    rw [hblob]
    have hmem : s.space.fileAt i ∈ s.space.files := FileSpace.fileAt_mem (hlen ▸ hi)
    exact ⟨(h.opened _ hmem (hopen i hfo)).1, hsecured _ (h.opened _ hmem (hopen i hfo)).2⟩

/-! ### Files that come and go -/

theorem fileAt_pushNewFile_of_lt (space : FileSpace Unit) {i : ℕ}
    (hi : i < space.files.length) : space.pushNewFile.fileAt i = space.fileAt i := by
  rw [FileSpace.fileAt, FileSpace.fileAt, FileSpace.pushNewFile]
  dsimp only
  rw [List.getElem?_append_left hi]

theorem fileAt_pushNewFile_length (space : FileSpace Unit) :
    space.pushNewFile.fileAt space.files.length = .fresh space.nextFileId := by
  rw [FileSpace.fileAt, FileSpace.pushNewFile]
  dsimp only
  rw [List.getElem?_concat_length]
  rfl

/-- The invariant when only the files change, so that logged files stay logged and used blobs
stay with a file. -/
theorem Inv.covered (h : s.Inv) (blobIds' : List ℕ)
    (hsub : ∀ e ∈ s.log.entries, e.blobId.toNat ∈ blobIds' → e.blobId.toNat ∈ s.blobIds) :
    (∃ p, s.log.superblock = some p ∧ Covered s.log blobIds' p s.persisted) ∧
      ∀ w : SuperblockFiles × AllocLogPosition, s.writing = some w →
        Covered s.log blobIds' w.2 w.1 := by
  obtain ⟨p, hp, hc⟩ := h.persisted
  exact ⟨⟨p, hp, hc.files hsub⟩, fun w hw => (h.writing w hw).files hsub⟩

/-- A file is added. -/
theorem Inv.pushNewFile (h : s.Inv) {new : FileAllocation}
    (hnew : new.place = s.space.files.length) : Inv { s with
      space := s.space.pushNewFile
      creating := s.creating ++ [new] } := by
  have hold : ∀ i < s.space.files.length, s.space.pushNewFile.fileAt i = s.space.fileAt i :=
    fun i hi => fileAt_pushNewFile_of_lt s.space hi
  have hblobIds : ∀ b, b ∈ s.space.pushNewFile.files.map FileInfo.blobId ↔ b ∈ s.blobIds ∨ b = 0 := by
    intro b
    rw [FileSpace.pushNewFile, blobIds]
    simp [FileInfo.fresh]
  have hlen : s.space.pushNewFile.files.length = s.space.files.length + 1 := by
    simp [FileSpace.pushNewFile]
  have hcov := h.covered (s.space.pushNewFile.files.map FileInfo.blobId)
    fun e he hb => ((hblobIds _).mp hb).resolve_right (h.entry_lt e he).1
  have hlogs : ∀ a ∈ s.pending, ∀ e, s.space.Logs a e → s.space.pushNewFile.Logs a e :=
    fun a ha e hl => hl.congr (hold _ (h.pending a ha).lt)
  have hpending : ∀ a, a ∈ (s.creating ++ [new]) ++ s.logging ++ s.opening ↔
      a ∈ s.pending ∨ a = new := by
    intro a
    simp only [FileLifecycle.pending, List.mem_append, List.mem_singleton]
    tauto
  refine ⟨h.pages, hcov.1, hcov.2, h.next_pos, fun b hb => ?_, h.blobs_lt, h.used_lt, h.entry_lt,
    h.length_eq, ?_, fun a ha => ?_, fun i a w ha hw => ?_, fun a ha => ?_, h.headers,
    fun b hb hin => ?_, fun f hf hfo => ?_⟩
  · rcases (hblobIds b).mp hb with hb | rfl
    · exact h.blob_lt b hb
    · exact h.next_pos
  · have hfree : new.place ∉ s.pending.map FileAllocation.place := by
      intro hin
      obtain ⟨a, ha, heq⟩ := List.mem_map.mp hin
      exact absurd (heq.trans hnew) (h.pending a ha).lt.ne
    have hperm : ((s.creating ++ [new]) ++ s.logging ++ s.opening).Perm
        (new :: s.pending) := by
      rw [FileLifecycle.pending, List.append_assoc, List.append_assoc, List.append_assoc]
      exact List.perm_middle
    exact ((hperm.map FileAllocation.place).nodup_iff).mpr 
      (List.nodup_cons.mpr ⟨hfree, h.places⟩)
  · rcases (hpending a).mp ha with ha | rfl
    · obtain ⟨hlt, hclosed, halone, hunused⟩ := h.pending a ha
      refine ⟨by rw [hlen]; exact Nat.lt_succ_of_lt hlt, ?_, fun j hj hne heq => ?_, ?_⟩
      · exact (congrArg FileInfo.blobOpened (hold _ hlt)).trans hclosed
      · dsimp only at hj heq ⊢
        rw [hold _ hlt] at heq ⊢
        rw [hlen] at hj
        rcases Nat.lt_succ_iff_lt_or_eq.mp hj with hj | rfl
        · rw [hold _ hj] at heq
          exact halone j hj hne heq
        · rw [fileAt_pushNewFile_length] at heq
          exact heq.symm
      · dsimp only
        rw [hold _ hlt]
        exact hunused
    · have hfresh : s.space.pushNewFile.fileAt a.place = .fresh s.space.nextFileId := by
        rw [hnew, fileAt_pushNewFile_length]
      refine ⟨by rw [hlen, hnew]; exact Nat.lt_succ_self _, ?_, fun j _ _ _ => ?_,
        fun hin => ?_⟩
      · exact congrArg FileInfo.blobOpened hfresh
      · exact congrArg FileInfo.blobId hfresh
      · exact (h.used_lt _ hin).1 (congrArg FileInfo.blobId hfresh)
  · exact hlogs a (List.mem_append_left _ (List.mem_append_right _ (List.mem_of_getElem? ha))) _
      (h.logging i a w ha hw)
  · obtain ⟨e, he, hl⟩ := h.opening a ha
    exact ⟨e, he, hlogs a (List.mem_append_right _ ha) e hl⟩
  · obtain ⟨hmem, hsec⟩ := h.used b hb hin
    exact ⟨(hblobIds b).mpr (.inl hmem), hsec⟩
  · rcases List.mem_append.mp hf with hf | hf
    · exact h.opened f hf hfo
    · rw [List.mem_singleton.mp hf] at hfo
      cases hfo

/-- Allocations that wait for their blob, or for their header, are over. -/
theorem Inv.fewerPending (h : s.Inv) {creating opening : List FileAllocation}
    (hc : creating.Sublist s.creating) (ho : opening.Sublist s.opening) :
    Inv { s with creating := creating, opening := opening } := by
  have hsub : (creating ++ s.logging ++ opening).Sublist s.pending :=
    (hc.append (List.Sublist.refl _)).append ho
  exact ⟨h.pages, h.persisted, h.writing, h.next_pos, h.blob_lt, h.blobs_lt, h.used_lt,
    h.entry_lt, h.length_eq, h.places.sublist (hsub.map _),
    fun a ha => h.pending a (hsub.subset ha), h.logging, fun a ha => h.opening a (ho.subset ha),
    h.headers, h.used, h.opened⟩

theorem fileAt_dropNewFile_of_lt (space : FileSpace Unit) {i : ℕ}
    (hi : i < space.dropNewFile.files.length) : space.dropNewFile.fileAt i = space.fileAt i := by
  rw [FileSpace.dropNewFile] at hi ⊢
  dsimp only at hi
  rw [List.length_dropLast] at hi
  rw [FileSpace.fileAt, FileSpace.fileAt]
  dsimp only
  rw [List.getElem?_dropLast, if_pos hi]

/-- The last file is removed; no allocation is under way for it and nothing uses its blob. -/
theorem Inv.dropNewFile (h : s.Inv) {place : ℕ} (hlast : place + 1 = s.space.files.length)
    (hfree : place ∉ s.pending.map FileAllocation.place)
    (hunused : (s.space.fileAt place).blobId ∉ s.usedBlobs) :
    Inv { s with space := s.space.dropNewFile } := by
  have hlen : s.space.dropNewFile.files.length = place := by
    rw [FileSpace.dropNewFile, List.length_dropLast]
    omega
  have hold : ∀ i < place, s.space.dropNewFile.fileAt i = s.space.fileAt i :=
    fun i hi => fileAt_dropNewFile_of_lt s.space (by omega)
  have hsub : ∀ f ∈ s.space.dropNewFile.files, f ∈ s.space.files :=
    fun f hf => List.dropLast_subset _ hf
  have hblobIds : ∀ b ∈ s.space.dropNewFile.files.map FileInfo.blobId, b ∈ s.blobIds := by
    intro b hb
    obtain ⟨f, hf, rfl⟩ := List.mem_map.mp hb
    exact List.mem_map_of_mem (hsub f hf)
  have hlt : ∀ a ∈ s.pending, a.place < place := by
    intro a ha
    have := (h.pending a ha).lt
    have hne : a.place ≠ place := fun heq => hfree (heq ▸ List.mem_map_of_mem ha)
    omega
  have hlogs : ∀ a ∈ s.pending, ∀ e, s.space.Logs a e → s.space.dropNewFile.Logs a e :=
    fun a ha e hl => hl.congr (hold _ (hlt a ha))
  have hcov := h.covered _ fun e _ hb => hblobIds _ hb
  refine ⟨h.pages, hcov.1, hcov.2, h.next_pos, fun b hb => h.blob_lt b (hblobIds b hb),
    h.blobs_lt, h.used_lt, h.entry_lt, h.length_eq, h.places, fun a ha => ?_,
    fun i a w ha hw => ?_, fun a ha => ?_, h.headers, fun b hb hin => ?_,
    fun f hf => h.opened f (hsub f hf)⟩
  · obtain ⟨-, hclosed, halone, hun⟩ := h.pending a ha
    have heq := hold _ (hlt a ha)
    refine ⟨hlen ▸ hlt a ha, (congrArg FileInfo.blobOpened heq).trans hclosed,
      fun j hj hne hbl => ?_, ?_⟩
    · dsimp only at hj hbl ⊢
      rw [heq] at hbl ⊢
      rw [hlen] at hj
      rw [hold j hj] at hbl
      exact halone j (by omega) hne hbl
    · dsimp only
      rw [heq]
      exact hun
  · exact hlogs a (List.mem_append_left _ (List.mem_append_right _ (List.mem_of_getElem? ha))) _
      (h.logging i a w ha hw)
  · obtain ⟨e, he, hl⟩ := h.opening a ha
    exact ⟨e, he, hlogs a (List.mem_append_right _ ha) e hl⟩
  · obtain ⟨hmem, hsec⟩ := h.used b hb hin
    refine ⟨?_, hsec⟩
    obtain ⟨j, hj, rfl⟩ := exists_fileAt_of_mem_blobIds hmem
    have hne : j ≠ place := by
      rintro rfl
      exact hunused hb
    have hj : j < place := by omega
    rw [← hold j hj]
    exact List.mem_map_of_mem (FileSpace.fileAt_mem (hlen ▸ hj))

theorem fileAt_assignBlob_self (space : FileSpace Unit) {i : ℕ} (hi : i < space.files.length) :
    (space.assignBlob i).fileAt i = { space.fileAt i with blobId := space.nextBlobId } :=
  (space.fileAt_modifyFile i i _ hi).trans (if_pos rfl)

theorem fileAt_assignBlob_of_ne (space : FileSpace Unit) {i j : ℕ} (hj : j < space.files.length)
    (hne : i ≠ j) : (space.assignBlob i).fileAt j = space.fileAt j :=
  (space.fileAt_modifyFile i j _ hj).trans (if_neg hne)

/-- A file for which no allocation is registered gets a new blob. -/
theorem Inv.assignBlob (h : s.Inv) {place : ℕ} (hlt : place < s.space.files.length)
    (hclosed : (s.space.fileAt place).blobOpened = false)
    (hfree : place ∉ s.pending.map FileAllocation.place)
    (hunused : (s.space.fileAt place).blobId ∉ s.usedBlobs) : Inv { s with
      space := s.space.assignBlob place
      blobs := s.blobs ++ [s.space.nextBlobId] } := by
  have hlen : (s.space.assignBlob place).files.length = s.space.files.length :=
    s.space.length_modifyFile place _
  have hself := fileAt_assignBlob_self s.space hlt
  have hother : ∀ j < s.space.files.length, j ≠ place →
      (s.space.assignBlob place).fileAt j = s.space.fileAt j :=
    fun j hj hne => fileAt_assignBlob_of_ne s.space hj (Ne.symm hne)
  have hmem : ∀ f ∈ (s.space.assignBlob place).files, f ∈ s.space.files ∨
      f = { s.space.fileAt place with blobId := s.space.nextBlobId } := fun f hf =>
    (FileSpace.mem_modifyFile (show f ∈ (s.space.modifyFile place _).files from hf)).imp_right
      And.right
  have hblobIds : ∀ b ∈ (s.space.assignBlob place).files.map FileInfo.blobId,
      b ∈ s.blobIds ∨ b = s.space.nextBlobId := by
    intro b hb
    obtain ⟨f, hf, rfl⟩ := List.mem_map.mp hb
    rcases hmem f hf with hf | rfl
    · exact .inl (List.mem_map_of_mem hf)
    · exact .inr rfl
  have hne : ∀ a ∈ s.pending, a.place ≠ place :=
    fun a ha heq => hfree (heq ▸ List.mem_map_of_mem ha)
  have hcov := h.covered ((s.space.assignBlob place).files.map FileInfo.blobId)
    fun e he hb => (hblobIds _ hb).resolve_right (h.entry_lt e he).2.ne
  have hlogs : ∀ a ∈ s.pending, ∀ e, s.space.Logs a e → (s.space.assignBlob place).Logs a e :=
    fun a ha e hl => hl.congr (hother _ (h.pending a ha).lt (hne a ha))
  refine ⟨h.pages, hcov.1, hcov.2, Nat.succ_pos _, fun b hb => ?_, fun b hb => ?_,
    fun b hb => ?_, fun e he => ?_, h.length_eq, h.places, fun a ha => ?_,
    fun i a w ha hw => ?_, fun a ha => ?_, h.headers, fun b hb hin => ?_, fun f hf hfo => ?_⟩
  · rcases hblobIds b hb with hb | rfl
    · exact Nat.lt_succ_of_lt (h.blob_lt b hb)
    · exact Nat.lt_succ_self _
  · rcases List.mem_append.mp hb with hb | hb
    · exact ⟨(h.blobs_lt b hb).1, Nat.lt_succ_of_lt (h.blobs_lt b hb).2⟩
    · rw [List.mem_singleton.mp hb]
      exact ⟨h.next_pos.ne', Nat.lt_succ_self _⟩
  · exact ⟨(h.used_lt b hb).1, Nat.lt_succ_of_lt (h.used_lt b hb).2⟩
  · exact ⟨(h.entry_lt e he).1, Nat.lt_succ_of_lt (h.entry_lt e he).2⟩
  · obtain ⟨hal, hac, halone, hun⟩ := h.pending a ha
    have heq := hother _ hal (hne a ha)
    refine ⟨hlen.symm ▸ hal, (congrArg FileInfo.blobOpened heq).trans hac,
      fun j hj hja hbl => ?_, ?_⟩
    · dsimp only at hj hbl ⊢
      rw [heq] at hbl ⊢
      rw [hlen] at hj
      by_cases hjp : j = place
      · subst hjp
        rw [hself] at hbl
        exact absurd hbl (h.blob_lt _ (s.fileAt_blobId_mem hal)).ne'
      · rw [hother j hj hjp] at hbl
        exact halone j hj hja hbl
    · dsimp only
      rw [heq]
      exact hun
  · exact hlogs a (List.mem_append_left _ (List.mem_append_right _ (List.mem_of_getElem? ha))) _
      (h.logging i a w ha hw)
  · obtain ⟨e, he, hl⟩ := h.opening a ha
    exact ⟨e, he, hlogs a (List.mem_append_right _ ha) e hl⟩
  · have hin : b ∈ s.blobs := by
      refine (List.mem_append.mp hin).resolve_right fun hnew => ?_
      exact (h.used_lt b hb).2.ne (List.mem_singleton.mp hnew)
    obtain ⟨hmem, hsec⟩ := h.used b hb hin
    refine ⟨?_, hsec⟩
    obtain ⟨j, hj, rfl⟩ := exists_fileAt_of_mem_blobIds hmem
    have hjp : j ≠ place := by
      rintro rfl
      exact hunused hb
    rw [← hother j hj hjp]
    exact List.mem_map_of_mem (FileSpace.fileAt_mem (hlen.symm ▸ hj))
  · rcases hmem f hf with hf | rfl
    · exact h.opened f hf hfo
    · rw [show (s.space.fileAt place).blobOpened = true from hfo] at hclosed
      cases hclosed

/-! ### Page writes -/

/-- The entry of an allocation is written, and the allocation waits for it. -/
theorem Inv.startLogging (h : s.Inv) {a : FileAllocation}
    (hp : s.space.PendingFile s.usedBlobs a)
    (hfree : a.place ∉ s.pending.map FileAllocation.place) {x : Allocation} {e : AllocLogEntry}
    {mgr : AllocLogManager} (hw : s.log.mgr.writeEntry x = some (e, mgr))
    (hwrap : s.log.mgr.sequence.toNat + 1 < 2 ^ 32)
    (halign : ∀ p ∈ s.positions, p.Aligned s.log.mgr) (hl : s.space.Logs a e)
    (hlt : e.blobId.toNat ≠ 0 ∧ e.blobId.toNat < s.space.nextBlobId) : Inv { s with
      log := { s.log with mgr := mgr, inFlight := s.log.inFlight ++ [(e, mgr.page)] }
      logging := s.logging ++ [a] } := by
  have hperm : (s.creating ++ (s.logging ++ [a]) ++ s.opening).Perm (a :: s.pending) := by
    rw [FileLifecycle.pending, ← List.append_assoc, List.append_assoc _ [a]]
    exact List.perm_middle
  refine ⟨h.pages.writeEntry hw hwrap, ?_, fun w hwr => ?_, h.next_pos, h.blob_lt, h.blobs_lt,
    h.used_lt, fun y hy => ?_, ?_, ?_, fun b hb => ?_, fun i b w hb hbw => ?_, h.opening,
    h.headers, h.used, h.opened⟩
  · obtain ⟨p, hpos, hc⟩ := h.persisted
    exact ⟨p, hpos, hc.writeEntry h.pages hw hwrap
      (halign p (List.mem_append_left _ (Option.mem_toList.mpr hpos)))⟩
  · refine (h.writing w hwr).writeEntry h.pages hw hwrap (halign w.2 ?_)
    exact List.mem_append_right _ (Option.mem_toList.mpr (Option.mem_map_of_mem _ hwr))
  · rw [AllocLogState.entries, List.map_append, ← List.append_assoc] at hy
    rcases List.mem_append.mp hy with hy | hy
    · exact h.entry_lt y hy
    · rw [List.mem_singleton.mp hy]
      exact hlt
  · dsimp only
    rw [List.length_append, List.length_append, h.length_eq]
    rfl
  · exact ((hperm.map FileAllocation.place).nodup_iff).mpr (List.nodup_cons.mpr ⟨hfree, h.places⟩)
  · rcases List.mem_cons.mp (hperm.subset hb) with rfl | hb
    · exact hp
    · exact h.pending b hb
  · dsimp only at hb hbw
    rcases Nat.lt_or_ge i s.logging.length with hi | hi
    · rw [List.getElem?_append_left hi] at hb
      rw [List.getElem?_append_left (h.length_eq ▸ hi)] at hbw
      exact h.logging i b w hb hbw
    · rw [List.getElem?_append_right hi] at hb
      rw [List.getElem?_append_right (h.length_eq ▸ hi), ← h.length_eq] at hbw
      cases hk : i - s.logging.length with
      | zero =>
          rw [hk] at hb hbw
          rw [← Option.some.inj hb, ← Option.some.inj hbw]
          exact hl
      | succ k =>
          rw [hk] at hb
          simp at hb

/-- The allocation at a place of the list waits for the page write at that place. -/
theorem Inv.logs_eraseIdx (h : s.Inv) (k i : ℕ) {a : FileAllocation}
    {w : AllocLogEntry × AllocLogPage} (ha : (s.logging.eraseIdx k)[i]? = some a)
    (hw : (s.log.inFlight.eraseIdx k)[i]? = some w) : s.space.Logs a w.1 := by
  rw [List.getElem?_eraseIdx] at ha hw
  split_ifs at ha hw with hi
  · exact h.logging i a w ha hw
  · exact h.logging (i + 1) a w ha hw

/-- The page write of the oldest entry in flight lands, and the allocation goes on. -/
theorem Inv.pageWritten (h : s.Inv) {w : AllocLogEntry × AllocLogPage} {a : FileAllocation}
    (hw : s.log.inFlight[0]? = some w) (ha : s.logging[0]? = some a) (late : Bool) : Inv { s with
      log := { s.log with
        disk := if late then s.log.mgr.page else w.2
        inFlight := s.log.inFlight.eraseIdx 0
        completed := s.log.completed ++ [w.1] }
      logging := s.logging.eraseIdx 0
      opening := s.opening ++ [a] } := by
  obtain ⟨ws, hws⟩ : ∃ ws, s.log.inFlight = w :: ws := by
    rw [← List.head?_eq_getElem?] at hw
    exact List.head?_eq_some_iff.mp hw
  obtain ⟨as, has⟩ : ∃ as, s.logging = a :: as := by
    rw [← List.head?_eq_getElem?] at ha
    exact List.head?_eq_some_iff.mp ha
  have hl := h.logging 0 a w ha hw
  have herase : s.log.inFlight.eraseIdx 0 = ws := by rw [hws]; rfl
  have hsub : s.log.completed ⊆ s.log.completed ++ [w.1] := List.subset_append_left ..
  have hperm : (s.creating ++ s.logging.eraseIdx 0 ++ (s.opening ++ [a])).Perm s.pending := by
    rw [FileLifecycle.pending, has, List.eraseIdx_cons_zero, List.append_assoc,
      List.append_assoc]
    refine List.Perm.append_left _ ?_
    rw [← List.append_assoc]
    exact List.perm_append_comm
  have hsec : ∀ b, s.Secured b → Secured { s with
      log := { s.log with
        disk := if late then s.log.mgr.page else w.2
        inFlight := s.log.inFlight.eraseIdx 0
        completed := s.log.completed ++ [w.1] }
      logging := s.logging.eraseIdx 0
      opening := s.opening ++ [a] } b := by
    rintro b (⟨e, he, heq⟩ | hb)
    · exact .inl ⟨e, hsub he, heq⟩
    · exact .inr hb
  refine ⟨?_, ?_, fun x hx => ?_, h.next_pos, h.blob_lt, h.blobs_lt, h.used_lt, fun e he => ?_, ?_,
    ((hperm.map _).nodup_iff).mpr h.places, fun b hb => h.pending b (hperm.subset hb),
    fun i b x hb hx => h.logs_eraseIdx 0 i hb hx, fun b hb => ?_, fun x hx => ?_,
    fun b hb hin => ⟨(h.used b hb hin).1, hsec b (h.used b hb hin).2⟩,
    fun f hf hfo => ⟨(h.opened f hf hfo).1, hsec _ (h.opened f hf hfo).2⟩⟩
  · rw [herase]
    exact h.pages.pageWritten late hws
  · obtain ⟨p, hp, hc⟩ := h.persisted
    rw [herase]
    exact ⟨p, hp, hc.pageWritten h.pages late hws⟩
  · rw [herase]
    exact (h.writing x hx).pageWritten h.pages late hws
  · refine h.entry_lt e ?_
    rw [AllocLogState.entries] at he ⊢
    dsimp only at he
    rwa [herase, ← List.append_cons, ← List.map_cons (f := Prod.fst), ← hws] at he
  · dsimp only
    rw [has, hws, List.eraseIdx_cons_zero, List.eraseIdx_cons_zero]
    have := h.length_eq
    rw [has, hws, List.length_cons, List.length_cons] at this
    exact Nat.succ.inj this
  · rcases List.mem_append.mp hb with hb | hb
    · obtain ⟨e, he, hl⟩ := h.opening b hb
      exact ⟨e, hsub he, hl⟩
    · rw [List.mem_singleton.mp hb]
      exact ⟨w.1, List.mem_append_right _ (List.mem_singleton.mpr rfl), hl⟩
  · obtain ⟨e, he, heq⟩ := h.headers x hx
    exact ⟨e, hsub he, heq⟩

/-- A page write fails. -/
theorem Inv.pageFailed (h : s.Inv) (i : ℕ) (failed : List AllocLogEntry) : Inv { s with
      log := { s.log with inFlight := s.log.inFlight.eraseIdx i, failed := failed }
      logging := s.logging.eraseIdx i } := by
  have hsub : (s.creating ++ s.logging.eraseIdx i ++ s.opening).Sublist s.pending :=
    ((List.Sublist.refl _).append (List.eraseIdx_sublist ..)).append (List.Sublist.refl _)
  refine ⟨h.pages.pageFailed i failed, ?_, fun x hx => (h.writing x hx).pageFailed i failed,
    h.next_pos, h.blob_lt, h.blobs_lt, h.used_lt, fun e he => h.entry_lt e ?_, ?_,
    h.places.sublist (hsub.map _), fun b hb => h.pending b (hsub.subset hb),
    fun j b x hb hx => h.logs_eraseIdx i j hb hx, h.opening, h.headers, h.used, h.opened⟩
  · obtain ⟨p, hp, hc⟩ := h.persisted
    exact ⟨p, hp, hc.pageFailed i failed⟩
  · refine List.append_subset.mpr ⟨List.subset_append_left .., fun y hy => ?_⟩ he
    exact List.mem_append_right _ ((List.map_subset _ List.eraseIdx_subset) hy)
  · dsimp only
    rw [List.length_eraseIdx, List.length_eraseIdx, h.length_eq]

/-! ### Headers -/

theorem fileAt_markOpened_of_ne (space : FileSpace Unit) {i j : ℕ} (hj : j < space.files.length)
    (hne : i ≠ j) : (space.markOpened i).fileAt j = space.fileAt j :=
  (space.fileAt_modifyFile i j _ hj).trans (if_neg hne)

/-- Opening a file changes neither blobs nor ids. -/
theorem blobId_fileAt_markOpened (space : FileSpace Unit) (i j : ℕ) :
    ((space.markOpened i).fileAt j).blobId = (space.fileAt j).blobId :=
  space.apply_fileAt_modifyFile (g := FileInfo.blobId) i j fun _ => rfl

theorem blobIds_markOpened (space : FileSpace Unit) (i : ℕ) :
    (space.markOpened i).files.map FileInfo.blobId = space.files.map FileInfo.blobId := by
  rw [FileSpace.markOpened, FileSpace.modifyFile]
  dsimp only
  refine List.ext_getElem? fun j => ?_
  rw [List.getElem?_map, List.getElem?_map, List.getElem?_modify]
  cases space.files[j]? with
  | none => rfl
  | some file =>
      change some (FileInfo.blobId (if i = j then _ else file)) = some file.blobId
      split_ifs <;> rfl

/-- No other allocation under way has the file of this one. -/
theorem place_not_mem_eraseIdx {before l after : List FileAllocation}
    (h : ((before ++ l ++ after).map FileAllocation.place).Nodup) {i : ℕ} {a : FileAllocation}
    (ha : l[i]? = some a) :
    a.place ∉ (before ++ l.eraseIdx i ++ after).map FileAllocation.place := by
  have hperm : (a :: (before ++ l.eraseIdx i ++ after)).Perm (before ++ l ++ after) := by
    obtain ⟨hi, rfl⟩ := List.getElem?_eq_some_iff.mp ha
    rw [← List.cons_append]
    refine List.Perm.append_right _ ?_
    exact List.perm_middle.symm.trans ((List.getElem_cons_eraseIdx_perm hi).append_left _)
  have := ((hperm.map FileAllocation.place).nodup_iff).mpr h
  rw [List.map_cons, List.nodup_cons] at this
  exact this.1

theorem Inv.place_ne (h : s.Inv) {i : ℕ} {a b : FileAllocation} (ha : s.opening[i]? = some a)
    (hb : b ∈ s.creating ++ s.logging ++ s.opening.eraseIdx i) : b.place ≠ a.place := by
  have hplaces := h.places
  rw [FileLifecycle.pending, ← List.append_nil (_ ++ s.opening)] at hplaces
  have := place_not_mem_eraseIdx hplaces ha
  rw [List.append_nil] at this
  exact fun heq => this (heq ▸ List.mem_map_of_mem hb)

/-- A file is opened and has its header. -/
theorem Inv.headerWritten (h : s.Inv) {i : ℕ} {a : FileAllocation}
    (ha : s.opening[i]? = some a) : Inv { s with
      space := s.space.markOpened a.place
      opening := s.opening.eraseIdx i
      headers := s.headers ++ [((s.space.fileAt a.place).blobId,
        UInt16.ofNat (s.space.fileAt a.place).fileId)] } := by
  have hmem := List.mem_of_getElem? ha
  have hpa := h.pending a (List.mem_append_right _ hmem)
  obtain ⟨e, he, hl⟩ := h.opening a hmem
  have hblob := h.entry_lt e (List.mem_append_left _ he)
  rw [← hl.blobId] at hblob
  have hlen : (s.space.markOpened a.place).files.length = s.space.files.length :=
    s.space.length_modifyFile a.place _
  have hother : ∀ b ∈ s.creating ++ s.logging ++ s.opening.eraseIdx i,
      (s.space.markOpened a.place).fileAt b.place = s.space.fileAt b.place ∧ b ∈ s.pending := by
    intro b hb
    have hbp : b ∈ s.pending := by
      refine List.append_subset.mpr ⟨List.subset_append_left .., fun x hx => ?_⟩ hb
      exact List.mem_append_right _ (List.eraseIdx_subset hx)
    exact ⟨fileAt_markOpened_of_ne s.space (h.pending b hbp).lt (h.place_ne ha hb).symm, hbp⟩
  have hheaders : ∀ x ∈ s.headers ++ [((s.space.fileAt a.place).blobId,
      UInt16.ofNat (s.space.fileAt a.place).fileId)],
      ∃ e ∈ s.log.completed, e.blobId.toNat = x.1 ∧ e.fileId = x.2 := by
    intro x hx
    rcases List.mem_append.mp hx with hx | hx
    · exact h.headers x hx
    · rw [List.mem_singleton.mp hx]
      exact ⟨e, he, hl.blobId.symm, hl.fileId.symm⟩
  have hused : ∀ b ∈ (s.headers ++ [((s.space.fileAt a.place).blobId,
      UInt16.ofNat (s.space.fileAt a.place).fileId)]).map Prod.fst ++
        s.records.map StoredRecord.blobId,
      b ∈ s.usedBlobs ∨ b = (s.space.fileAt a.place).blobId := by
    intro b hb
    rw [List.map_append] at hb
    simp only [usedBlobs, List.mem_append, List.map_cons, List.map_nil, List.mem_singleton] at hb ⊢
    tauto
  have hnew : Secured { s with
      space := s.space.markOpened a.place
      opening := s.opening.eraseIdx i
      headers := s.headers ++ [((s.space.fileAt a.place).blobId,
        UInt16.ofNat (s.space.fileAt a.place).fileId)] } (s.space.fileAt a.place).blobId :=
    .inl ⟨e, he, hl.blobId.symm, List.mem_append_right _ (by rw [hl.fileId]; exact List.mem_singleton_self _)⟩
  have hsec : ∀ b, s.Secured b → Secured { s with
      space := s.space.markOpened a.place
      opening := s.opening.eraseIdx i
      headers := s.headers ++ [((s.space.fileAt a.place).blobId,
        UInt16.ofNat (s.space.fileAt a.place).fileId)] } b := by
    rintro b (⟨e, he, heq, hh⟩ | hb)
    · exact .inl ⟨e, he, heq, List.mem_append_left _ hh⟩
    · exact .inr hb
  have hblobIds : ∀ b, b ∈ (s.space.markOpened a.place).files.map FileInfo.blobId ↔
      b ∈ s.blobIds := fun b => by rw [blobIds_markOpened, blobIds]
  have hcov := h.covered ((s.space.markOpened a.place).files.map FileInfo.blobId)
    fun e _ hb => (hblobIds _).mp hb
  refine ⟨h.pages, hcov.1, hcov.2, h.next_pos, fun b hb => h.blob_lt b ((hblobIds b).mp hb),
    h.blobs_lt, fun b hb => ?_, h.entry_lt, h.length_eq, ?_, fun b hb => ?_, fun j b w hb hw => ?_,
    fun b hb => ?_, hheaders, fun b hb hin => ?_, fun f hf hfo => ?_⟩
  · rcases hused b hb with hb | rfl
    · exact h.used_lt b hb
    · exact hblob
  · refine h.places.sublist (List.Sublist.map _ ?_)
    exact (List.Sublist.refl _).append (List.eraseIdx_sublist ..)
  · obtain ⟨heq, hbp⟩ := hother b hb
    obtain ⟨hlt, hclosed, halone, hun⟩ := h.pending b hbp
    refine ⟨hlen.symm ▸ hlt, by rw [heq]; exact hclosed, fun j hj hne hbl => ?_, fun hin => ?_⟩
    · rw [heq] at hbl ⊢
      rw [blobId_fileAt_markOpened] at hbl
      exact halone j (hlen ▸ hj) hne hbl
    · rw [heq] at hin
      rcases hused _ hin with hin | hin
      · exact hun hin
      · rw [halone a.place hpa.lt (h.place_ne ha hb).symm hin.symm] at hin
        exact hblob.1 hin.symm
  · have hb' : b ∈ s.creating ++ s.logging ++ s.opening.eraseIdx i :=
      List.mem_append_left _ (List.mem_append_right _ (List.mem_of_getElem? hb))
    exact (h.logging j b w hb hw).congr (hother b hb').1
  · obtain ⟨x, hx, hxl⟩ := h.opening b (List.eraseIdx_subset hb)
    exact ⟨x, hx, hxl.congr (hother b (List.mem_append_right _ hb)).1⟩
  · rcases hused b hb with hb | rfl
    · exact ⟨(hblobIds b).mpr (h.used b hb hin).1, hsec b (h.used b hb hin).2⟩
    · exact ⟨(hblobIds _).mpr (s.fileAt_blobId_mem hpa.lt), hnew⟩
  · rcases FileSpace.mem_modifyFile (show f ∈ (s.space.modifyFile a.place _).files from hf) with
      hf | ⟨-, rfl⟩
    · exact ⟨(h.opened f hf hfo).1, hsec _ (h.opened f hf hfo).2⟩
    · exact ⟨hblob.1, hnew⟩

/-! ### Superblocks -/

/-- The superblock that is filled in now maps every file. -/
theorem mem_blobIds_updatedSuperblock {space : FileSpace Unit}
    (hids : (space.files.map FileInfo.fileId).Nodup)
    (hroom : space.superblock.HasRoomFor space.files) (position : Option (ℕ × ℕ))
    (dataBytes garbageBytes : ℕ) {b : ℕ} (hb : b ∈ space.files.map FileInfo.blobId) :
    b ∈ (space.updatedSuperblock position dataBytes garbageBytes).blobIds := by
  obtain ⟨f, hf, rfl⟩ := List.mem_map.mp hb
  exact List.mem_map.mpr ⟨_, SuperblockFiles.ofFile_mem_updateAll hids hroom hf, rfl⟩

/-- A superblock is filled in, and the log is emptied. -/
theorem Inv.updateSuperblock (h : s.Inv) {superblock : SuperblockFiles}
    (hall : ∀ b ∈ s.blobIds, b ∈ superblock.blobIds) : Inv { s with
      space := { s.space with superblock := superblock }
      log := { s.log with mgr := s.log.mgr.reclaim }
      writing := some (superblock, s.log.mgr.reclaim.position) } := by
  have hsec : ∀ b ∈ s.blobIds, s.Secured b → Secured { s with
      space := { s.space with superblock := superblock }
      log := { s.log with mgr := s.log.mgr.reclaim }
      writing := some (superblock, s.log.mgr.reclaim.position) } b := by
    rintro b hmem (he | hb)
    · exact .inl he
    · exact .inr ⟨hb.1, fun w hw => Option.some.inj hw ▸ hall b hmem⟩
  obtain ⟨p, hp, hc⟩ := h.persisted
  refine ⟨h.pages.reclaim, ⟨p, hp, hc.reclaim⟩, fun w hw => ?_, h.next_pos, h.blob_lt, h.blobs_lt,
    h.used_lt, h.entry_lt, h.length_eq, h.places, fun a ha => ?_, fun i a w ha hw => ?_,
    fun a ha => ?_, h.headers,
    fun b hb hin => ⟨(h.used b hb hin).1, hsec b (h.used b hb hin).1 (h.used b hb hin).2⟩,
    fun f hf hfo => ⟨(h.opened f hf hfo).1,
      hsec _ (List.mem_map_of_mem hf) (h.opened f hf hfo).2⟩⟩
  · obtain rfl := Option.some.inj hw
    exact .take h.pages.reclaim rfl hall
  · obtain ⟨hlt, hclosed, halone, hun⟩ := h.pending a ha
    exact ⟨hlt, hclosed, halone, hun⟩
  · exact (h.logging i a w ha hw).congr rfl
  · obtain ⟨e, he, hl⟩ := h.opening a ha
    exact ⟨e, he, hl.congr rfl⟩

/-- The superblock on disk is another one, that was filled in before or is filled in now. -/
theorem Inv.persist (h : s.Inv) {table superblock : SuperblockFiles} {p : AllocLogPosition}
    (hc : Covered s.log s.blobIds p table)
    (hsec : ∀ b ∈ s.blobIds, s.Secured b →
      (∃ e ∈ s.log.completed, e.blobId.toNat = b ∧ (b, e.fileId) ∈ s.headers) ∨
        b ∈ table.blobIds) (closed : Bool) : Inv { s with
      closed := closed
      space := { s.space with superblock := superblock }
      log := { s.log with superblock := some p }
      writing := none
      persisted := table } := by
  have hsec : ∀ b ∈ s.blobIds, s.Secured b → Secured { s with
      closed := closed
      space := { s.space with superblock := superblock }
      log := { s.log with superblock := some p }
      writing := none
      persisted := table } b :=
    fun b hb hs => (hsec b hb hs).imp_right fun hb => ⟨hb, fun _ hw => by cases hw⟩
  refine ⟨h.pages.persist _, ⟨p, rfl, hc.persist _⟩, nofun, h.next_pos,
    h.blob_lt, h.blobs_lt, h.used_lt, h.entry_lt, h.length_eq, h.places, fun a ha => ?_,
    fun i a w ha hw => (h.logging i a w ha hw).congr rfl, fun a ha => ?_, h.headers,
    fun b hb hin => ⟨(h.used b hb hin).1, hsec b (h.used b hb hin).1 (h.used b hb hin).2⟩,
    fun f hf hfo => ⟨(h.opened f hf hfo).1,
      hsec _ (List.mem_map_of_mem hf) (h.opened f hf hfo).2⟩⟩
  · obtain ⟨hlt, hclosed, halone, hun⟩ := h.pending a ha
    exact ⟨hlt, hclosed, halone, hun⟩
  · obtain ⟨e, he, hl⟩ := h.opening a ha
    exact ⟨e, he, hl.congr rfl⟩

/-- The superblock in memory plays no part, and the write of a superblock may fail. -/
theorem Inv.forget (h : s.Inv) (superblock : SuperblockFiles) (activeFileId : ℕ) (closed : Bool)
    {writing : Option (SuperblockFiles × AllocLogPosition)}
    (hw : ∀ w ∈ writing, s.writing = some w) : Inv { s with
      closed := closed
      space := { s.space with superblock := superblock, activeFileId := activeFileId }
      writing := writing } := by
  have hsec : ∀ b, s.Secured b → Secured { s with
      closed := closed
      space := { s.space with superblock := superblock, activeFileId := activeFileId }
      writing := writing } b :=
    fun b hs => hs.imp_right fun hb => ⟨hb.1, fun w hwr => hb.2 w (hw w hwr)⟩
  refine ⟨h.pages, h.persisted, fun w hwr => h.writing w (hw w hwr), h.next_pos,
    h.blob_lt, h.blobs_lt, h.used_lt, h.entry_lt, h.length_eq, h.places, fun a ha => ?_,
    fun i a w ha hw => (h.logging i a w ha hw).congr rfl, fun a ha => ?_, h.headers,
    fun b hb hin => ⟨(h.used b hb hin).1, hsec b (h.used b hb hin).2⟩,
    fun f hf hfo => ⟨(h.opened f hf hfo).1, hsec _ (h.opened f hf hfo).2⟩⟩
  · obtain ⟨hlt, hclosed, halone, hun⟩ := h.pending a ha
    exact ⟨hlt, hclosed, halone, hun⟩
  · obtain ⟨e, he, hl⟩ := h.opening a ha
    exact ⟨e, he, hl.congr rfl⟩

/-! ### Opening again -/

/-- The blobs that `open` finds mapped. -/
theorem mem_blobIds_loaded {b : ℕ} (hb : b ∈ s.loaded.blobIds) :
    b ∈ s.persisted.blobIds ∨
      ∃ e ∈ s.foundEntries, e.blobId.toNat = b ∧ b ∈ s.blobs ∧ (b, e.fileId) ∈ s.headers := by
  obtain ⟨m, hm, rfl⟩ := List.mem_map.mp hb
  rcases List.mem_append.mp hm with hm | hm
  · exact .inl (List.mem_map_of_mem hm)
  · obtain ⟨q, hq, rfl⟩ := List.mem_map.mp (List.mem_of_mem_take hm)
    obtain ⟨e, he, rfl⟩ := List.mem_map.mp hq
    obtain ⟨he, hvalid⟩ := List.mem_filter.mp he
    rw [Bool.and_eq_true, canOpen, hasHeader, decide_eq_true_iff, decide_eq_true_iff] at hvalid
    exact .inr ⟨e, he, rfl, hvalid⟩

/-- What `open` adds from the log was logged and has its header. -/
theorem Inv.loaded_secured (h : s.Inv) {b : ℕ} (hb : b ∈ s.loaded.blobIds) :
    (∃ e ∈ s.log.completed, e.blobId.toNat = b ∧ (b, e.fileId) ∈ s.headers) ∨
      b ∈ s.persisted.blobIds := by
  rcases mem_blobIds_loaded hb with hb | ⟨e, -, -, -, hheader⟩
  · exact .inr hb
  · obtain ⟨x, hx, hblob, hid⟩ := h.headers _ hheader
    exact .inl ⟨x, hx, hblob, hid ▸ hheader⟩

theorem mem_blobs_of_canRebuild (hcan : s.canRebuild = true) {b : ℕ}
    (hb : b ∈ s.loaded.blobIds) : b ∈ s.blobs := by
  have := List.all_eq_true.mp hcan b hb
  exact (List.mem_filter.mp (of_decide_eq_true this)).1

/-- The blobs that `open` leaves are mapped, if it succeeds. -/
theorem mem_loaded_of_not_deleted (hcan : s.canRebuild = true) {b : ℕ} (hb : b ∈ s.blobs)
    (hkept : b ∉ s.deletedByOpen) : b ∈ s.loaded.blobIds := by
  rw [deletedByOpen, if_pos hcan, List.mem_append, not_or] at hkept
  by_contra hne
  refine hkept.2 (List.mem_filter.mpr ⟨List.mem_filter.mpr ⟨hb, ?_⟩, decide_eq_true hne⟩)
  exact decide_eq_true hkept.1

/-- The engine is opened. -/
theorem Inv.reopened (h : s.Inv) {recovered : MemIndex n} {p : AllocLogPosition}
    (hp : s.log.superblock = some p) (hcan : s.canRebuild = true)
    (hne : s.loaded.fileMappings ≠ []) : (s.reopened recovered p).Inv := by
  obtain ⟨q, hq, hc⟩ := h.persisted
  obtain rfl := Option.some.inj (hp.symm.trans hq)
  obtain ⟨entries, done, ht⟩ := hc.tracked
  obtain ⟨hpages, entries', done', -, ht'⟩ := ht.restart
  have hspace : (s.reopened recovered p).space = _ := FileSpace.reopened_eq _ _ hne
  have hblobIds : (s.reopened recovered p).blobIds = s.loaded.blobIds := by
    rw [blobIds, hspace]
    dsimp only
    rw [List.map_map]
    rfl
  have hnext : (s.reopened recovered p).space.nextBlobId = s.space.nextBlobId := by rw [hspace]
  have hsec : ∀ b ∈ s.loaded.blobIds, Secured (s.reopened recovered p) b :=
    fun b hb => (h.loaded_secured hb).imp_right fun hb => ⟨hb, fun _ hw => nomatch hw⟩
  refine ⟨hpages, ⟨p, hp, ⟨entries', done', ht'⟩, fun e he hle hb => ?_⟩, nofun,
    hnext ▸ h.next_pos, fun b hb => ?_, fun b hb => ?_, fun b hb => ?_, fun e he => ?_, rfl,
    List.nodup_nil, nofun, nofun, nofun, h.headers, fun b hb hin => ?_, fun f hf _ => ?_⟩
  · have he : e ∈ s.log.completed := by
      rcases List.mem_append.mp he with he | he
      · exact he
      · cases he
    rw [hblobIds] at hb
    rcases mem_blobIds_loaded hb with hb | ⟨x, -, -, hin, hheader⟩
    · exact hb
    · have hused := h.used _ (List.mem_append_left _ (List.mem_map_of_mem hheader)) hin
      exact hc.mapped e (List.mem_append_left _ he) hle hused.1
  · rw [hblobIds] at hb
    rw [hnext]
    exact (h.blobs_lt b (mem_blobs_of_canRebuild hcan hb)).2
  · rw [hnext]
    exact h.blobs_lt b (List.mem_filter.mp hb).1
  · rw [hnext]
    exact h.used_lt b hb
  · rw [hnext]
    refine h.entry_lt e (List.mem_append_left _ ?_)
    rcases List.mem_append.mp he with he | he
    · exact he
    · cases he
  · obtain ⟨hin, hkept⟩ := List.mem_filter.mp hin
    have hb := mem_loaded_of_not_deleted hcan hin (of_decide_eq_true hkept)
    exact ⟨hblobIds ▸ hb, hsec b hb⟩
  · have hb : f.blobId ∈ s.loaded.blobIds := hblobIds ▸ List.mem_map_of_mem hf
    exact ⟨(h.blobs_lt _ (mem_blobs_of_canRebuild hcan hb)).1, hsec _ hb⟩

end FileLifecycle

end SpdkKv
