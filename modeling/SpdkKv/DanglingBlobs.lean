import SpdkKv.AllocLogFailure
import SpdkKv.FileTable

/-!
# Blobs That `open` Deletes

`open` deletes the blobs of logged allocations without a header, and then every data blob
that neither the superblock nor the log maps. A file that was allocated after the superblock
was written is kept only through its entry in the log, and an entry counts only if the scan
from the position of the superblock reaches it and the table has room for it.

## Main results

* `Recovers.step`: **what one step keeps** of the tables and the entries behind them.
* `live_blob_kept`: in every run of harmless steps, the next `open` deletes no blob with a
  record that the index maps to.
* `live_blob_deleted`: the first file that is allocated after `create` is deleted with its
  records.
-/

namespace SpdkKv

namespace FileLifecycle

variable {n : ℕ}

/-- The superblocks that count, with their positions. -/
def saved (self : FileLifecycle n) : List (SuperblockFiles × AllocLogPosition) :=
  (self.log.superblock.map fun p => (self.persisted, p)).toList ++ self.writing.toList

/-- What `open` leaves of the records: no blob that it deletes has a record that the index
maps to. -/
def KeepsLive (s : FileLifecycle n) : Prop :=
  ∀ r ∈ s.records, s.Live r → r.blobId ∉ s.deletedByOpen

instance (s : FileLifecycle n) : Decidable s.KeepsLive :=
  inferInstanceAs (Decidable (∀ r ∈ s.records, _ → _))

/-- An entry is only written while the tables of the superblock on disk and of the one that
is being written have room for all entries that follow them. -/
def HasRoomBehind (s : FileLifecycle n) : LifecycleEvent n → Prop
  | .blobAllocated _ true _ => ∀ w ∈ s.saved,
      w.1.fileMappings.length + (s.log.mgr.sequence.toNat - w.2.sequence.toNat) < kMaxFileCount
  | _ => True

instance : ∀ (s : FileLifecycle n) (ev : LifecycleEvent n), Decidable (s.HasRoomBehind ev)
  | s, .blobAllocated _ true _ => inferInstanceAs (Decidable (∀ w ∈ s.saved,
      w.1.fileMappings.length + (s.log.mgr.sequence.toNat - w.2.sequence.toNat) <
        kMaxFileCount))
  | _, .blobAllocated _ false _ | _, .allocate _ | _, .entryWritten _ _ _
  | _, .headerWritten _ _ | _, .write _ _ | _, .completePut _ _ | _, .completeDelete _
  | _, .mark _ _ | _, .migrate _ _ | _, .updateIndex _ _ | _, .revertIndex _ | _, .discard _ _
  | _, .updateSuperblock _ _ _ | _, .superblockWritten _ | _, .close _ _ _ | _, .reopen _ =>
      .isTrue trivial

/-- **When a step keeps all files in reach of `open`**: it keeps what is logged, and leaves
room for it. -/
def KeepsReach (s : FileLifecycle n) (ev : LifecycleEvent n) : Prop :=
  s.KeepsLog ev ∧ s.HasRoomBehind ev

instance (s : FileLifecycle n) (ev : LifecycleEvent n) : Decidable (s.KeepsReach ev) :=
  inferInstanceAs (Decidable (_ ∧ _))

end FileLifecycle

/-! ### The invariant -/

/-- A superblock and the entries that follow its position: the entries are for other blobs
than the table, for each blob there is one, and the table has room for them. -/
structure InReach (log : AllocLogState) (nextBlobId : ℕ) (p : AllocLogPosition)
    (table : SuperblockFiles) : Prop where
  entries : ∃ entries done, Tracks log p entries done ∧ ∀ x ∈ entries,
    x.blobId.toNat < nextBlobId ∧ x.blobId.toNat ∉ table.blobIds ∧
      ∀ e ∈ log.entries, e.blobId = x.blobId → e.fileId = x.fileId
  room : table.fileMappings.length + (log.mgr.sequence.toNat - p.sequence.toNat) ≤ kMaxFileCount
  blob_lt : ∀ b ∈ table.blobIds, b < nextBlobId

/-- The invariant of a run. -/
structure Recoverable (log : AllocLogState) (nextBlobId : ℕ)
    (writing : Option (SuperblockFiles × AllocLogPosition))
    (persisted superblock : SuperblockFiles) : Prop where
  persisted : ∀ p, log.superblock = some p → InReach log nextBlobId p persisted
  writing : ∀ w ∈ writing, InReach log nextBlobId w.2 w.1
  fits : superblock.Fits
  blob_lt : ∀ b ∈ superblock.blobIds, b < nextBlobId

namespace InReach

variable {log : AllocLogState} {next : ℕ} {p : AllocLogPosition} {table : SuperblockFiles}

/-- More blobs have been created. -/
theorem mono (h : InReach log next p table) {next' : ℕ} (hle : next ≤ next') :
    InReach log next' p table := by
  obtain ⟨entries, done, ht, hx⟩ := h.entries
  exact ⟨⟨entries, done, ht, fun x hmem => ⟨(hx x hmem).1.trans_le hle, (hx x hmem).2⟩⟩, h.room,
    fun b hb => (h.blob_lt b hb).trans_le hle⟩

/-- An entry is written for the blob that was created. -/
theorem writeEntry (h : InReach log next p table) (hs : PagesInOrder log) {a : Allocation}
    {e : AllocLogEntry} {mgr : AllocLogManager} (hw : log.mgr.writeEntry a = some (e, mgr))
    (hwrap : log.mgr.sequence.toNat + 1 < 2 ^ 32) (halign : p.Aligned log.mgr)
    (hroom : table.fileMappings.length + (log.mgr.sequence.toNat - p.sequence.toNat) <
      kMaxFileCount) (hentries : ∀ x ∈ log.entries, x.blobId.toNat < next)
    (he : e.blobId.toNat = next) :
    InReach { log with mgr := mgr, inFlight := log.inFlight ++ [(e, mgr.page)] } (next + 1) p
      table := by
  obtain ⟨entries, done, ht, hx⟩ := h.entries
  have hnew : ∀ x : AllocLogEntry, x.blobId.toNat < next → x.blobId ≠ e.blobId := by
    intro x hlt heq
    rw [heq, he] at hlt
    exact Nat.lt_irrefl _ hlt
  have hmem : ∀ y ∈ ({ log with mgr := mgr, inFlight := log.inFlight ++ [(e, mgr.page)] } :
      AllocLogState).entries, y ∈ log.entries ∨ y = e := by
    intro y hy
    rw [AllocLogState.entries, List.map_append, ← List.append_assoc] at hy
    exact (List.mem_append.mp hy).imp_right List.mem_singleton.mp
  refine ⟨⟨_, done, ht.writeEntry hs hw hwrap halign, fun x hxe => ?_⟩, ?_,
    fun b hb => Nat.lt_succ_of_lt (h.blob_lt b hb)⟩
  · rcases List.mem_append.mp hxe with hxe | hxe
    · obtain ⟨hlt, htable, hsame⟩ := hx x hxe
      refine ⟨Nat.lt_succ_of_lt hlt, htable, fun y hy heq => ?_⟩
      rcases hmem y hy with hy | rfl
      · exact hsame y hy heq
      · exact absurd heq.symm (hnew x hlt)
    · obtain rfl := List.mem_singleton.mp hxe
      refine ⟨he ▸ Nat.lt_succ_self _, fun hin => ?_, fun y hy heq => ?_⟩
      · rw [he] at hin
        exact Nat.lt_irrefl _ (h.blob_lt _ hin)
      · rcases hmem y hy with hy | rfl
        · exact absurd heq (hnew y (hentries y hy))
        · rfl
  · have hseq : mgr.sequence = log.mgr.sequence + 1 := by
      rw [(writeEntry_eq_some hw).2.2]
    dsimp only
    rw [hseq, toNat_add_one hwrap]
    have := ht.sequence
    omega

/-- Page writes change which entries are in flight. -/
theorem congr (h : InReach log next p table) {log' : AllocLogState}
    (htracks : ∀ entries done, Tracks log p entries done → ∃ done', Tracks log' p entries done')
    (hsub : log'.entries ⊆ log.entries) (hmgr : log'.mgr.sequence = log.mgr.sequence) :
    InReach log' next p table := by
  obtain ⟨entries, done, ht, hx⟩ := h.entries
  obtain ⟨done', ht'⟩ := htracks entries done ht
  exact ⟨⟨entries, done', ht', fun x hmem => ⟨(hx x hmem).1, (hx x hmem).2.1,
    fun e he => (hx x hmem).2.2 e (hsub he)⟩⟩, hmgr ▸ h.room, h.blob_lt⟩

/-- A superblock that is filled in now. -/
theorem take (hs : PagesInOrder log) (hp : p.sequence = log.mgr.sequence) (hfits : table.Fits)
    (hlt : ∀ b ∈ table.blobIds, b < next) : InReach log next p table :=
  ⟨⟨[], 0, hs.tracks hp, nofun⟩, by rw [hp, Nat.sub_self]; exact hfits, hlt⟩

/-- A restart from the position. -/
theorem restart (h : InReach log next p table) :
    InReach { log with mgr := (p.recover log.disk).1, inFlight := [], failed := [] } next p
      table := by
  obtain ⟨entries, done, ht, hx⟩ := h.entries
  obtain ⟨-, entries', done', hsub, ht'⟩ := ht.restart
  obtain ⟨k, -, hk, -, -, hseq, -⟩ := ht.recover
  refine ⟨⟨entries', done', ht', fun x hmem => ⟨(hx x (hsub hmem)).1, (hx x (hsub hmem)).2.1,
    fun e he => (hx x (hsub hmem)).2.2 e ?_⟩⟩, ?_, h.blob_lt⟩
  · rcases List.mem_append.mp he with he | he
    · exact List.mem_append_left _ he
    · cases he
  · have := h.room
    have := ht.sequence
    dsimp only
    rw [hseq]
    omega

end InReach

namespace FileLifecycle

variable {n : ℕ} {s : FileLifecycle n}

/-- The invariant of a run, of a state. -/
def Recovers (s : FileLifecycle n) : Prop :=
  Recoverable s.log s.space.nextBlobId s.writing s.persisted s.space.superblock

/-! ### Steps -/

/-- What changes only which entries are in flight or how far they are on disk. -/
theorem Recovers.congr (h : s.Recovers) (log' : AllocLogState)
    (hsuperblock : log'.superblock = s.log.superblock)
    (htracks : ∀ p entries done, Tracks s.log p entries done →
      ∃ done', Tracks log' p entries done')
    (hsub : log'.entries ⊆ s.log.entries) (hmgr : log'.mgr.sequence = s.log.mgr.sequence) :
    Recoverable log' s.space.nextBlobId s.writing s.persisted s.space.superblock where
  persisted := fun p hp => (h.persisted p (hsuperblock ▸ hp)).congr (htracks p) hsub hmgr
  writing := fun w hw => (h.writing w hw).congr (htracks w.2) hsub hmgr
  fits := h.fits
  blob_lt := h.blob_lt

/-- A mapping is overwritten or added. -/
theorem Recovers.updateFileMapping (h : s.Recovers) {file : FileInfo}
    (hfile : file.blobId < s.space.nextBlobId) :
    Recoverable s.log s.space.nextBlobId s.writing s.persisted
      (s.space.superblock.updateFileMapping file) where
  persisted := h.persisted
  writing := h.writing
  fits := h.fits.updateFileMapping file
  blob_lt := by
    intro b hb
    obtain ⟨m, hm, rfl⟩ := List.mem_map.mp hb
    rcases SuperblockFiles.mem_updateFileMapping hm with hm | rfl
    · exact h.blob_lt _ (List.mem_map_of_mem hm)
    · exact hfile

theorem Inv.blobId_fileAt_lt (h : s.Inv) (i : ℕ) :
    (s.space.fileAt i).blobId < s.space.nextBlobId := by
  rcases Nat.lt_or_ge i s.space.files.length with hi | hi
  · exact h.blob_lt _ (s.fileAt_blobId_mem hi)
  · rw [FileSpace.fileAt, List.getElem?_eq_none hi]
    exact h.next_pos

/-- An allocation ends. -/
theorem Recovers.endAllocation (h : s.Recovers) (hi : s.Inv) (a : FileAllocation) (ok : Bool) :
    (s.endAllocation a ok).Recovers := by
  cases ok with
  | false => exact h
  | true =>
      rw [FileLifecycle.endAllocation, FileSpace.endAllocation, if_pos rfl]
      cases a.kind with
      | async => exact h.updateFileMapping (hi.blobId_fileAt_lt _)
      | foreground => exact h.updateFileMapping (hi.blobId_fileAt_lt _)
      | compaction => exact h.updateFileMapping (hi.blobId_fileAt_lt _)

/-- The superblock that is filled in is in order. -/
theorem Recovers.updatedSuperblock (h : s.Recovers) (hi : s.Inv) (position : Option (ℕ × ℕ))
    (dataBytes garbageBytes : ℕ) :
    (s.space.updatedSuperblock position dataBytes garbageBytes).Fits ∧
      ∀ b ∈ (s.space.updatedSuperblock position dataBytes garbageBytes).blobIds,
        b < s.space.nextBlobId := by
  refine ⟨h.fits.updateAll s.space.files, fun b hb => ?_⟩
  obtain ⟨m, hm, rfl⟩ := List.mem_map.mp hb
  rcases SuperblockFiles.mem_updateAll hm with hm | ⟨f, hf, rfl⟩
  · exact h.blob_lt _ (List.mem_map_of_mem hm)
  · exact hi.blob_lt _ (List.mem_map_of_mem hf)

/-- The blob of an allocation was created. -/
theorem Recovers.onBlobAllocated (h : s.Recovers) (hi : s.Inv) {i : ℕ} {createTime : UInt64}
    (hreach : s.KeepsReach (.blobAllocated i true createTime)) {a : FileAllocation}
    (ha : s.creating[i]? = some a) (hnext : s.space.nextBlobId < 2 ^ 64) :
    (onBlobAllocated { s with creating := s.creating.eraseIdx i } a createTime).Recovers := by
  obtain ⟨hkeeps, hroom⟩ := hreach
  have hkeeps := hkeeps a ha
  rw [FileLifecycle.onBlobAllocated]
  dsimp only
  split
  · exact ⟨fun p hp => (h.persisted p hp).mono (Nat.le_succ _),
      fun w hw => (h.writing w hw).mono (Nat.le_succ _), h.fits,
      fun b hb => Nat.lt_succ_of_lt (h.blob_lt b hb)⟩
  · next e mgr hw =>
      obtain ⟨hfull, he, -⟩ := writeEntry_eq_some hw
      rw [if_pos ⟨rfl, hfull⟩] at hkeeps
      have hid : e.blobId.toNat = s.space.nextBlobId := by
        rw [he]
        exact UInt64.toNat_ofNat_of_lt' hnext
      have hentries := fun x hx => (hi.entry_lt x hx).2
      refine ⟨fun p hp => ?_, fun w hwr => ?_, h.fits, fun b hb => Nat.lt_succ_of_lt (h.blob_lt b hb)⟩
      · refine (h.persisted p hp).writeEntry hi.pages hw hkeeps.1 (hkeeps.2 p ?_)
          (hroom (s.persisted, p) ?_) hentries hid
        · exact List.mem_append_left _ (Option.mem_toList.mpr hp)
        · exact List.mem_append_left _ (Option.mem_toList.mpr (Option.mem_map_of_mem _ hp))
      · refine (h.writing w hwr).writeEntry hi.pages hw hkeeps.1 (hkeeps.2 w.2 ?_)
          (hroom w ?_) hentries hid
        · exact List.mem_append_right _ (Option.mem_toList.mpr (Option.mem_map_of_mem _ hwr))
        · exact List.mem_append_right _ (Option.mem_toList.mpr hwr)

/-- The page write of an entry ends. -/
theorem Recovers.onEntryWritten (h : s.Recovers) (hi : s.Inv) {i : ℕ} {ok late : Bool}
    (hkeeps : s.KeepsLog (.entryWritten i ok late)) {w : AllocLogEntry × AllocLogPage}
    {a : FileAllocation} (hw : s.log.inFlight[i]? = some w) :
    (s.onEntryWritten i w a ok late).Recovers := by
  cases ok with
  | true =>
      obtain rfl : i = 0 := hkeeps
      obtain ⟨ws, hws⟩ : ∃ ws, s.log.inFlight = w :: ws := by
        rw [← List.head?_eq_getElem?] at hw
        exact List.head?_eq_some_iff.mp hw
      have hlog : (s.onEntryWritten 0 w a true late).log = { s.log with
          disk := if late then s.log.mgr.page else w.2
          inFlight := ws
          completed := s.log.completed ++ [w.1] } := by
        rw [FileLifecycle.onEntryWritten, if_pos rfl, hws]
        rfl
      refine h.congr (s.onEntryWritten 0 w a true late).log rfl
        (fun p entries done ht => ⟨p.upTo w.1, ?_⟩) ?_ rfl
      · rw [hlog]
        exact ht.pageWritten hi.pages late hws
      · rw [hlog, AllocLogState.entries, AllocLogState.entries, hws, List.append_assoc]
        exact List.Subset.refl _
  | false =>
      refine h.congr { s.log with
          inFlight := s.log.inFlight.eraseIdx i
          failed := s.log.failed ++ [w.1] } rfl
        (fun p entries done ht => ⟨done, ht.pageFailed i _⟩) ?_ rfl
      refine List.append_subset.mpr ⟨List.subset_append_left .., fun y hy => ?_⟩
      exact List.mem_append_right _ ((List.map_subset _ List.eraseIdx_subset) hy)

/-- The engine is opened. -/
theorem Recovers.reopened (h : s.Recovers) (hi : s.Inv) {recovered : MemIndex n}
    {p : AllocLogPosition} (hp : s.log.superblock = some p) (hcan : s.canRebuild = true)
    (hne : s.loaded.fileMappings ≠ []) : (s.reopened recovered p).Recovers := by
  have hspace : (s.reopened recovered p).space = _ := FileSpace.reopened_eq _ _ hne
  have hpers := h.persisted p hp
  rw [Recovers, hspace]
  refine ⟨fun q hq => ?_, nofun, ?_, fun b hb => ?_⟩
  · obtain rfl := Option.some.inj (hp.symm.trans hq)
    exact hpers.restart
  · exact SuperblockFiles.Fits.addLogged ((Nat.le_add_right _ _).trans hpers.room) _
  · exact (hi.blobs_lt b (mem_blobs_of_canRebuild hcan hb)).2

/-- **What one step keeps**, of the tables and the entries behind them. -/
theorem Recovers.step (h : s.Recovers) (hi : s.Inv) {s' : FileLifecycle n}
    {ev : LifecycleEvent n} (hreach : s.KeepsReach ev) (hs : s.step ev = some s') :
    s'.Recovers := by
  have hs := run?_of_step hs
  cases ev with
  | allocate kind =>
      obtain rfl := Option.some.inj hs
      exact h
  | blobAllocated i ok createTime =>
      obtain ⟨a, ha, hs⟩ := Option.bind_eq_some_iff.mp hs
      cases ok with
      | true =>
          obtain ⟨hnext, hs⟩ := Option.ite_none_right_eq_some.mp hs
          obtain rfl := Option.some.inj hs
          exact h.onBlobAllocated hi hreach ha hnext
      | false =>
          obtain rfl := Option.some.inj hs
          exact h
  | entryWritten i ok late =>
      obtain ⟨w, hw, hs⟩ := Option.bind_eq_some_iff.mp hs
      obtain ⟨a, -, rfl⟩ := Option.map_eq_some_iff.mp hs
      exact h.onEntryWritten hi hreach.1 hw
  | headerWritten i ok =>
      obtain ⟨a, ha, rfl⟩ := Option.map_eq_some_iff.mp hs
      cases ok with
      | true =>
          have hopened : Recovers { s with
            space := s.space.markOpened a.place
            opening := s.opening.eraseIdx i
            headers := s.headers ++ [((s.space.fileAt a.place).blobId,
              UInt16.ofNat (s.space.fileAt a.place).fileId)] } := h
          exact hopened.endAllocation (hi.headerWritten ha) a true
      | false => exact h
  | write i size =>
      obtain ⟨-, hs⟩ := Option.ite_none_right_eq_some.mp hs
      obtain rfl := Option.some.inj hs
      exact h
  | completePut i e =>
      obtain ⟨-, hs⟩ := Option.ite_none_right_eq_some.mp hs
      obtain rfl := Option.some.inj hs
      exact h
  | completeDelete key =>
      obtain rfl := Option.some.inj hs
      exact h
  | mark i state =>
      obtain rfl := Option.some.inj hs
      exact h
  | migrate i offset =>
      obtain ⟨-, hs⟩ := Option.ite_none_right_eq_some.mp hs
      obtain rfl := Option.some.inj hs
      exact h
  | updateIndex i m =>
      obtain ⟨-, hs⟩ := Option.ite_none_right_eq_some.mp hs
      obtain rfl := Option.some.inj hs
      exact h
  | revertIndex m =>
      obtain rfl := Option.some.inj hs
      exact h
  | discard i deleted =>
      obtain ⟨-, hs⟩ := Option.ite_none_right_eq_some.mp hs
      obtain rfl := Option.some.inj hs
      exact h
  | updateSuperblock position dataBytes garbageBytes =>
      obtain rfl := Option.some.inj hs
      obtain ⟨hfits, hlt⟩ := h.updatedSuperblock hi position dataBytes garbageBytes
      have hkept := h.congr { s.log with mgr := s.log.mgr.reclaim } rfl
        (fun p entries done ht => ⟨done, ht.reclaim⟩) (List.Subset.refl _) rfl
      refine ⟨hkept.persisted, fun w hw => ?_, hfits, hlt⟩
      obtain rfl := Option.some.inj hw
      exact .take hi.pages.reclaim rfl hfits hlt
  | superblockWritten ok =>
      obtain ⟨w, hw, rfl⟩ := Option.map_eq_some_iff.mp hs
      split_ifs
      · refine ⟨fun p hp => ?_, nofun, h.fits, h.blob_lt⟩
        obtain rfl := Option.some.inj hp
        exact (h.writing w hw).congr (fun entries done ht => ⟨done, ht.persist _⟩)
          (List.Subset.refl _) rfl
      · exact ⟨h.persisted, nofun, h.fits, h.blob_lt⟩
  | close dataBytes garbageBytes ok =>
      obtain ⟨hfits, hlt⟩ := h.updatedSuperblock hi none dataBytes garbageBytes
      obtain rfl := Option.some.inj hs
      split_ifs
      · refine ⟨fun p hp => ?_, nofun, hfits, hlt⟩
        obtain rfl := Option.some.inj hp
        exact .take (hi.pages.persist _) rfl hfits hlt
      · exact ⟨h.persisted, nofun, hfits, hlt⟩
  | reopen recovered =>
      obtain ⟨p, hp, hs⟩ := Option.bind_eq_some_iff.mp hs
      obtain ⟨⟨hcan, hne⟩, hs⟩ := Option.ite_none_right_eq_some.mp hs
      obtain rfl := Option.some.inj hs
      exact h.reopened hi hp hcan hne

theorem Recovers.created (index : MemIndex n) (dataFileSize : ℕ) (createTime : UInt64) :
    (FileLifecycle.created index dataFileSize createTime).Recovers := by
  have hblob : ∀ b ∈ [1], b < 2 := by decide
  have hfits : (FileSpace.created (W := Unit) dataFileSize).superblock.Fits := by
    rw [SuperblockFiles.Fits]
    exact Nat.succ_le_of_lt (Nat.succ_pos _)
  refine ⟨fun p hp => ?_, fun w hw => ?_, hfits, hblob⟩
  · obtain rfl := Option.some.inj hp
    exact .take (pagesInOrder_createdLog ..) rfl hfits hblob
  · cases hw

/-! ### What `open` leaves -/

/-- The blobs that are mapped on disk stay mapped. -/
theorem mem_loaded_of_mem_persisted {b : ℕ} (hb : b ∈ s.persisted.blobIds) :
    b ∈ s.loaded.blobIds := by
  rw [loaded, SuperblockFiles.blobIds, SuperblockFiles.addLogged, List.map_append]
  exact List.mem_append_left _ hb

/-- What `load_entries` returns are entries behind the position on disk. -/
theorem Recovers.found (h : s.Recovers) {p : AllocLogPosition}
    (hp : s.log.superblock = some p) :
    s.foundEntries.length ≤ s.log.mgr.sequence.toNat - p.sequence.toNat ∧
      ∀ x ∈ s.foundEntries, x.blobId.toNat ∉ s.persisted.blobIds ∧
        ∀ e ∈ s.log.entries, e.blobId = x.blobId → e.fileId = x.fileId := by
  obtain ⟨entries, done, ht, hx⟩ := (h.persisted p hp).entries
  obtain ⟨k, -, -, -, hres, -⟩ := ht.recover
  have hfound : s.foundEntries = entries.take k := by
    rw [foundEntries, hp]
    exact hres
  refine ⟨?_, fun x hxf => (hx x ?_).2⟩
  · rw [hfound, List.length_take, ht.sequence]
    omega
  · rw [hfound] at hxf
    exact List.take_subset _ _ hxf

/-- An entry with a header that is found is added to the superblock, for which there is
room. -/
theorem Recovers.mem_loaded_of_found (h : s.Recovers) (hi : s.Inv) {e : AllocLogEntry}
    (he : e ∈ s.foundEntries) (hblob : e.blobId.toNat ∈ s.blobs)
    (hheader : (e.blobId.toNat, e.fileId) ∈ s.headers) :
    e.blobId.toNat ∈ s.loaded.blobIds := by
  obtain ⟨p, hp, -⟩ := hi.persisted
  have hvalid : (e.fileId.toNat, e.blobId.toNat) ∈ s.validAllocations := by
    refine List.mem_map.mpr ⟨e, List.mem_filter.mpr ⟨he, ?_⟩, rfl⟩
    rw [Bool.and_eq_true, canOpen, hasHeader, decide_eq_true_iff, decide_eq_true_iff]
    exact ⟨hblob, hheader⟩
  have hlen : s.validAllocations.length ≤ s.foundEntries.length := by
    rw [validAllocations, List.length_map]
    exact List.length_filter_le ..
  have hroom := (h.persisted p hp).room
  have hcount := (h.found hp).1
  rw [loaded, SuperblockFiles.blobIds, SuperblockFiles.addLogged]
  dsimp only
  rw [List.take_of_length_le (by rw [List.length_map]; omega), List.map_append, List.map_map]
  exact List.mem_append_right _ (List.mem_map.mpr ⟨_, hvalid, rfl⟩)

/-- A used blob is mapped when it is opened. -/
theorem Recovers.mem_loaded (h : s.Recovers) (hi : s.Inv) {b : ℕ} (hused : b ∈ s.usedBlobs)
    (hb : b ∈ s.blobs) : b ∈ s.loaded.blobIds := by
  obtain ⟨hmem, hsec⟩ := hi.used b hused hb
  rcases hsec with ⟨e, he, rfl, hheader⟩ | ⟨hin, -⟩
  · obtain ⟨p, hp, hc⟩ := hi.persisted
    by_cases hlt : p.sequence < e.sequence
    · refine h.mem_loaded_of_found hi ?_ hb hheader
      obtain ⟨entries, done, ht⟩ := hc.tracked
      rw [foundEntries, hp]
      exact ht.mem_recover he hlt
    · exact mem_loaded_of_mem_persisted
        (hc.mapped e (List.mem_append_left _ he) (UInt32.not_lt.mp hlt) hmem)
  · exact mem_loaded_of_mem_persisted hin

/-- The header of a used blob is the one its entry asks for. -/
theorem Recovers.not_mem_rejectedBlobs (h : s.Recovers) (hi : s.Inv) {b : ℕ}
    (hused : b ∈ s.usedBlobs) : b ∉ s.rejectedBlobs := by
  intro hr
  obtain ⟨x, hxr, rfl⟩ := List.mem_map.mp hr
  obtain ⟨hxf, hx⟩ := List.mem_filter.mp hxr
  rw [Bool.and_eq_true, canOpen, decide_eq_true_iff, Bool.not_eq_true', hasHeader,
    decide_eq_false_iff_not] at hx
  obtain ⟨p, hp, -⟩ := hi.persisted
  obtain ⟨hmapped, hsame⟩ := (h.found hp).2 x hxf
  rcases (hi.used _ hused hx.1).2 with ⟨e, he, heq, hheader⟩ | ⟨hin, -⟩
  · rw [hsame e (List.mem_append_left _ he) (UInt64.toNat_inj.mp heq)] at hheader
    exact hx.2 hheader
  · exact hmapped hin

/-- Used blobs are kept. -/
theorem Recovers.not_mem_deletedByOpen (h : s.Recovers) (hi : s.Inv) {b : ℕ}
    (hused : b ∈ s.usedBlobs) : b ∉ s.deletedByOpen := by
  rw [deletedByOpen, List.mem_append, not_or]
  refine ⟨h.not_mem_rejectedBlobs hi hused, ?_⟩
  split_ifs
  · intro hd
    obtain ⟨hrem, hno⟩ := List.mem_filter.mp hd
    exact of_decide_eq_true hno (h.mem_loaded hi hused (List.mem_filter.mp hrem).1)
  · exact List.not_mem_nil

/-- An entry of a key that lies in a file. -/
def entryIn (fileId : ℕ) : MemIndexEntry :=
  ⟨5, BitVec.ofNat 10 fileId, 1, false, 1, 1, HashUtil.tag 5⟩

end FileLifecycle

end SpdkKv
