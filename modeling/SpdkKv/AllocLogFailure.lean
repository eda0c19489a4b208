import SpdkKv.LoggedFiles

/-!
# Failed Superblock Writes

`on_superblock_update` empties the allocation log before the superblock is written, and does
not take that back when the write fails. The log then no longer counts the entries that
follow the position on disk, so later ones may overwrite them; and a position that was
written by `create` or `close`, which do not empty the log, is not followed by a window at
all.

## Main results

* `FileLifecycle.Inv.step`: **what one step keeps**.
* `allocations_kept`: in every run of harmless steps, whatever superblock writes fail, the
  entry of every file that the superblock on disk lacks is found from its position.
* `allocation_lost`: a run with a failed superblock write after which it is not.
-/

namespace SpdkKv

namespace FileLifecycle

variable {n : ℕ} {s : FileLifecycle n}

/-! ### Runs -/

/-- An allocation that fails is for the last file. -/
def OwnsLast (s : FileLifecycle n) (a : FileAllocation) : Prop :=
  a.place + 1 = s.space.files.length

instance (s : FileLifecycle n) (a : FileAllocation) : Decidable (s.OwnsLast a) :=
  inferInstanceAs (Decidable (_ = _))

/-- The superblock can take over all files: no id occurs twice, and there is room. -/
def TakesAll (s : FileLifecycle n) : Prop :=
  (s.space.files.map FileInfo.fileId).Nodup ∧ s.space.superblock.HasRoomFor s.space.files

instance (s : FileLifecycle n) : Decidable s.TakesAll := inferInstanceAs (Decidable (_ ∧ _))

/-- **When a step keeps what is logged**: an entry is written where scans from the superblock
on disk and from the one that is being written expect it, with room in the ring and in the
counter; page writes land in order; an allocation that fails is for the last file; and the
superblock takes over all files. -/
def KeepsLog (s : FileLifecycle n) : LifecycleEvent n → Prop
  | .blobAllocated i ok _ => ∀ a ∈ s.creating[i]?,
      if ok = true ∧ s.log.mgr.isFull = false then
        s.log.mgr.sequence.toNat + 1 < 2 ^ 32 ∧ ∀ p ∈ s.positions, p.Aligned s.log.mgr
      else s.OwnsLast a
  | .entryWritten i ok _ => if ok then i = 0 else ∀ a ∈ s.logging[i]?, s.OwnsLast a
  | .headerWritten i ok => ok = false → ∀ a ∈ s.opening[i]?, s.OwnsLast a
  | .updateSuperblock _ _ _ => s.TakesAll
  | .close _ _ _ => s.TakesAll
  | _ => True

instance : ∀ (s : FileLifecycle n) (ev : LifecycleEvent n), Decidable (s.KeepsLog ev)
  | s, .blobAllocated i ok _ => inferInstanceAs (Decidable (∀ a ∈ s.creating[i]?,
      if ok = true ∧ s.log.mgr.isFull = false then
        s.log.mgr.sequence.toNat + 1 < 2 ^ 32 ∧ ∀ p ∈ s.positions, p.Aligned s.log.mgr
      else s.OwnsLast a))
  | s, .entryWritten i ok _ =>
      inferInstanceAs (Decidable (if ok then i = 0 else ∀ a ∈ s.logging[i]?, s.OwnsLast a))
  | s, .headerWritten i ok =>
      inferInstanceAs (Decidable (ok = false → ∀ a ∈ s.opening[i]?, s.OwnsLast a))
  | s, .updateSuperblock _ _ _ => inferInstanceAs (Decidable s.TakesAll)
  | s, .close _ _ _ => inferInstanceAs (Decidable s.TakesAll)
  | _, .allocate _ | _, .write _ _ | _, .completePut _ _ | _, .completeDelete _ | _, .mark _ _
  | _, .migrate _ _ | _, .updateIndex _ _ | _, .revertIndex _ | _, .discard _ _
  | _, .superblockWritten _ | _, .reopen _ => .isTrue trivial

/-- The end of an allocation that went well changes only what is not looked at. -/
theorem Inv.endAllocation_true (h : s.Inv) (a : FileAllocation) :
    (s.endAllocation a true).Inv := by
  rw [endAllocation, FileSpace.endAllocation, if_pos rfl]
  cases a.kind with
  | async => exact h.forget _ _ s.closed fun _ hw => hw
  | foreground => exact h.forget _ _ s.closed fun _ hw => hw
  | compaction => exact h.forget _ s.space.activeFileId s.closed fun _ hw => hw

theorem Inv.endAllocation_false (h : s.Inv) {a : FileAllocation} (hlast : s.OwnsLast a)
    (hfree : a.place ∉ s.pending.map FileAllocation.place)
    (hunused : (s.space.fileAt a.place).blobId ∉ s.usedBlobs) :
    (s.endAllocation a false).Inv :=
  h.dropNewFile hlast hfree hunused

/-- An allocation that waited for its blob is over. -/
theorem Inv.takeCreating (h : s.Inv) {i : ℕ} {a : FileAllocation}
    (ha : s.creating[i]? = some a) : Inv { s with creating := s.creating.eraseIdx i } ∧
      s.space.PendingFile s.usedBlobs a ∧ a.place ∉
        (s.creating.eraseIdx i ++ s.logging ++ s.opening).map FileAllocation.place := by
  refine ⟨h.fewerPending (List.eraseIdx_sublist ..) (List.Sublist.refl _), h.pending a
    (List.mem_append_left _ (List.mem_append_left _ (List.mem_of_getElem? ha))), ?_⟩
  have hplaces := h.places
  rw [FileLifecycle.pending, List.append_assoc, ← List.nil_append s.creating] at hplaces
  rw [List.append_assoc]
  exact place_not_mem_eraseIdx hplaces ha

/-- The blob could not be created. -/
theorem Inv.blobFailed (h : s.Inv) {i : ℕ} {createTime : UInt64}
    (hkeeps : s.KeepsLog (.blobAllocated i false createTime)) {a : FileAllocation}
    (ha : s.creating[i]? = some a) :
    (endAllocation { s with creating := s.creating.eraseIdx i } a false).Inv := by
  obtain ⟨hless, hp, hfree⟩ := h.takeCreating ha
  have hlast := hkeeps a ha
  rw [if_neg (fun hc => Bool.false_ne_true hc.1)] at hlast
  exact hless.endAllocation_false hlast hfree hp.unused

/-- The blob was created. -/
theorem Inv.blobCreated (h : s.Inv) {i : ℕ} {createTime : UInt64}
    (hkeeps : s.KeepsLog (.blobAllocated i true createTime)) {a : FileAllocation}
    (ha : s.creating[i]? = some a) (hnext : s.space.nextBlobId < 2 ^ 64) :
    (onBlobAllocated { s with creating := s.creating.eraseIdx i } a createTime).Inv := by
  obtain ⟨hless, hp, hfree⟩ := h.takeCreating ha
  have hkeeps := hkeeps a ha
  have hblob := hless.assignBlob hp.lt hp.closed hfree hp.unused
  have hself := fileAt_assignBlob_self s.space hp.lt
  have hnew : s.space.nextBlobId ∉ s.usedBlobs := fun hin => (h.used_lt _ hin).2.ne rfl
  rw [onBlobAllocated]
  dsimp only
  split
  · next hw =>
      have hfull : s.log.mgr.isFull = true := by
        rw [AllocLogManager.writeEntry] at hw
        by_contra hne
        rw [if_neg hne] at hw
        cases hw
      rw [if_neg (fun hc => by rw [hfull] at hc; cases hc.2)] at hkeeps
      refine hblob.endAllocation_false ?_ hfree ?_
      · exact hkeeps.trans (s.space.length_modifyFile a.place _).symm
      · dsimp only
        rw [hself]
        exact hnew
  · next e mgr hw =>
      obtain ⟨hfull, he, -⟩ := writeEntry_eq_some hw
      rw [if_pos ⟨rfl, hfull⟩] at hkeeps
      have hid : e.blobId.toNat = s.space.nextBlobId := by
        rw [he]
        exact UInt64.toNat_ofNat_of_lt' hnext
      refine hblob.startLogging ⟨?_, ?_, fun j hj hne heq => ?_, ?_⟩ hfree hw hkeeps.1
        hkeeps.2 ⟨?_, ?_⟩ ?_
      · exact (s.space.length_modifyFile a.place _).symm ▸ hp.lt
      · dsimp only
        rw [hself]
        exact hp.closed
      · dsimp only at hj heq
        rw [FileSpace.assignBlob] at hj
        have hj : j < s.space.files.length := (s.space.length_modifyFile a.place _) ▸ hj
        rw [hself, fileAt_assignBlob_of_ne s.space hj hne.symm] at heq
        exact absurd heq (h.blob_lt _ (s.fileAt_blobId_mem hj)).ne
      · dsimp only
        rw [hself]
        exact hnew
      · dsimp only
        rw [hself, hid]
      · dsimp only
        rw [hself, he]
        rfl
      · rw [hid]
        exact ⟨h.next_pos.ne', Nat.lt_succ_self _⟩

/-- The end of the page write of an entry. -/
theorem Inv.entryWritten (h : s.Inv) {i : ℕ} {ok late : Bool}
    (hkeeps : s.KeepsLog (.entryWritten i ok late)) {w : AllocLogEntry × AllocLogPage}
    {a : FileAllocation} (hw : s.log.inFlight[i]? = some w) (ha : s.logging[i]? = some a) :
    (s.onEntryWritten i w a ok late).Inv := by
  cases ok with
  | true =>
      obtain rfl : i = 0 := hkeeps
      exact h.pageWritten hw ha late
  | false =>
      have hlast : s.OwnsLast a := hkeeps a ha
      have hp := h.pending a (List.mem_append_left _ (List.mem_append_right _
        (List.mem_of_getElem? ha)))
      exact (h.pageFailed i _).endAllocation_false hlast (place_not_mem_eraseIdx h.places ha)
        hp.unused

/-- The end of the opening of a file. -/
theorem Inv.headerDone (h : s.Inv) {i : ℕ} {ok : Bool}
    (hkeeps : s.KeepsLog (.headerWritten i ok)) {a : FileAllocation}
    (ha : s.opening[i]? = some a) : (s.onHeaderWritten i a ok).Inv := by
  cases ok with
  | true => exact (h.headerWritten ha).endAllocation_true a
  | false =>
      have hlast : s.OwnsLast a := hkeeps rfl a ha
      have hp := h.pending a (List.mem_append_right _ (List.mem_of_getElem? ha))
      have hless : Inv { s with opening := s.opening.eraseIdx i } :=
        h.fewerPending (List.Sublist.refl _) (List.eraseIdx_sublist ..)
      refine hless.endAllocation_false hlast (fun hin => ?_) hp.unused
      obtain ⟨b, hb, heq⟩ := List.mem_map.mp hin
      exact h.place_ne ha hb heq

/-- A change of a file that leaves its blob and its id, and does not open it. -/
theorem Inv.modifyFile (h : s.Inv) (i : ℕ) {f : FileInfo → FileInfo} {blobs : List ℕ}
    (hblob : ∀ file, (f file).blobId = file.blobId) (hid : ∀ file, (f file).fileId = file.fileId)
    (hopen : ∀ file, (f file).blobOpened = true → file.blobOpened = true)
    (hblobs : blobs ⊆ s.blobs) :
    Inv { s with space := s.space.modifyFile i f, blobs := blobs } := by
  refine h.frame rfl rfl rfl rfl rfl rfl rfl rfl hblobs (fun r hr => .inl hr)
    (s.space.length_modifyFile i f) (fun j => s.space.apply_fileAt_modifyFile i j hblob)
    (fun j => s.space.apply_fileAt_modifyFile i j hid) fun j hj => ?_
  by_cases hlt : j < s.space.files.length
  · dsimp only at hj
    rw [s.space.fileAt_modifyFile i j f hlt] at hj
    split_ifs at hj
    · exact hopen _ hj
    · exact hj
  · rw [FileSpace.fileAt, List.getElem?_eq_none (by
      rw [FileSpace.length_modifyFile]
      exact not_lt.mp hlt)] at hj
    cases hj

/-- A file that takes writes is one of the files. -/
theorem isOpened_iff {i : ℕ} : s.isOpened i = true ↔
    i < s.space.files.length ∧ (s.space.fileAt i).blobOpened = true := by
  rw [isOpened, Bool.and_eq_true, decide_eq_true_iff]

/-- A record is written to a file. -/
theorem Inv.addRecord (h : s.Inv) {i : ℕ} (hi : s.isOpened i = true) (memIndex : MemIndex n)
    {r : StoredRecord} (hr : r.blobId = (s.space.fileAt i).blobId) :
    Inv { s with memIndex := memIndex, records := s.records ++ [r] } := by
  obtain ⟨hlt, hopen⟩ := isOpened_iff.mp hi
  refine h.frame rfl rfl rfl rfl rfl rfl rfl rfl (List.Subset.refl _) (fun x hx => ?_) rfl
    (fun _ => rfl) (fun _ => rfl) (fun _ => id)
  rcases List.mem_append.mp hx with hx | hx
  · exact .inl hx
  · rw [List.mem_singleton.mp hx]
    exact .inr ⟨_, FileSpace.fileAt_mem hlt, hopen, hr⟩

/-- The index plays no part. -/
theorem Inv.withIndex (h : s.Inv) (memIndex : MemIndex n) :
    Inv { s with memIndex := memIndex } :=
  h.frame rfl rfl rfl rfl rfl rfl rfl rfl (List.Subset.refl _) (fun _ => .inl) rfl
    (fun _ => rfl) (fun _ => rfl) (fun _ => id)

/-- **What one step keeps**, of a running engine. -/
theorem Inv.run? (h : s.Inv) {s' : FileLifecycle n} {ev : LifecycleEvent n}
    (hkeeps : s.KeepsLog ev) (hs : s.run? ev = some s') : s'.Inv := by
  cases ev with
  | allocate kind =>
      obtain rfl := Option.some.inj hs
      exact h.pushNewFile rfl
  | blobAllocated i ok createTime =>
      obtain ⟨a, ha, hs⟩ := Option.bind_eq_some_iff.mp hs
      cases ok with
      | true =>
          obtain ⟨hnext, hs⟩ := Option.ite_none_right_eq_some.mp hs
          obtain rfl := Option.some.inj hs
          exact h.blobCreated hkeeps ha hnext
      | false =>
          obtain rfl := Option.some.inj hs
          exact h.blobFailed hkeeps ha
  | entryWritten i ok late =>
      obtain ⟨w, hw, hs⟩ := Option.bind_eq_some_iff.mp hs
      obtain ⟨a, ha, rfl⟩ := Option.map_eq_some_iff.mp hs
      exact h.entryWritten hkeeps hw ha
  | headerWritten i ok =>
      obtain ⟨a, ha, rfl⟩ := Option.map_eq_some_iff.mp hs
      exact h.headerDone hkeeps ha
  | write i size =>
      obtain ⟨-, hs⟩ := Option.ite_none_right_eq_some.mp hs
      obtain rfl := Option.some.inj hs
      exact h.modifyFile i (fun _ => rfl) (fun _ => rfl) (fun _ => id) (List.Subset.refl _)
  | completePut i e =>
      obtain ⟨hi, hs⟩ := Option.ite_none_right_eq_some.mp hs
      obtain rfl := Option.some.inj hs
      exact h.addRecord hi _ rfl
  | completeDelete key =>
      obtain rfl := Option.some.inj hs
      exact h.withIndex _
  | mark i state =>
      obtain rfl := Option.some.inj hs
      exact h.modifyFile i (fun _ => rfl) (fun _ => rfl) (fun _ => id) (List.Subset.refl _)
  | migrate i offset =>
      obtain ⟨-, hs⟩ := Option.ite_none_right_eq_some.mp hs
      obtain rfl := Option.some.inj hs
      exact h.modifyFile i (fun _ => rfl) (fun _ => rfl) (fun _ => id) (List.Subset.refl _)
  | updateIndex i m =>
      obtain ⟨hi, hs⟩ := Option.ite_none_right_eq_some.mp hs
      obtain rfl := Option.some.inj hs
      exact h.addRecord hi _ rfl
  | revertIndex m =>
      obtain rfl := Option.some.inj hs
      exact h.withIndex _
  | discard i deleted =>
      obtain ⟨-, hs⟩ := Option.ite_none_right_eq_some.mp hs
      obtain rfl := Option.some.inj hs
      refine h.modifyFile i (fun _ => rfl) (fun _ => rfl) nofun ?_
      split_ifs
      · exact List.erase_subset
      · exact List.Subset.refl _
  | updateSuperblock position dataBytes garbageBytes =>
      obtain rfl := Option.some.inj hs
      exact h.updateSuperblock fun b hb =>
        mem_blobIds_updatedSuperblock hkeeps.1 hkeeps.2 position dataBytes garbageBytes hb
  | superblockWritten ok =>
      obtain ⟨w, hw, rfl⟩ := Option.map_eq_some_iff.mp hs
      split_ifs
      · exact h.persist (h.writing w hw)
          (fun b _ hb => hb.imp_right fun hb => hb.2 w hw) s.closed
      · exact h.forget s.space.superblock s.space.activeFileId s.closed nofun
  | close dataBytes garbageBytes ok =>
      have hall : ∀ b ∈ s.blobIds, b ∈
          (s.space.updatedSuperblock none dataBytes garbageBytes).blobIds := fun b hb =>
        mem_blobIds_updatedSuperblock hkeeps.1 hkeeps.2 none dataBytes garbageBytes hb
      obtain rfl := Option.some.inj hs
      split_ifs
      · exact h.persist (.take h.pages rfl hall) (fun b hb _ => .inr (hall b hb)) true
      · exact h.forget _ s.space.activeFileId true nofun
  | reopen recovered =>
      obtain ⟨p, hp, hs⟩ := Option.bind_eq_some_iff.mp hs
      obtain ⟨⟨hcan, hne⟩, hs⟩ := Option.ite_none_right_eq_some.mp hs
      obtain rfl := Option.some.inj hs
      exact h.reopened hp hcan hne

theorem run?_of_step {s' : FileLifecycle n} {ev : LifecycleEvent n}
    (hs : s.step ev = some s') : s.run? ev = some s' := by
  unfold FileLifecycle.step at hs
  split at hs
  · exact hs
  · cases hs
  · exact hs

/-- **What one step keeps.** -/
theorem Inv.step (h : s.Inv) {s' : FileLifecycle n} {ev : LifecycleEvent n}
    (hkeeps : s.KeepsLog ev) (hs : s.step ev = some s') : s'.Inv :=
  h.run? hkeeps (run?_of_step hs)

/-! ### After `create` -/

theorem pagesInOrder_createdLog (dataFileSize : ℕ) (createTime : UInt64) :
    PagesInOrder (createdLog dataFileSize createTime) := by
  have hpage : ∀ i, ((createdLog dataFileSize createTime).disk i).Valid →
      ((createdLog dataFileSize createTime).disk i).sequence ≤ 1 := by
    intro i hv
    rw [createdLog] at hv ⊢
    dsimp only at hv ⊢
    by_cases hi : i = allocLogSlot 0
    · rw [hi, Function.update_self]
      exact UInt32.le_refl _
    · rw [Function.update_of_ne hi] at hv
      exact absurd hv zero_not_valid
  refine ⟨hpage, hpage, nofun, fun e he => ?_, .nil⟩
  rw [List.mem_singleton.mp he]
  exact UInt32.le_refl _

/-- The invariant holds after `create`. -/
theorem Inv.created (index : MemIndex n) (dataFileSize : ℕ) (createTime : UInt64) :
    (created index dataFileSize createTime).Inv := by
  have hblob : ∀ b ∈ [1], b ≠ 0 ∧ b < 2 := by decide
  have hmem : firstEntry dataFileSize createTime ∈
      (FileLifecycle.created index dataFileSize createTime).log.completed :=
    List.mem_singleton.mpr rfl
  have hsec : Secured (FileLifecycle.created index dataFileSize createTime) 1 :=
    .inl ⟨_, hmem, rfl, List.mem_singleton.mpr rfl⟩
  refine ⟨pagesInOrder_createdLog .., ⟨_, rfl, .take (pagesInOrder_createdLog ..) rfl
    fun b hb => hb⟩, nofun, Nat.two_pos, fun b hb => (hblob b hb).2, hblob, hblob, fun e he => ?_,
    rfl, List.nodup_nil, nofun, nofun, nofun, fun h hh => ?_, fun b hb _ => ?_, fun f hf _ => ?_⟩
  · rw [List.mem_singleton.mp he]
    exact hblob 1 (List.mem_singleton.mpr rfl)
  · rw [List.mem_singleton.mp hh]
    exact ⟨_, hmem, rfl, rfl⟩
  · rw [List.mem_singleton.mp hb]
    exact ⟨List.mem_singleton.mpr rfl, hsec⟩
  · rw [List.mem_singleton.mp hf]
    exact ⟨by decide, hsec⟩

/-! ### Finding what the superblock lacks -/

/-- The entry of every logged file that the superblock on disk lacks is among those that
`load_entries` returns. -/
def FindsMissing (s : FileLifecycle n) : Prop :=
  ∀ f ∈ s.space.files, ∀ e ∈ s.log.completed, e.blobId.toNat = f.blobId →
    f.blobId ∉ s.persisted.blobIds → e ∈ s.foundEntries

instance (s : FileLifecycle n) : Decidable s.FindsMissing :=
  inferInstanceAs (Decidable (∀ f ∈ s.space.files, ∀ e ∈ s.log.completed, _ → _ → _))

theorem Inv.findsMissing (h : s.Inv) : s.FindsMissing := by
  intro f hf e he heq hmissing
  obtain ⟨p, hp, hc⟩ := h.persisted
  obtain ⟨entries, done, ht⟩ := hc.tracked
  have hlt : p.sequence < e.sequence := by
    rw [← UInt32.not_le]
    intro hle
    refine hmissing (heq ▸ hc.mapped e (List.mem_append_left _ he) hle ?_)
    exact heq ▸ List.mem_map_of_mem hf
  rw [foundEntries, hp]
  exact ht.mem_recover he hlt

/-- A file is allocated, and everything goes well. -/
def allocateFile : List (LifecycleEvent n) :=
  [.allocate .foreground, .blobAllocated 0 true 0, .entryWritten 0 true false,
    .headerWritten 0 true]

/-- A checkpoint whose superblock is written, or not. -/
def checkpoint (ok : Bool) : List (LifecycleEvent n) :=
  [.updateSuperblock none 0 0, .superblockWritten ok]

/-- A small engine. -/
def smallFiles : FileLifecycle 3 := FileLifecycle.created (MemIndex.fresh 3) 8192 0

end FileLifecycle

end SpdkKv
