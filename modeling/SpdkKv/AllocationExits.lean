import SpdkKv.AllocLogFailure

/-!
# Allocations That Fail

An allocation is a chain of calls: create the blob, write its entry to the allocation log, open
it, take a buffer for the header, write the header. Each one may fail. Whichever fails, the
caller takes the file out of `files_` again, and nothing else is taken back.

## Main results

* `FileLifecycle.run_allocateNewFile`: the chain is a run of the data files.
* `FileLifecycle.failed_allocations_leak`: **what failed allocations leave behind** — a blob for
  each one, and an entry of the log as long as the log has room.
* `FileLifecycle.failed_allocation_leaks_blob`: a page write that fails leaves a blob behind.
-/

namespace SpdkKv

/-- What the log, the blobstore and the allocator answer to the calls of an allocation, from
where the blob was created. -/
structure AllocationAnswers where
  createTime : UInt64
  entryWritten : Bool
  blobOpened : Bool
  headerBuffer : Bool
  headerWritten : Bool
  deriving DecidableEq, Repr

namespace FileLifecycle

variable {n : ℕ}

/-! ### The chain of calls -/

/-- `handle_blob_opened_for_file`, with the write of the header. -/
def handleBlobOpenedForFile (self : FileLifecycle n) (i : ℕ) (answers : AllocationAnswers) :
    FileLifecycle n × Bool :=
  if answers.blobOpened = false then (self, false)
  else
    let opened := { self with space := self.space.markOpened i }
    if answers.headerBuffer = false then (opened, false)
    else if answers.headerWritten = false then (opened, false)
    else
      ({ opened with
        headers := self.headers ++
          [((self.space.fileAt i).blobId, UInt16.ofNat (self.space.fileAt i).fileId)] }, true)

/-- `allocate_blob_for_file`, when the blob is created: `on_blob_allocated` and what follows. -/
def allocateBlobForFile (self : FileLifecycle n) (a : FileAllocation)
    (answers : AllocationAnswers) : FileLifecycle n × Bool :=
  let withBlob := { self with
    space := self.space.assignBlob a.place
    blobs := self.blobs ++ [self.space.nextBlobId] }
  match self.log.mgr.writeEntry (self.allocationOf a answers.createTime) with
  | none => (withBlob, false)
  | some (entry, mgr) =>
      if answers.entryWritten = false then
        ({ withBlob with
          log := { self.log with mgr := mgr, failed := self.log.failed ++ [entry] } }, false)
      else
        handleBlobOpenedForFile { withBlob with
          log := { self.log with
            mgr := mgr
            disk := mgr.page
            completed := self.log.completed ++ [entry] } } a.place answers

/-- `allocate_new_file`, or `allocate_new_file_async` with `on_new_file_allocated`, when the log
has been looked at: the state afterwards, and whether the allocation went well. -/
def allocateNewFile (self : FileLifecycle n) (kind : AllocKind) (answers : AllocationAnswers) :
    FileLifecycle n × Bool :=
  let a : FileAllocation := ⟨self.space.files.length, kind⟩
  let result := allocateBlobForFile { self with space := self.space.pushNewFile } a answers
  (result.1.endAllocation a result.2, result.2)

/-! ### The chain is a run -/

/-- The events of an allocation with nothing else in between. -/
def allocationEvents (self : FileLifecycle n) (kind : AllocKind) (answers : AllocationAnswers) :
    List (LifecycleEvent n) :=
  [.allocate kind, .blobAllocated self.creating.length true answers.createTime] ++
    if self.log.mgr.isFull then []
    else .entryWritten self.logging.length answers.entryWritten false ::
      if answers.entryWritten = false then []
      else [.headerWritten self.opening.length
        (answers.blobOpened && answers.headerBuffer && answers.headerWritten)]

/-- What happens to an engine that runs. -/
theorem step_of_open {s : FileLifecycle n} (hopen : s.closed = false) (ev : LifecycleEvent n) :
    (lifecycleMachine n).step s ev = s.run? ev := by
  simp only [lifecycleMachine, step, hopen]

/-- What was added last is taken out. -/
theorem eraseIdx_length_append {α : Type} (l : List α) (a : α) :
    (l ++ [a]).eraseIdx l.length = l := by
  rw [List.eraseIdx_append_of_length_le le_rfl, Nat.sub_self]
  exact List.append_nil l

section Run

variable (s : FileLifecycle n) (a : FileAllocation) (hopen : s.closed = false)
include hopen

/-- The blob of the allocation that began last is created. -/
theorem step_blobAllocated_last (createTime : UInt64) (hnext : s.space.nextBlobId < 2 ^ 64) :
    (lifecycleMachine n).step { s with creating := s.creating ++ [a] }
      (.blobAllocated s.creating.length true createTime) =
        some (s.onBlobAllocated a createTime) := by
  rw [step_of_open (by exact hopen)]
  simp only [run?, List.getElem?_concat_length, Option.bind_some, if_true,
    eraseIdx_length_append]
  rw [if_pos hnext]

/-- The entry of the allocation that began last is written, or not. -/
theorem step_entryWritten_last (w : AllocLogEntry × AllocLogPage) (ok : Bool)
    (hlogging : s.logging.length = s.log.inFlight.length) :
    (lifecycleMachine n).step { s with
        log := { s.log with inFlight := s.log.inFlight ++ [w] }
        logging := s.logging ++ [a] } (.entryWritten s.logging.length ok false) =
      some (if ok then
        { s with
          log := { s.log with disk := w.2, completed := s.log.completed ++ [w.1] }
          opening := s.opening ++ [a] }
      else
        endAllocation { s with
          log := { s.log with failed := s.log.failed ++ [w.1] } } a false) := by
  have hwrite : (s.log.inFlight ++ [w])[s.logging.length]? = some w := by
    rw [hlogging]
    exact List.getElem?_concat_length
  have hwrites : (s.log.inFlight ++ [w]).eraseIdx s.logging.length = s.log.inFlight := by
    rw [hlogging]
    exact eraseIdx_length_append _ _
  rw [step_of_open (by exact hopen)]
  simp only [run?, hwrite, Option.bind_some, List.getElem?_concat_length, Option.map_some,
    onEntryWritten, hwrites, eraseIdx_length_append]
  rfl

/-- The blob of the allocation that began last is opened and gets its header, or not. -/
theorem step_headerWritten_last (ok : Bool) :
    (lifecycleMachine n).step { s with opening := s.opening ++ [a] }
        (.headerWritten s.opening.length ok) =
      some (endAllocation (if ok then
        { s with
          space := s.space.markOpened a.place
          headers := s.headers ++ [((s.space.fileAt a.place).blobId,
            UInt16.ofNat (s.space.fileAt a.place).fileId)] }
        else s) a ok) := by
  rw [step_of_open (by exact hopen)]
  simp only [run?, List.getElem?_concat_length, Option.map_some, onHeaderWritten,
    eraseIdx_length_append]
  cases ok <;> rfl

end Run

/-- Marking the last file as opened makes no difference when it is taken out. -/
theorem endAllocation_markOpened {s : FileLifecycle n} {files : List FileInfo} {file : FileInfo}
    (hfiles : s.space.files = files ++ [file]) (a : FileAllocation)
    (hplace : a.place = files.length) :
    endAllocation { s with space := s.space.markOpened a.place } a false =
      s.endAllocation a false := by
  have hdrop : (s.space.files.modify a.place fun file => { file with blobOpened := true }).dropLast
      = s.space.files.dropLast := by
    rw [hfiles, hplace, modify_length_append, List.dropLast_concat, List.dropLast_concat]
  simp only [endAllocation, FileSpace.endAllocation, FileSpace.dropNewFile, FileSpace.markOpened,
    FileSpace.modifyFile, if_neg Bool.false_ne_true, hdrop]

/-- The calls from the opening of the blob on are one event. -/
theorem endAllocation_handleBlobOpenedForFile {s : FileLifecycle n} {files : List FileInfo}
    {file : FileInfo} (hfiles : s.space.files = files ++ [file]) {answers : AllocationAnswers}
    (a : FileAllocation) (hplace : a.place = files.length) :
    endAllocation (if answers.blobOpened && answers.headerBuffer && answers.headerWritten then
      { s with
        space := s.space.markOpened a.place
        headers := s.headers ++ [((s.space.fileAt a.place).blobId,
          UInt16.ofNat (s.space.fileAt a.place).fileId)] }
      else s) a (answers.blobOpened && answers.headerBuffer && answers.headerWritten) =
      endAllocation (s.handleBlobOpenedForFile a.place answers).1 a
        (s.handleBlobOpenedForFile a.place answers).2 := by
  have hmark := endAllocation_markOpened hfiles a hplace
  rw [handleBlobOpenedForFile]
  cases answers.blobOpened with
  | false => rfl
  | true =>
      cases answers.headerBuffer with
      | false => exact hmark.symm
      | true =>
          cases answers.headerWritten with
          | false => exact hmark.symm
          | true => rfl

/-- **The chain is a run** of the data files. -/
theorem run_allocateNewFile {s : FileLifecycle n} (kind : AllocKind)
    (answers : AllocationAnswers) (hopen : s.closed = false)
    (hnext : s.space.nextBlobId < 2 ^ 64) (hlogging : s.logging.length = s.log.inFlight.length) :
    (lifecycleMachine n).run s (s.allocationEvents kind answers) =
      some (s.allocateNewFile kind answers).1 := by
  let s₀ : FileLifecycle n := { s with space := s.space.pushNewFile }
  let a : FileAllocation := ⟨s.space.files.length, kind⟩
  have hblob : (lifecycleMachine n).step { s₀ with creating := s₀.creating ++ [a] }
      (.blobAllocated s.creating.length true answers.createTime) =
        some (s₀.onBlobAllocated a answers.createTime) :=
    step_blobAllocated_last s₀ a hopen answers.createTime hnext
  rw [allocationEvents, List.cons_append, List.singleton_append]
  refine ((lifecycleMachine n).run_cons_eq_some_iff).mpr ⟨_, step_of_open hopen _, ?_⟩
  refine ((lifecycleMachine n).run_cons_eq_some_iff).mpr ⟨_, hblob, ?_⟩
  rw [onBlobAllocated, allocateNewFile, allocateBlobForFile]
  dsimp only
  cases hw : s.log.mgr.writeEntry (s₀.allocationOf a answers.createTime) with
  | none =>
      have hfull : s.log.mgr.isFull = true := by
        rw [AllocLogManager.isFull, decide_eq_true_iff]
        exact AllocLogManager.le_usedCount_of_writeEntry hw
      rw [if_pos hfull, Machine.run_nil]
  | some w =>
      obtain ⟨e, mgr⟩ := w
      have hroom : s.log.mgr.isFull = false := (writeEntry_eq_some hw).1
      let s₁ : FileLifecycle n := { s₀ with
        space := s₀.space.assignBlob a.place
        blobs := s₀.blobs ++ [s₀.space.nextBlobId]
        log := { s₀.log with mgr := mgr } }
      have hentry := step_entryWritten_last s₁ a hopen (e, mgr.page) answers.entryWritten hlogging
      rw [hroom, if_neg Bool.false_ne_true]
      refine ((lifecycleMachine n).run_cons_eq_some_iff).mpr ⟨_, hentry, ?_⟩
      by_cases hwritten : answers.entryWritten = false
      · rw [if_pos hwritten, hwritten, if_neg Bool.false_ne_true, Machine.run_nil]
        dsimp only
        rw [if_pos rfl]
      · rw [if_neg hwritten, Bool.eq_true_of_not_eq_false hwritten, if_pos rfl,
          Machine.run_singleton]
        let s₂ : FileLifecycle n := { s₁ with
          log := { s₁.log with disk := mgr.page, completed := s₁.log.completed ++ [e] } }
        refine (step_headerWritten_last s₂ a hopen _).trans ?_
        exact congrArg some (endAllocation_handleBlobOpenedForFile (modify_length_append ..) a rfl)

/-! ### What a failed allocation leaves behind -/

/-- What a failed allocation is to leave as it was. -/
structure Unchanged (s s' : FileLifecycle n) : Prop where
  blobs : ∀ b, b ∈ s'.blobs ↔ b ∈ s.blobs
  files : s'.space.files = s.space.files
  nextFileId : UInt16.ofNat s'.space.nextFileId = UInt16.ofNat s.space.nextFileId
  usedCount : s'.log.mgr.usedCount = s.log.mgr.usedCount

/-- What a failed allocation does leave: the blob it created, and an entry of the log if there
was room for it. -/
structure Leaked (s s' : FileLifecycle n) : Prop where
  blobs : s'.blobs = s.blobs ++ [s.space.nextBlobId]
  nextBlobId : s'.space.nextBlobId = s.space.nextBlobId + 1
  files : s'.space.files = s.space.files
  nextFileId : UInt16.ofNat s'.space.nextFileId = UInt16.ofNat s.space.nextFileId
  usedCount : s.log.mgr.usedCount ≤ kAllocLogCapacity →
    s'.log.mgr.usedCount = min kAllocLogCapacity (s.log.mgr.usedCount + 1)

/-- Where an allocation stands when its chain has ended with a failure: the new file is still
the last one. -/
structure Stopped (s s' : FileLifecycle n) : Prop where
  blobs : s'.blobs = s.blobs ++ [s.space.nextBlobId]
  nextBlobId : s'.space.nextBlobId = s.space.nextBlobId + 1
  files : ∃ file, s'.space.files = s.space.files ++ [file]
  nextFileId : s'.space.nextFileId = (s.space.nextFileId + 1) % 2 ^ 16
  usedCount : s.log.mgr.usedCount ≤ kAllocLogCapacity →
    s'.log.mgr.usedCount = min kAllocLogCapacity (s.log.mgr.usedCount + 1)

/-- The two exits behind the opened blob, and the one before: at most the file is marked. -/
theorem handleBlobOpenedForFile_failed {s : FileLifecycle n} {i : ℕ}
    {answers : AllocationAnswers} (h : (s.handleBlobOpenedForFile i answers).2 = false) :
    (s.handleBlobOpenedForFile i answers).1 = s ∨
      (s.handleBlobOpenedForFile i answers).1 = { s with space := s.space.markOpened i } := by
  rw [handleBlobOpenedForFile] at h ⊢
  split_ifs at h ⊢
  · exact .inl rfl
  · exact .inr rfl
  · exact .inr rfl

/-- Marking the new file as opened makes no difference. -/
theorem Stopped.markOpened {s s' : FileLifecycle n} (h : Stopped s s') :
    Stopped s { s' with space := s'.space.markOpened s.space.files.length } where
  blobs := h.blobs
  nextBlobId := h.nextBlobId
  files := by
    obtain ⟨file, hfiles⟩ := h.files
    refine ⟨{ file with blobOpened := true }, ?_⟩
    rw [FileSpace.markOpened, FileSpace.modifyFile]
    dsimp only
    rw [hfiles, modify_length_append]
  nextFileId := h.nextFileId
  usedCount := h.usedCount

/-- **All exits of the chain** leave the blob, and the entry of the log. -/
theorem allocateBlobForFile_failed {s : FileLifecycle n} {kind : AllocKind}
    {answers : AllocationAnswers}
    (h : (allocateBlobForFile { s with space := s.space.pushNewFile }
      ⟨s.space.files.length, kind⟩ answers).2 = false) :
    Stopped s (allocateBlobForFile { s with space := s.space.pushNewFile }
      ⟨s.space.files.length, kind⟩ answers).1 := by
  have hfiles : (s.space.pushNewFile.assignBlob s.space.files.length).files =
      s.space.files ++ [{ FileInfo.fresh s.space.nextFileId with
        blobId := s.space.nextBlobId }] := modify_length_append ..
  rw [allocateBlobForFile] at h ⊢
  dsimp only at h ⊢
  split at h
  · next hw =>
      have hfull := AllocLogManager.le_usedCount_of_writeEntry hw
      exact ⟨rfl, rfl, ⟨_, hfiles⟩, rfl, fun hle => by dsimp only at hfull ⊢; omega⟩
  · next e mgr hw =>
      obtain ⟨hroom, hused⟩ := AllocLogManager.usedCount_writeEntry hw
      have hcount : mgr.usedCount = min kAllocLogCapacity (s.log.mgr.usedCount + 1) := by
        rw [hused]
        exact (min_eq_right hroom).symm
      split_ifs at h ⊢
      · exact ⟨rfl, rfl, ⟨_, hfiles⟩, rfl, fun _ => hcount⟩
      · have hwritten : Stopped s { s with
            space := s.space.pushNewFile.assignBlob s.space.files.length
            blobs := s.blobs ++ [s.space.nextBlobId]
            log := { s.log with
              mgr := mgr
              disk := mgr.page
              completed := s.log.completed ++ [e] } } :=
          ⟨rfl, rfl, ⟨_, hfiles⟩, rfl, fun _ => hcount⟩
        rcases handleBlobOpenedForFile_failed h with heq | heq
        · rw [heq]
          exact hwritten
        · rw [heq]
          exact hwritten.markOpened

/-- The caller takes the file out again. -/
theorem Stopped.leaked {s s' : FileLifecycle n} (h : Stopped s s') (a : FileAllocation) :
    Leaked s (s'.endAllocation a false) where
  blobs := h.blobs
  nextBlobId := h.nextBlobId
  files := by
    obtain ⟨file, hfiles⟩ := h.files
    show s'.space.files.dropLast = _
    rw [hfiles, List.dropLast_concat]
  nextFileId := by
    have hback : (s'.space.nextFileId + (2 ^ 16 - 1)) % 2 ^ 16 = s.space.nextFileId % 2 ^ 16 := by
      rw [h.nextFileId]
      omega
    refine UInt16.toNat_inj.mp ?_
    rw [UInt16.toNat_ofNat', UInt16.toNat_ofNat', ← hback]
    exact Nat.mod_mod _ _
  usedCount := h.usedCount

/-- **What a failed allocation leaves behind**, whichever call failed. -/
theorem allocateNewFile_failed {s : FileLifecycle n} {kind : AllocKind}
    {answers : AllocationAnswers} (h : (s.allocateNewFile kind answers).2 = false) :
    Leaked s (s.allocateNewFile kind answers).1 := by
  have hfailed : (allocateBlobForFile { s with space := s.space.pushNewFile }
    ⟨s.space.files.length, kind⟩ answers).2 = false := h
  have hleaked := (allocateBlobForFile_failed hfailed).leaked ⟨s.space.files.length, kind⟩
  rw [allocateNewFile]
  dsimp only
  rwa [hfailed]

/-! ### Attempts one after the other -/

/-- The state after allocations one after the other. -/
def afterAttempts : FileLifecycle n → List (AllocKind × AllocationAnswers) → FileLifecycle n
  | s, [] => s
  | s, attempt :: attempts => (s.allocateNewFile attempt.1 attempt.2).1.afterAttempts attempts

/-- Every one of the allocations fails. -/
def AllFail : FileLifecycle n → List (AllocKind × AllocationAnswers) → Prop
  | _, [] => True
  | s, attempt :: attempts => (s.allocateNewFile attempt.1 attempt.2).2 = false ∧
      (s.allocateNewFile attempt.1 attempt.2).1.AllFail attempts

/-- **What failed allocations leave behind**, one after the other. -/
theorem afterAttempts_failed {s : FileLifecycle n}
    {attempts : List (AllocKind × AllocationAnswers)} (h : s.AllFail attempts)
    (hused : s.log.mgr.usedCount ≤ kAllocLogCapacity) :
    (s.afterAttempts attempts).blobs =
        s.blobs ++ List.range' s.space.nextBlobId attempts.length ∧
      (s.afterAttempts attempts).space.files = s.space.files ∧
      UInt16.ofNat (s.afterAttempts attempts).space.nextFileId =
        UInt16.ofNat s.space.nextFileId ∧
      (s.afterAttempts attempts).log.mgr.usedCount =
        min kAllocLogCapacity (s.log.mgr.usedCount + attempts.length) := by
  induction attempts generalizing s with
  | nil => exact ⟨(List.append_nil _).symm, rfl, rfl, (min_eq_right hused).symm⟩
  | cons attempt attempts ih =>
      have hleaked := allocateNewFile_failed h.1
      have hcount := hleaked.usedCount hused
      obtain ⟨hblobs, hfiles, hid, hrest⟩ := ih h.2 (by omega)
      refine ⟨?_, hfiles.trans hleaked.files, hid.trans hleaked.nextFileId, ?_⟩
      · refine hblobs.trans ?_
        rw [hleaked.blobs, hleaked.nextBlobId, List.length_cons, List.range'_succ,
          List.append_assoc, List.singleton_append]
      · refine hrest.trans ?_
        rw [hcount, List.length_cons]
        omega

/-! ### What else happens meanwhile -/

/-- Blobs have their numbers in turn, and the log holds no more than it can. -/
structure Numbered (s : FileLifecycle n) : Prop where
  blob_lt : ∀ b ∈ s.blobs, b < s.space.nextBlobId
  used_le : s.log.mgr.usedCount ≤ kAllocLogCapacity

/-- The event may delete blobs: a compaction takes its destination back, or `open` clears up. -/
def Deletes : LifecycleEvent n → Prop
  | .discard _ deleted => deleted = true
  | .reopen _ => True
  | _ => False

theorem length_scanEntries_le (page : AllocLogPage) (head : UInt32) (remaining i : ℕ)
    (lastSeq : UInt32) :
    (AllocLogManager.scanEntries page head remaining i lastSeq).length ≤ remaining := by
  induction remaining generalizing i lastSeq with
  | zero => exact le_rfl
  | succ remaining ih =>
      rw [AllocLogManager.scanEntries]
      split_ifs
      · exact Nat.zero_le _
      · exact Nat.zero_le _
      · exact Nat.zero_le _
      · exact Nat.succ_le_succ (ih _ _)

/-- What is read back fits the log. -/
theorem usedCount_recover (p : AllocLogPosition) (disk : AllocLogPage) :
    (p.recover disk).1.usedCount ≤ kAllocLogCapacity := by
  have hlen := length_scanEntries_le disk p.head kAllocLogCapacity 0 p.sequence
  obtain ⟨len, hdef⟩ : ∃ len, len = (AllocLogManager.scanEntries disk p.head kAllocLogCapacity 0
    p.sequence).length := ⟨_, rfl⟩
  rw [← hdef] at hlen
  have hused : (p.recover disk).1.usedCount = (p.head + UInt32.ofNat len - p.head).toNat := by
    rw [hdef]
    rfl
  have hcancel : p.head + UInt32.ofNat len - p.head = UInt32.ofNat len := by grind
  rw [hused, hcancel, UInt32.toNat_ofNat']
  exact (Nat.mod_le _ _).trans hlen

/-- What one step does to the blobs and the log: blobs keep their numbers, none is given away
twice, only two kinds of events delete any, and the log does not overflow. -/
structure BlobStep (s s' : FileLifecycle n) (ev : LifecycleEvent n) : Prop where
  next_le : s.space.nextBlobId ≤ s'.space.nextBlobId
  blob_lt : ∀ b ∈ s'.blobs, b ∈ s.blobs ∨ b < s'.space.nextBlobId
  kept : ¬ Deletes ev → s.blobs ⊆ s'.blobs
  used_le : s.log.mgr.usedCount ≤ kAllocLogCapacity →
    s'.log.mgr.usedCount ≤ kAllocLogCapacity

namespace BlobStep

variable {s s' : FileLifecycle n} {ev : LifecycleEvent n}

/-- A step that leaves the blobs and the log alone. -/
theorem of_eq (hnext : s'.space.nextBlobId = s.space.nextBlobId) (hblobs : s'.blobs = s.blobs)
    (hmgr : s'.log.mgr = s.log.mgr) : BlobStep s s' ev :=
  ⟨hnext.ge, fun _ hb => .inl (hblobs ▸ hb), fun _ => hblobs ▸ List.Subset.refl _,
    fun h => hmgr ▸ h⟩

/-- The blob of an allocation is created. -/
theorem onBlobAllocated (a : FileAllocation) (createTime : UInt64) :
    BlobStep s (s.onBlobAllocated a createTime) ev := by
  have hnew : ∀ b ∈ s.blobs ++ [s.space.nextBlobId],
      b ∈ s.blobs ∨ b < s.space.nextBlobId + 1 := by
    intro b hb
    rcases List.mem_append.mp hb with hb | hb
    · exact .inl hb
    · exact .inr (List.mem_singleton.mp hb ▸ Nat.lt_succ_self _)
  rw [FileLifecycle.onBlobAllocated]
  dsimp only
  split
  · exact ⟨Nat.le_succ _, hnew, fun _ => List.subset_append_left .., id⟩
  · next e mgr hw =>
      obtain ⟨hroom, hused⟩ := AllocLogManager.usedCount_writeEntry hw
      exact ⟨Nat.le_succ _, hnew, fun _ => List.subset_append_left ..,
        fun _ => hused.trans_le hroom⟩

/-- The end of an allocation leaves the blobs alone. -/
theorem endAllocation (a : FileAllocation) (ok : Bool) : BlobStep s (s.endAllocation a ok) ev := by
  refine of_eq ?_ rfl rfl
  show (s.space.endAllocation a ok).nextBlobId = _
  rw [FileSpace.endAllocation]
  split_ifs
  · cases a.kind <;> rfl
  · rfl

/-- **What one step does** to the blobs and the log. -/
theorem of_step (h : (lifecycleMachine n).step s ev = some s') : BlobStep s s' ev := by
  have hs := run?_of_step h
  cases ev with
  | allocate kind =>
      obtain rfl := Option.some.inj hs
      exact of_eq rfl rfl rfl
  | blobAllocated i ok createTime =>
      obtain ⟨a, -, hs⟩ := Option.bind_eq_some_iff.mp hs
      cases ok with
      | true =>
          obtain ⟨-, hs⟩ := Option.ite_none_right_eq_some.mp hs
          obtain rfl := Option.some.inj hs
          obtain ⟨hle, hlt, hkept, hused⟩ : BlobStep { s with creating := s.creating.eraseIdx i } _
            (.blobAllocated i true createTime) := onBlobAllocated a createTime
          exact ⟨hle, hlt, hkept, hused⟩
      | false =>
          obtain rfl := Option.some.inj hs
          exact of_eq rfl rfl rfl
  | entryWritten i ok late =>
      obtain ⟨w, -, hs⟩ := Option.bind_eq_some_iff.mp hs
      obtain ⟨a, -, rfl⟩ := Option.map_eq_some_iff.mp hs
      cases ok with
      | true => exact of_eq rfl rfl rfl
      | false => exact of_eq rfl rfl rfl
  | headerWritten i ok =>
      obtain ⟨a, -, rfl⟩ := Option.map_eq_some_iff.mp hs
      cases ok with
      | true =>
          obtain ⟨hle, hlt, hkept, hused⟩ : BlobStep { s with
              space := s.space.markOpened a.place
              opening := s.opening.eraseIdx i
              headers := s.headers ++ [((s.space.fileAt a.place).blobId,
                UInt16.ofNat (s.space.fileAt a.place).fileId)] } _ (.headerWritten i true) :=
            endAllocation a true
          exact ⟨hle, hlt, hkept, hused⟩
      | false => exact of_eq rfl rfl rfl
  | write i size =>
      obtain ⟨-, hs⟩ := Option.ite_none_right_eq_some.mp hs
      obtain rfl := Option.some.inj hs
      exact of_eq rfl rfl rfl
  | completePut i e =>
      obtain ⟨-, hs⟩ := Option.ite_none_right_eq_some.mp hs
      obtain rfl := Option.some.inj hs
      exact of_eq rfl rfl rfl
  | completeDelete key =>
      obtain rfl := Option.some.inj hs
      exact of_eq rfl rfl rfl
  | mark i state =>
      obtain rfl := Option.some.inj hs
      exact of_eq rfl rfl rfl
  | migrate i offset =>
      obtain ⟨-, hs⟩ := Option.ite_none_right_eq_some.mp hs
      obtain rfl := Option.some.inj hs
      exact of_eq rfl rfl rfl
  | updateIndex i m =>
      obtain ⟨-, hs⟩ := Option.ite_none_right_eq_some.mp hs
      obtain rfl := Option.some.inj hs
      exact of_eq rfl rfl rfl
  | revertIndex m =>
      obtain rfl := Option.some.inj hs
      exact of_eq rfl rfl rfl
  | discard i deleted =>
      obtain ⟨-, hs⟩ := Option.ite_none_right_eq_some.mp hs
      obtain rfl := Option.some.inj hs
      cases deleted with
      | true =>
          exact ⟨le_rfl, fun b hb => .inl (List.erase_subset hb), fun hno => absurd rfl hno, id⟩
      | false => exact of_eq rfl rfl rfl
  | updateSuperblock position dataBytes garbageBytes =>
      obtain rfl := Option.some.inj hs
      refine ⟨le_rfl, fun b hb => .inl hb, fun _ => List.Subset.refl _, fun _ => ?_⟩
      exact (AllocLogManager.usedCount_reclaim _).trans_le (Nat.zero_le _)
  | superblockWritten ok =>
      obtain ⟨w, -, rfl⟩ := Option.map_eq_some_iff.mp hs
      cases ok with
      | true => exact of_eq rfl rfl rfl
      | false => exact of_eq rfl rfl rfl
  | close dataBytes garbageBytes ok =>
      obtain rfl := Option.some.inj hs
      cases ok with
      | true => exact of_eq rfl rfl rfl
      | false => exact of_eq rfl rfl rfl
  | reopen recovered =>
      obtain ⟨p, -, hs⟩ := Option.bind_eq_some_iff.mp hs
      obtain ⟨⟨-, hne⟩, hs⟩ := Option.ite_none_right_eq_some.mp hs
      obtain rfl := Option.some.inj hs
      refine ⟨?_, fun b hb => .inl (List.mem_filter.mp hb).1, fun hno => absurd trivial hno,
        fun _ => usedCount_recover p s.log.disk⟩
      have hspace : (s.reopened recovered p).space = _ := FileSpace.reopened_eq _ _ hne
      rw [hspace]

end BlobStep

variable {s s' : FileLifecycle n}

/-- **Numbers are kept in every run.** -/
theorem Numbered.run {evs : List (LifecycleEvent n)} (h : s.Numbered)
    (hrun : (lifecycleMachine n).run s evs = some s') : s'.Numbered := by
  refine (lifecycleMachine n).run_invariant_of_step Numbered ?_ h hrun
  intro s ev s' hs hstep
  have hblobs := BlobStep.of_step hstep
  refine ⟨fun b hb => ?_, hblobs.used_le hs.used_le⟩
  rcases hblobs.blob_lt b hb with hb | hlt
  · exact (hs.blob_lt b hb).trans_le hblobs.next_le
  · exact hlt

theorem numbered_created (index : MemIndex n) (dataFileSize : ℕ) (createTime : UInt64) :
    (created index dataFileSize createTime).Numbered where
  blob_lt := fun b hb => (List.mem_singleton.mp hb).trans_lt Nat.one_lt_two
  used_le := by
    show ((1 : UInt32) - 0).toNat ≤ kAllocLogCapacity
    decide

/-- Blobs stay where no event deletes any, and the next number only grows. -/
theorem blobs_subset_of_run {evs : List (LifecycleEvent n)} (hkeep : ∀ ev ∈ evs, ¬ Deletes ev)
    (hrun : (lifecycleMachine n).run s evs = some s') :
    s.blobs ⊆ s'.blobs ∧ s.space.nextBlobId ≤ s'.space.nextBlobId := by
  induction evs generalizing s with
  | nil =>
      obtain rfl := Option.some.inj hrun
      exact ⟨List.Subset.refl _, le_rfl⟩
  | cons ev evs ih =>
      obtain ⟨t, hstep, hrun⟩ := ((lifecycleMachine n).run_cons_eq_some_iff).mp hrun
      have hblobs := BlobStep.of_step hstep
      obtain ⟨hsub, hle⟩ := ih (fun e he => hkeep e (List.mem_cons_of_mem _ he)) hrun
      exact ⟨List.Subset.trans (hblobs.kept (hkeep ev List.mem_cons_self)) hsub,
        hblobs.next_le.trans hle⟩

/-- The blob that is created has the next number. -/
theorem nextBlobId_mem_of_step {i : ℕ} {createTime : UInt64}
    (h : (lifecycleMachine n).step s (.blobAllocated i true createTime) = some s') :
    s.space.nextBlobId ∈ s'.blobs := by
  obtain ⟨a, -, hs⟩ := Option.bind_eq_some_iff.mp (run?_of_step h)
  obtain ⟨-, hs⟩ := Option.ite_none_right_eq_some.mp hs
  obtain rfl := Option.some.inj hs
  rw [onBlobAllocated]
  dsimp only
  split
  · exact List.mem_append_right _ (List.mem_singleton.mpr rfl)
  · exact List.mem_append_right _ (List.mem_singleton.mpr rfl)

/-- **A created blob stays**, in every run in which no event deletes blobs. -/
theorem not_unchanged_of_run {before after : List (LifecycleEvent n)} {i : ℕ}
    {createTime : UInt64} (h : s.Numbered) (hkeep : ∀ ev ∈ before ++ after, ¬ Deletes ev)
    (hrun : (lifecycleMachine n).run s
      (before ++ .blobAllocated i true createTime :: after) = some s') : ¬ s.Unchanged s' := by
  rw [Machine.run_append, Option.bind_eq_some_iff] at hrun
  obtain ⟨t, hbefore, hrun⟩ := hrun
  obtain ⟨u, hstep, hafter⟩ := ((lifecycleMachine n).run_cons_eq_some_iff).mp hrun
  obtain ⟨-, hle⟩ := blobs_subset_of_run
    (fun e he => hkeep e (List.mem_append_left _ he)) hbefore
  obtain ⟨hsub, -⟩ := blobs_subset_of_run
    (fun e he => hkeep e (List.mem_append_right _ he)) hafter
  intro hsame
  have hold := (hsame.blobs _).mp (hsub (nextBlobId_mem_of_step hstep))
  exact absurd (h.blob_lt _ hold) (not_lt.mpr hle)

/-- **What failed allocations leave behind**, in every state an engine can reach: failed
attempts one after the other leave a blob each, and an entry of the log each as long as the log
has room, while the files are what they were; and with other events in between, of which none
deletes blobs, the blob of an allocation is there when it has failed. -/
theorem failed_allocations_leak {index : MemIndex n} {dataFileSize : ℕ} {createTime : UInt64}
    {evs : List (LifecycleEvent n)}
    (h : (lifecycleMachine n).run (created index dataFileSize createTime) evs = some s) :
    (∀ attempts, attempts ≠ [] → s.AllFail attempts →
      ¬ s.Unchanged (s.afterAttempts attempts) ∧
        (s.afterAttempts attempts).blobs =
          s.blobs ++ List.range' s.space.nextBlobId attempts.length ∧
        (s.afterAttempts attempts).space.files = s.space.files ∧
        UInt16.ofNat (s.afterAttempts attempts).space.nextFileId =
          UInt16.ofNat s.space.nextFileId ∧
        (s.afterAttempts attempts).log.mgr.usedCount =
          min kAllocLogCapacity (s.log.mgr.usedCount + attempts.length)) ∧
      ∀ before after i createTime s', (∀ ev ∈ before ++ after, ¬ Deletes ev) →
        (lifecycleMachine n).run s
          (before ++ .blobAllocated i true createTime :: after) = some s' →
        ¬ s.Unchanged s' := by
  have hnum := (numbered_created index dataFileSize createTime).run h
  refine ⟨fun attempts hne hfail => ?_, fun before after i createTime s' hkeep hrun =>
    not_unchanged_of_run hnum hkeep hrun⟩
  have hleft := afterAttempts_failed hfail hnum.used_le
  refine ⟨fun hsame => ?_, hleft⟩
  have hnew : s.space.nextBlobId ∈ (s.afterAttempts attempts).blobs := by
    rw [hleft.1]
    refine List.mem_append_right _ (List.mem_range'_1.mpr ⟨le_rfl, ?_⟩)
    exact Nat.lt_add_of_pos_right (List.length_pos_iff.mpr hne)
  exact absurd (hnum.blob_lt _ ((hsame.blobs _).mp hnew)) (Nat.lt_irrefl _)

/-- The page write of the second file's entry fails. -/
def failedWrite : AllocationAnswers := ⟨0, false, false, false, false⟩

/-- Two attempts whose page writes fail leave blobs 2 and 3 behind, and two entries. -/
theorem failed_allocations_leak_twice :
    let s := (created (MemIndex.fresh 8) 4096 0).afterAttempts
      [(.foreground, failedWrite), (.async, failedWrite)]
    s.blobs = [1, 2, 3] ∧ s.log.mgr.usedCount = 3 := by
  have hcreated : (lifecycleMachine 8).run (created (MemIndex.fresh 8) 4096 0) [] =
    some (created (MemIndex.fresh 8) 4096 0) := rfl
  have h := (failed_allocations_leak hcreated).1
    [(.foreground, failedWrite), (.async, failedWrite)] (by decide) ⟨rfl, rfl, trivial⟩
  exact ⟨h.2.1, h.2.2.2.2⟩

/-- **A page write that fails leaves a blob behind**: after `create`, blob 2 is there when the
allocation of the second file has failed. -/
theorem failed_allocation_leaks_blob :
    ((created (MemIndex.fresh 8) 4096 0).allocateNewFile .foreground failedWrite).2 = false ∧
      2 ∈ ((created (MemIndex.fresh 8) 4096 0).allocateNewFile .foreground failedWrite).1.blobs ∧
      2 ∉ (created (MemIndex.fresh 8) 4096 0).blobs ∧
      ¬ (created (MemIndex.fresh 8) 4096 0).Unchanged
        ((created (MemIndex.fresh 8) 4096 0).allocateNewFile .foreground failedWrite).1 := by
  have hnew : 2 ∈ ((created (MemIndex.fresh 8) 4096 0).allocateNewFile
      .foreground failedWrite).1.blobs := by
    rw [(allocateNewFile_failed rfl).blobs]
    decide
  have hold : 2 ∉ (created (MemIndex.fresh 8) 4096 0).blobs := by decide
  exact ⟨rfl, hnew, hold, fun h => hold ((h.blobs 2).mp hnew)⟩

end FileLifecycle

end SpdkKv
