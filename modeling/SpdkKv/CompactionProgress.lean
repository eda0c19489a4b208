import SpdkKv.CompactionTask
import SpdkKv.Lib.FairRuns

/-!
# A Compaction Comes to an End

A task may read the same chunk twice, since it flushes a full write buffer without advancing,
and a successful write makes it forget its failures. What decreases is, in this order: the part
of the source that is left, the flush that is due, the attempts that are left, and the rank of
the state.

## Main results

* `CompactionTask.processEntries_cases`: a chunk is finished unless the write buffer held
  something before.
* `CompactionTask.step_advances`, `CompactionTask.complete_advances`: **every step and every
  completion decreases what remains**.
* `CompactionWorld.terminates`: so a task is done or has failed after finitely many steps.
-/

namespace SpdkKv

namespace CompactionTask

variable {n : ℕ} {m : MemIndex n} {t t' : CompactionTask} {files : CompactionFiles}

/-! ### What a chunk leaves -/

/-- What processing records keeps. -/
structure Kept (t t' : CompactionTask) : Prop where
  currentOffset : t'.currentOffset = t.currentOffset
  retryCount : t'.retryCount = t.retryCount
  ioPending : t'.ioPending = t.ioPending
  bytesRead : t'.bytesRead = t.bytesRead
  used : t.writeBufferUsed ≤ t'.writeBufferUsed

theorem Kept.refl (t : CompactionTask) : Kept t t := ⟨rfl, rfl, rfl, rfl, le_rfl⟩

theorem Kept.trans {t'' : CompactionTask} (h : Kept t t') (h' : Kept t' t'') :
    Kept t t'' :=
  ⟨h'.currentOffset.trans h.currentOffset, h'.retryCount.trans h.retryCount,
    h'.ioPending.trans h.ioPending, h'.bytesRead.trans h.bytesRead, h.used.trans h'.used⟩

/-- A record goes to the write buffer or is left behind. -/
theorem processRecord_ok {r : ParsedRecord} (h : t.processRecord m r = .ok t') :
    Kept t t' ∧ t'.writeBufferUsed ≤ t.writeBufferUsed + r.size := by
  dsimp only [processRecord] at h
  split_ifs at h
  · obtain rfl := Except.ok.inj h
    have hlen : (slice t.readBuffer r.offset r.size).length ≤ r.size :=
      List.length_take_le _ _
    refine ⟨⟨rfl, rfl, rfl, rfl, ?_⟩, ?_⟩
    · simp [writeBufferUsed]
    · simpa [writeBufferUsed] using hlen
  · obtain rfl := Except.ok.inj h
    exact ⟨⟨rfl, rfl, rfl, rfl, le_rfl⟩, Nat.le_add_right _ _⟩

/-- A record for which there is no room sends the task to write. -/
theorem processRecord_error {r : ParsedRecord} (h : t.processRecord m r = .error t') :
    Kept t t' ∧ t'.state = .kWriteChunk ∧
      kChunkSize < t.writeBufferUsed + r.size := by
  dsimp only [processRecord] at h
  split_ifs at h with hmigrate hfull
  obtain rfl := Except.error.inj h
  exact ⟨⟨rfl, rfl, rfl, rfl, le_rfl⟩, rfl, hfull⟩

/-- Records for which there is room are all processed. -/
theorem foldlM_ok {rs : List ParsedRecord}
    (hroom : t.writeBufferUsed + (rs.map ParsedRecord.size).sum ≤ kChunkSize) :
    ∃ t', rs.foldlM (processRecord m) t = .ok t' := by
  induction rs generalizing t with
  | nil => exact ⟨t, rfl⟩
  | cons r rs ih =>
      rw [List.map_cons, List.sum_cons] at hroom
      rw [List.foldlM_cons]
      cases hr : t.processRecord m r with
      | error t' =>
          have hfull := (processRecord_error hr).2.2
          omega
      | ok t' =>
          have hused := (processRecord_ok hr).2
          rw [ok_bind]
          exact ih (by omega)

/-- What any number of records leaves. -/
theorem foldlM_kept {rs : List ParsedRecord} :
    (∀ t', rs.foldlM (processRecord m) t = .ok t' → Kept t t') ∧
      ∀ t', rs.foldlM (processRecord m) t = .error t' →
        Kept t t' ∧ t'.state = .kWriteChunk := by
  induction rs generalizing t with
  | nil =>
      refine ⟨fun t' h => ?_, fun t' h => nomatch h⟩
      obtain rfl := Except.ok.inj h
      exact .refl _
  | cons r rs ih =>
      simp only [List.foldlM_cons]
      cases hr : t.processRecord m r with
      | error u =>
          refine ⟨fun t' h => (nomatch h), fun t' h => ?_⟩
          obtain rfl := Except.error.inj h
          obtain ⟨hkept, hstate, -⟩ := processRecord_error hr
          exact ⟨hkept, hstate⟩
      | ok u =>
          simp only [ok_bind]
          have hkept := (processRecord_ok hr).1
          exact ⟨fun t' h => hkept.trans (ih.1 t' h),
            fun t' h => ⟨hkept.trans (ih.2 t' h).1, (ih.2 t' h).2⟩⟩

/-- The records of a chunk are no longer than the chunk. -/
theorem sum_size_chunkRecords (buf : List UInt8) (offset : ℕ) :
    ((chunkRecords buf offset).map ParsedRecord.size).sum ≤ buf.length - offset := by
  induction offset using chunkRecords.induct buf with
  | case1 offset hend =>
      rw [chunkRecords, dif_pos hend]
      exact Nat.zero_le _
  | case2 offset hend hvalid _ ih =>
      have hsize := size_le_of_validateEntry hvalid
      rw [chunkRecords, dif_neg hend, if_pos hvalid, List.map_cons, List.sum_cons]
      omega
  | case3 offset hend hvalid hnext ih =>
      rw [chunkRecords, dif_neg hend, if_neg hvalid]
      omega

/-- **A chunk is finished unless the write buffer held something before**: then the task goes
on behind it, otherwise it writes first. -/
theorem processEntries_cases (m : MemIndex n) (hsize : t.bytesRead ≤ kChunkSize) :
    ∃ t', Kept t t' ∧
      (t.processEntries m =
          { t' with
            currentOffset := t.currentOffset + t.bytesRead, state := .kReadChunk } ∨
        0 < t.writeBufferUsed ∧ t'.state = .kWriteChunk ∧ t.processEntries m = t') := by
  have hkept := @foldlM_kept n m t (chunkRecords t.readBuffer 0)
  rw [processEntries, chunkLoop_run]
  cases hfold : (chunkRecords t.readBuffer 0).foldlM (processRecord m) t with
  | ok t' =>
      have ht' := hkept.1 t' hfold
      refine ⟨t', ht', .inl ?_⟩
      dsimp only
      rw [ht'.currentOffset, ht'.bytesRead]
  | error t' =>
      obtain ⟨ht', hstate⟩ := hkept.2 t' hfold
      refine ⟨t', ht', .inr ⟨?_, hstate, rfl⟩⟩
      -- an empty write buffer has room for the whole chunk
      by_contra hempty
      have hsum := sum_size_chunkRecords t.readBuffer 0
      rw [bytesRead] at hsize
      obtain ⟨u, hu⟩ := @foldlM_ok n m t (chunkRecords t.readBuffer 0) (by omega)
      rw [hfold] at hu
      cases hu

/-! ### What holds of a task -/

/-- The state in which a task issues an operation. -/
def issuedIn : CompactionIo → CompactionState
  | .markCompacting => .kMarkCompacting
  | .readChunk _ => .kReadChunk
  | .writeChunk => .kWriteChunk
  | .markDeleted => .kMarkDeleted
  | .removeFile => .kRollback
  | .markSealed => .kRollbackMarkSealed

/-- The states that no handler leads to. -/
def Unused (state : CompactionState) : Prop :=
  state = .kWaitMarkComplete ∨ state = .kWaitReadComplete ∨ state = .kWaitWriteComplete ∨
    state = .kWaitDeleteComplete ∨ state = .kWaitRollbackComplete

/-- The states that a task retries. -/
def Retried (state : CompactionState) : Prop :=
  state = .kMarkCompacting ∨ state = .kReadChunk ∨ state = .kWriteChunk ∨ state = .kMarkDeleted

/-- What holds of a task: an operation under way fits its state, a chunk is read in front of the
end of the source and fits the buffer, and only something is written. -/
structure Inv (srcEnd : ℕ) (t : CompactionTask) : Prop where
  used : ¬ Unused t.state
  retried : t.state = .kRetryWait → Retried t.retryTargetState
  pending : ∀ io, t.ioPending = some io → t.state = issuedIn io
  reading : ∀ size, t.ioPending = some (.readChunk size) →
    t.currentOffset < srcEnd ∧ 0 < size ∧ size ≤ kChunkSize
  writing : t.ioPending = some .writeChunk → 0 < t.writeBufferUsed
  chunk : t.state = .kProcessEntries →
    t.currentOffset < srcEnd ∧ 0 < t.bytesRead ∧ t.bytesRead ≤ kChunkSize

/-- The source may grow. -/
theorem Inv.mono {srcEnd srcEnd' : ℕ} (h : Inv srcEnd t) (hle : srcEnd ≤ srcEnd') :
    Inv srcEnd' t :=
  { h with
    reading := fun size hio => ⟨(h.reading size hio).1.trans_le hle, (h.reading size hio).2⟩
    chunk := fun hstate => ⟨(h.chunk hstate).1.trans_le hle, (h.chunk hstate).2⟩ }

/-- A task that waits for nothing, and is not about to process a chunk or to retry. -/
theorem Inv.idle {srcEnd : ℕ} (hio : t.ioPending = none) (hused : ¬ Unused t.state)
    (hretry : t.state ≠ .kRetryWait) (hchunk : t.state ≠ .kProcessEntries) : Inv srcEnd t where
  used := hused
  retried := fun h => absurd h hretry
  pending := fun _ h => nomatch hio.symm.trans h
  reading := fun _ h => nomatch hio.symm.trans h
  writing := fun h => nomatch hio.symm.trans h
  chunk := fun h => absurd h hchunk

/-- A chunk that is read is not empty and fits the buffer. -/
theorem readSize_bounds {srcEnd currentOffset : ℕ} (h : currentOffset < srcEnd) :
    0 < alignUp (min kChunkSize (srcEnd - currentOffset)) kPageSize ∧
      alignUp (min kChunkSize (srcEnd - currentOffset)) kPageSize ≤ kChunkSize := by
  simp only [alignUp, kChunkSize, kPageSize]
  omega

/-! ### What remains -/

/-- A flush is due. -/
def flushDue (t : CompactionTask) : ℕ :=
  if t.state = .kUpdateIndices ∨ t.writeBufferUsed = 0 then 0 else 1

/-- Nothing is under way. -/
def idle (t : CompactionTask) : ℕ := if t.ioPending.isSome then 0 else 1

/-- The rank of a state, as long as the task has not failed. Whether reading comes before writing
depends on whether there is something to write. -/
def rank (t : CompactionTask) : ℕ :=
  match t.state with
  | .kRetryWait => 16
  | .kInit => 15
  | .kMarkCompacting => 14
  | .kUpdateIndices => 13
  | .kWriteChunk => if t.writeBufferUsed = 0 then 12 else 5
  | .kFinalize => if t.writeBufferUsed = 0 then 7 else 11
  | .kReadChunk => 10
  | .kProcessEntries => 9
  | _ => 3

/-- **What remains of a task**: the source, the flush, the attempts and the rank in turn, and
little when it has failed. -/
def remaining (srcEnd : ℕ) (t : CompactionTask) : ℕ :=
  match t.state with
  | .kFailed => 0
  | .kDone => 0
  | .kRollbackMarkSealed => 2 + t.idle
  | .kRollback => 4 + t.idle
  | _ => 6 + ((2 * (srcEnd - t.currentOffset) + t.flushDue) * 4 + (3 - t.retryCount)) * 40 +
      2 * t.rank + t.idle

/-- A task has got on. -/
structure Advances (srcEnd : ℕ) (t t' : CompactionTask) : Prop where
  inv : Inv srcEnd t'
  less : t'.remaining srcEnd < t.remaining srcEnd

section Handlers

variable {srcEnd : ℕ} (hio : t.ioPending = none)

include hio

theorem init_advances (hstate : t.state = .kInit) : Advances srcEnd t (t.init files) := by
  rw [init]
  split_ifs
  · exact ⟨.idle hio (by simp [Unused]) (by simp) (by simp), by simp [remaining, hstate]⟩
  · exact ⟨.idle hio (by simp [Unused]) (by simp) (by simp), by simp [remaining, hstate]⟩
  · split
    · exact ⟨.idle hio (by simp [Unused]) (by simp) (by simp), by simp [remaining, hstate]⟩
    · refine ⟨.idle hio (by simp [Unused]) (by simp) (by simp), ?_⟩
      simp [remaining, hstate, rank, flushDue, idle, writeBufferUsed]

theorem readNextChunk_advances {srcMeta : PageTracking} (hstate : t.state = .kReadChunk) :
    Advances files.writeOffset t (t.readNextChunk files srcMeta) := by
  have hskip := srcMeta.le_skipInvalidPages t.currentOffset files.writeOffset
  rw [readNextChunk]
  split_ifs with hend hused
  · refine ⟨.idle hio (by simp [Unused]) (by simp) (by simp), ?_⟩
    have hne : t.writeBuffer.length ≠ 0 := hused.ne'
    simp [remaining, hstate, rank, flushDue, idle, writeBufferUsed, hne, hio]
    omega
  · refine ⟨.idle hio (by simp [Unused]) (by simp) (by simp), ?_⟩
    have hzero : t.writeBuffer.length = 0 := Nat.eq_zero_of_not_pos hused
    simp [remaining, hstate, rank, flushDue, idle, writeBufferUsed, hzero, hio]
    omega
  · have hlt := not_le.mp hend
    refine ⟨⟨by simp [hstate, Unused], by simp [hstate], ?_, ?_, by simp, by simp [hstate]⟩, ?_⟩
    · rintro io h
      obtain rfl := Option.some.inj h
      exact hstate
    · rintro size h
      obtain rfl := CompactionIo.readChunk.inj (Option.some.inj h)
      exact ⟨hlt, readSize_bounds hlt⟩
    · simp [remaining, hstate, rank, flushDue, idle, writeBufferUsed, hio]
      omega

theorem processEntries_advances (hinv : Inv srcEnd t) (hstate : t.state = .kProcessEntries) :
    Advances srcEnd t (t.processEntries m) := by
  obtain ⟨hlt, hpos, hsize⟩ := hinv.chunk hstate
  obtain ⟨t', hkept, heq | ⟨hused, hwrite, heq⟩⟩ := processEntries_cases m hsize
  · rw [heq]
    have hio' : t'.ioPending = none := hkept.ioPending.trans hio
    refine ⟨.idle hio' (by simp [Unused]) (by simp) (by simp), ?_⟩
    simp [remaining, hstate, rank, flushDue, idle, hio, hio', hkept.retryCount]
    split_ifs <;> omega
  · rw [heq]
    have hio' : t'.ioPending = none := hkept.ioPending.trans hio
    have hne : t.writeBufferUsed ≠ 0 := hused.ne'
    have hne' : t'.writeBufferUsed ≠ 0 := (hused.trans_le hkept.used).ne'
    refine ⟨.idle hio' (by simp [Unused, hwrite]) (by simp [hwrite]) (by simp [hwrite]), ?_⟩
    simp [remaining, hstate, hwrite, rank, flushDue, idle, hio, hio', hne, hne', hkept.retryCount,
      hkept.currentOffset]

theorem writeChunk_advances (hstate : t.state = .kWriteChunk) :
    Advances srcEnd t t.writeChunk := by
  rw [writeChunk]
  split_ifs with hzero
  · refine ⟨.idle hio (by simp [Unused]) (by simp) (by simp), ?_⟩
    simp only [writeBufferUsed] at hzero
    simp [remaining, hstate, rank, flushDue, idle, writeBufferUsed, hzero, hio]
  · refine ⟨⟨by simp [hstate, Unused], by simp [hstate], ?_, by simp, ?_, by simp [hstate]⟩, ?_⟩
    · rintro io h
      obtain rfl := Option.some.inj h
      exact hstate
    · exact fun _ => Nat.pos_of_ne_zero hzero
    · simp [remaining, hstate, rank, flushDue, idle, writeBufferUsed, hio]

theorem updateIndices_advances (hstate : t.state = .kUpdateIndices) :
    Advances srcEnd t (t.updateIndices m).1 := by
  refine ⟨.idle hio (by simp [Unused, updateIndices]) (by simp [updateIndices])
    (by simp [updateIndices]), ?_⟩
  simp [updateIndices, remaining, hstate, rank, flushDue, idle, writeBufferUsed, hio]

theorem finalize_advances (hstate : t.state = .kFinalize) : Advances srcEnd t t.finalize := by
  rw [finalize]
  split_ifs with hused
  · have hne : t.writeBuffer.length ≠ 0 := hused.ne'
    refine ⟨.idle hio (by simp [Unused]) (by simp) (by simp), ?_⟩
    simp [remaining, hstate, rank, flushDue, idle, writeBufferUsed, hne, hio]
  · have hzero : t.writeBuffer.length = 0 := Nat.eq_zero_of_not_pos hused
    refine ⟨.idle hio (by simp [Unused]) (by simp) (by simp), ?_⟩
    simp [remaining, hstate, rank, flushDue, idle, writeBufferUsed, hzero, hio]

theorem checkRetryTimeout_advances (hinv : Inv srcEnd t) (hstate : t.state = .kRetryWait)
    {nowNs : UInt64} (helapsed : nowNs - t.retryStartTimeNs ≥ kRetryDelayUs * 1000) :
    Advances srcEnd t (t.checkRetryTimeout nowNs) := by
  rw [checkRetryTimeout, if_pos helapsed]
  rcases hinv.retried hstate with h | h | h | h <;>
    refine ⟨.idle hio (by simp [Unused, h]) (by simp [h]) (by simp [h]), ?_⟩ <;>
    simp [remaining, hstate, rank, flushDue, idle, writeBufferUsed, hio, h]
  split_ifs <;> omega

theorem startRollback_advances (hstate : t.state = .kRollback) :
    Advances srcEnd t (t.startRollback m).1 := by
  rw [startRollback]
  split_ifs
  · refine ⟨⟨by simp [hstate, Unused], by simp [hstate], ?_, by simp, by simp, by simp [hstate]⟩,
      ?_⟩
    · rintro io h
      obtain rfl := Option.some.inj h
      exact hstate
    · simp [remaining, hstate, idle, hio]
  · refine ⟨.idle hio (by simp [Unused]) (by simp) (by simp), ?_⟩
    simp [remaining, hstate, idle, hio]

/-- A handler that issues an operation and stays in its state. -/
theorem issue_advances {io : CompactionIo} {srcState : Option FileState}
    (hstate : t.state = issuedIn io) (hsimple : io ≠ .writeChunk)
    (hread : ∀ size, io ≠ .readChunk size) :
    Advances srcEnd t { t with srcState := srcState, ioPending := some io } := by
  have hne : t.state ≠ .kProcessEntries ∧ t.state ≠ .kRetryWait ∧ ¬ Unused t.state := by
    rw [hstate]
    cases io <;> simp [issuedIn, Unused]
  refine ⟨⟨hne.2.2, fun h => absurd h hne.2.1, ?_, ?_, ?_, fun h => absurd h hne.1⟩, ?_⟩
  · rintro io' h
    obtain rfl := Option.some.inj h
    exact hstate
  · exact fun size h => absurd (Option.some.inj h) (hread size)
  · exact fun h => absurd (Option.some.inj h) hsimple
  · cases io <;>
      simp [remaining, hstate, issuedIn, rank, flushDue, idle, writeBufferUsed, hio]

end Handlers

/-! ### Every step and every completion -/

/-- A failed operation is retried, at most twice, or leads to the rollback. -/
theorem handleIoError_advances {srcEnd : ℕ} {state : CompactionState} (hstate : t.state = state)
    (hretried : Retried state) (status : ℤ) (nowNs : UInt64) :
    Advances srcEnd t
        (({ t with ioPending := none } : CompactionTask).handleIoError state status nowNs) ∧
      (({ t with ioPending := none } : CompactionTask).handleIoError state status
        nowNs).ioPending = none := by
  subst hstate
  rw [handleIoError]
  dsimp only
  split_ifs with hretry
  · have hcount : t.retryCount + 1 < kMaxRetryCount := by
      simpa using (Bool.and_eq_true_iff.mp hretry).2
    rw [kMaxRetryCount] at hcount
    refine ⟨⟨⟨by simp [Unused], fun _ => hretried, by simp, by simp, by simp, by simp⟩, ?_⟩, rfl⟩
    rcases hretried with h | h | h | h <;>
      simp only [remaining, rank, flushDue, idle, writeBufferUsed, h, reduceCtorEq, false_or,
        Option.isSome_none, Bool.false_eq_true, if_false] <;>
      split_ifs <;> omega
  · refine ⟨⟨.idle rfl (by simp [Unused]) (by simp) (by simp), ?_⟩, rfl⟩
    rcases hretried with h | h | h | h <;>
      simp [remaining, rank, flushDue, idle, writeBufferUsed, h] <;> omega

/-- **Every completion decreases what remains.** -/
theorem complete_advances (hinv : Inv files.writeOffset t) {status : ℤ} {nowNs : UInt64}
    (h : t.complete files status nowNs = some t') :
    Advances files.writeOffset t t' ∧ t'.ioPending = none := by
  obtain ⟨io, hio, rfl⟩ := Option.map_eq_some_iff.mp h
  have hstate := hinv.pending io hio
  cases io with
  | markCompacting =>
      dsimp only
      split_ifs
      · refine ⟨⟨.idle rfl (by simp [Unused]) (by simp) (by simp), ?_⟩, rfl⟩
        simp [remaining, hstate, issuedIn, rank, flushDue, idle, writeBufferUsed, hio]
      · exact handleIoError_advances hstate (.inl rfl) status nowNs
  | readChunk readSize =>
      dsimp only
      split_ifs
      · obtain ⟨hlt, hpos, hsize⟩ := hinv.reading readSize hio
        have hread : ∀ t' : CompactionTask, t'.readBuffer = files.image.read t.currentOffset readSize →
            t'.bytesRead = readSize := by
          intro t' ht'
          rw [bytesRead, ht', ByteMemory.length_read]
        refine ⟨⟨⟨by simp [Unused], by simp, by simp, by simp, by simp, fun _ => ?_⟩, ?_⟩, rfl⟩
        · rw [hread _ rfl]
          exact ⟨hlt, hpos, hsize⟩
        · simp [remaining, hstate, issuedIn, rank, flushDue, idle, writeBufferUsed, hio]
      · exact handleIoError_advances hstate (.inr (.inl rfl)) status nowNs
  | writeChunk =>
      dsimp only
      split_ifs
      · have hne : t.writeBuffer.length ≠ 0 := (hinv.writing hio).ne'
        refine ⟨⟨.idle rfl (by simp [Unused]) (by simp) (by simp), ?_⟩, rfl⟩
        simp [remaining, hstate, issuedIn, rank, flushDue, idle, writeBufferUsed, hio, hne]
        omega
      · exact handleIoError_advances hstate (.inr (.inr (.inl rfl))) status nowNs
  | markDeleted =>
      dsimp only
      split_ifs
      · refine ⟨⟨.idle rfl (by simp [Unused]) (by simp) (by simp), ?_⟩, rfl⟩
        simp [remaining, hstate, issuedIn]
      · exact handleIoError_advances hstate (.inr (.inr (.inr rfl))) status nowNs
  | removeFile =>
      refine ⟨⟨.idle rfl (by simp [Unused]) (by simp) (by simp), ?_⟩, rfl⟩
      simp [remaining, hstate, issuedIn, idle, hio]
  | markSealed =>
      refine ⟨⟨.idle rfl (by simp [Unused]) (by simp) (by simp), ?_⟩, rfl⟩
      simp [remaining, hstate, issuedIn, idle, hio]

/-- A call of `step` does something: nothing is under way, the task is not complete, and it is
not waiting for a retry that is not due. -/
structure CanStep (t : CompactionTask) (nowNs : UInt64) : Prop where
  free : t.ioPending = none
  open_ : t.isComplete = false
  due : t.state = .kRetryWait → nowNs - t.retryStartTimeNs ≥ kRetryDelayUs * 1000

/-- **Every step that does something decreases what remains.** -/
theorem step_advances (hinv : Inv files.writeOffset t) {srcMeta : PageTracking}
    {nowNs : UInt64} (h : t.CanStep nowNs) :
    Advances files.writeOffset t (t.step files srcMeta m nowNs).1 := by
  obtain ⟨hio, hopen, hdue⟩ := h
  rw [step, hio, Option.isSome_none, if_neg Bool.false_ne_true]
  cases hstate : t.state with
  | kInit => exact init_advances hio hstate
  | kMarkCompacting => exact issue_advances hio hstate (by simp) (by simp)
  | kReadChunk => exact readNextChunk_advances hio hstate
  | kProcessEntries => exact processEntries_advances hio hinv hstate
  | kWriteChunk => exact writeChunk_advances hio hstate
  | kUpdateIndices => exact updateIndices_advances hio hstate
  | kFinalize => exact finalize_advances hio hstate
  | kMarkDeleted => exact issue_advances hio hstate (by simp) (by simp)
  | kRetryWait => exact checkRetryTimeout_advances hio hinv hstate (hdue hstate)
  | kRollback => exact startRollback_advances hio hstate
  | kRollbackMarkSealed => exact issue_advances hio hstate (by simp) (by simp)
  | kWaitMarkComplete => exact absurd (by simp [Unused, hstate]) hinv.used
  | kWaitReadComplete => exact absurd (by simp [Unused, hstate]) hinv.used
  | kWaitWriteComplete => exact absurd (by simp [Unused, hstate]) hinv.used
  | kWaitDeleteComplete => exact absurd (by simp [Unused, hstate]) hinv.used
  | kWaitRollbackComplete => exact absurd (by simp [Unused, hstate]) hinv.used
  | kFailed => simp [isComplete, hstate] at hopen
  | kDone => simp [isComplete, hstate] at hopen

/-- A call of `step` that does nothing. -/
theorem step_of_not_canStep {srcMeta : PageTracking} {nowNs : UInt64}
    (h : ¬ t.CanStep nowNs) : (t.step files srcMeta m nowNs).1 = t := by
  rw [step]
  split_ifs with hio
  · rfl
  · have hfree : t.ioPending = none := Option.not_isSome_iff_eq_none.mp hio
    by_cases hopen : t.isComplete = false
    · have hretry : t.state = .kRetryWait ∧
          ¬ nowNs - t.retryStartTimeNs ≥ kRetryDelayUs * 1000 := by
        by_contra hno
        exact h ⟨hfree, hopen, fun hstate => not_not.mp fun hdue => hno ⟨hstate, hdue⟩⟩
      rw [hretry.1]
      show t.checkRetryTimeout nowNs = t
      rw [checkRetryTimeout, if_neg hretry.2]
    · have hdone : t.state = .kDone ∨ t.state = .kFailed :=
        or_iff_not_imp_left.mpr (by simpa [isComplete] using hopen)
      rcases hdone with hstate | hstate <;> rw [hstate]

end CompactionTask

namespace CompactionWorld

open CompactionTask

variable {n : ℕ} {files : CompactionFiles} {s s' : CompactionWorld n}

/-- The event moves the task. -/
def MovesTask (t : CompactionTask) : CompactionTaskEvent n → Prop
  | .step nowNs => t.CanStep nowNs
  | .complete _ _ => t.ioPending ≠ none
  | .others _ _ => False

/-- An event that moves the task decreases what remains of it. -/
theorem advances {event : CompactionTaskEvent n} (hinv : Inv files.writeOffset s.task)
    (hstep : (compactionTaskMachine n files).step s event = some s')
    (hmoves : MovesTask s.task event) : Advances files.writeOffset s.task s'.task := by
  cases event with
  | step nowNs =>
      obtain rfl := Option.some.inj hstep
      exact step_advances hinv hmoves
  | complete status nowNs =>
      obtain ⟨task, htask, rfl⟩ := Option.map_eq_some_iff.mp hstep
      exact (complete_advances hinv htask).1
  | others memIndex srcMeta => exact hmoves.elim

/-- Any other event leaves the task alone. -/
theorem task_eq {event : CompactionTaskEvent n}
    (hstep : (compactionTaskMachine n files).step s event = some s')
    (hmoves : ¬ MovesTask s.task event) : s'.task = s.task := by
  cases event with
  | step nowNs =>
      obtain rfl := Option.some.inj hstep
      exact step_of_not_canStep hmoves
  | complete status nowNs =>
      obtain ⟨task, htask, rfl⟩ := Option.map_eq_some_iff.mp hstep
      obtain ⟨io, hio, -⟩ := Option.map_eq_some_iff.mp htask
      exact absurd (fun hnone => nomatch hio.symm.trans hnone) hmoves
  | others memIndex srcMeta =>
      obtain rfl := Option.some.inj hstep
      rfl

/-- The invariant of the task. -/
theorem inv_step {event : CompactionTaskEvent n}
    (hstep : (compactionTaskMachine n files).step s event = some s')
    (hinv : Inv files.writeOffset s.task) : Inv files.writeOffset s'.task := by
  by_cases hmoves : MovesTask s.task event
  · exact (advances hinv hstep hmoves).inv
  · rwa [task_eq hstep hmoves]

/-- A task and its engine at the start. -/
def initial (srcFileId : UInt16) (memIndex : MemIndex n) (srcMeta : PageTracking) :
    CompactionWorld n := ⟨.create srcFileId, memIndex, srcMeta⟩

/-- What a run promises a task: its operations complete, with any status, `step` is called
again and again, and a call comes after the delay of a retry. -/
structure Fair {start : CompactionWorld n}
    (run : (compactionTaskMachine n files).InfiniteRun start) : Prop where
  completes : ∀ k, (run.states k).task.ioPending ≠ none →
    ∃ j, k ≤ j ∧ ∃ status nowNs, run.labels j = .complete status nowNs
  calls : ∀ k, ∃ j, k ≤ j ∧ ∃ nowNs, run.labels j = .step nowNs
  elapses : ∀ k, (run.states k).task.state = .kRetryWait → ∃ j, k ≤ j ∧ ∃ nowNs,
    run.labels j = .step nowNs ∧
      nowNs - (run.states k).task.retryStartTimeNs ≥ kRetryDelayUs * 1000

/-- As long as a task is not complete, an event comes that moves it. -/
theorem Fair.exists_moves {start : CompactionWorld n}
    {run : (compactionTaskMachine n files).InfiniteRun start} (h : Fair run) (k : ℕ)
    (hopen : (run.states k).task.isComplete = false) :
    ∃ j, k ≤ j ∧ MovesTask (run.states k).task (run.labels j) := by
  by_cases hio : (run.states k).task.ioPending = none
  · by_cases hretry : (run.states k).task.state = .kRetryWait
    · obtain ⟨j, hkj, nowNs, hlabel, hdue⟩ := h.elapses k hretry
      refine ⟨j, hkj, ?_⟩
      rw [hlabel]
      exact ⟨hio, hopen, fun _ => hdue⟩
    · obtain ⟨j, hkj, nowNs, hlabel⟩ := h.calls k
      refine ⟨j, hkj, ?_⟩
      rw [hlabel]
      exact ⟨hio, hopen, fun hstate => absurd hstate hretry⟩
  · obtain ⟨j, hkj, status, nowNs, hlabel⟩ := h.completes k hio
    refine ⟨j, hkj, ?_⟩
    rw [hlabel]
    exact hio

/-- **A compaction comes to an end**: whatever the source contains, however the index and the
pages of the source change, and whichever operations fail. -/
theorem terminates {srcFileId : UInt16} {memIndex : MemIndex n} {srcMeta : PageTracking}
    (run : (compactionTaskMachine n files).InfiniteRun (initial srcFileId memIndex srcMeta))
    (hfair : Fair run) : ∃ k, (run.states k).task.isComplete = true := by
  have hstart : Inv files.writeOffset (initial srcFileId memIndex srcMeta).task :=
    .idle rfl (by simp [initial, create, Unused]) (by simp [initial, create])
      (by simp [initial, create])
  have hinv : ∀ k, Inv files.writeOffset (run.states k).task := fun k =>
    run.invariant (fun s => Inv files.writeOffset s.task) hstart inv_step k
  refine run.exists_of_fair CompactionWorld.task MovesTask
    (fun s => Inv files.writeOffset s.task) (fun t => t.isComplete = true)
    (remaining files.writeOffset) hinv task_eq (fun hinv hstep hmoves =>
      (advances hinv hstep hmoves).less) fun k hopen => ?_
  exact hfair.exists_moves k (Bool.eq_false_iff.mpr hopen)

/-! ### A fair run -/

/-- The operation under way completes with a status, or `step` is called when a retry is due. -/
def promptEvent (status : ℤ) (s : CompactionWorld n) : CompactionTaskEvent n :=
  if s.task.ioPending.isSome then .complete status 0
  else .step (s.task.retryStartTimeNs + kRetryDelayUs * 1000)

/-- Such an event is possible. -/
theorem exists_step_promptEvent (files : CompactionFiles) (status : ℤ) (s : CompactionWorld n) :
    ((compactionTaskMachine n files).step s (promptEvent status s)).isSome := by
  rw [promptEvent]
  split_ifs with hio
  · obtain ⟨io, hio⟩ := Option.isSome_iff_exists.mp hio
    simp [compactionTaskMachine, complete, hio]
  · rfl

/-- The states of the run in which such events follow each other; operation `k` of the run
completes with `status k`. -/
def promptStates (files : CompactionFiles) (status : ℕ → ℤ) (start : CompactionWorld n) :
    ℕ → CompactionWorld n
  | 0 => start
  | k + 1 =>
      ((compactionTaskMachine n files).step (promptStates files status start k)
        (promptEvent (status k) (promptStates files status start k))).get
          (exists_step_promptEvent files _ _)

/-- That run. -/
def promptRun (files : CompactionFiles) (status : ℕ → ℤ) (start : CompactionWorld n) :
    (compactionTaskMachine n files).InfiniteRun start where
  states := promptStates files status start
  labels := fun k => promptEvent (status k) (promptStates files status start k)
  first := rfl
  next := fun _ => (Option.some_get _).symm

/-- It is fair, whatever the operations return. -/
theorem promptRun_fair (files : CompactionFiles) (status : ℕ → ℤ) {start : CompactionWorld n}
    (hstart : Inv files.writeOffset start.task) : Fair (promptRun files status start) := by
  have hinv : ∀ k, Inv files.writeOffset (promptStates files status start k).task := fun k =>
    (promptRun files status start).invariant (fun s => Inv files.writeOffset s.task) hstart
      inv_step k
  have hlabel : ∀ k, (promptStates files status start k).task.ioPending = none →
      (promptRun files status start).labels k = .step
        ((promptStates files status start k).task.retryStartTimeNs + kRetryDelayUs * 1000) := by
    intro k hio
    show promptEvent _ _ = _
    rw [promptEvent, hio, Option.isSome_none, if_neg Bool.false_ne_true]
  have hcomplete : ∀ k, (promptStates files status start k).task.ioPending ≠ none →
      (promptRun files status start).labels k = .complete (status k) 0 := by
    intro k hio
    show promptEvent _ _ = _
    rw [promptEvent, if_pos (Option.isSome_iff_ne_none.mpr hio)]
  refine ⟨fun k hio => ⟨k, le_rfl, status k, 0, hcomplete k hio⟩, fun k => ?_,
    fun k hstate => ⟨k, le_rfl, _, hlabel k ?_, ?_⟩⟩
  · by_cases hio : (promptStates files status start k).task.ioPending = none
    · exact ⟨k, le_rfl, _, hlabel k hio⟩
    · -- the completion leaves nothing under way
      have hnext := (promptRun files status start).next k
      rw [hcomplete k hio] at hnext
      obtain ⟨task, htask, heq⟩ := Option.map_eq_some_iff.mp hnext
      have hnone : (promptStates files status start (k + 1)).task.ioPending = none := by
        have hfree := (complete_advances (hinv k) htask).2
        have hstate : (promptStates files status start (k + 1)).task = task := by
          show ((promptRun files status start).states (k + 1)).task = task
          rw [← heq]
        rw [hstate, hfree]
      exact ⟨k + 1, Nat.le_succ k, _, hlabel (k + 1) hnone⟩
  · cases hio : (promptStates files status start k).task.ioPending with
    | none => rfl
    | some io =>
        have hissued := ((hinv k).pending io hio).symm.trans hstate
        cases io <;> cases hissued
  · have hdelay : ∀ start delay : UInt64, start + delay - start ≥ delay := fun start delay => by
      rw [UInt64.add_comm, UInt64.add_sub_cancel]
      exact UInt64.le_refl delay
    exact hdelay _ _

/-- A source of one page behind its header, and a destination. -/
def onePageSource : CompactionFiles where
  dmaBuffers := true
  sourceKnown := true
  newFile := some 2
  image := ByteMemory.zero
  writeOffset := 2 * kPageSize

/-- The compaction of such a file ends, also when every other operation is told to be tried
again. -/
theorem terminates_onePageSource : ∃ k, ((promptRun onePageSource
    (fun k => if k % 2 = 0 then 0 else EAGAIN)
      (initial 1 (MemIndex.fresh 3) ⟨⟨1, .kSealed, 1, 1, 4096, 4096⟩, none⟩)).states k).task.isComplete = true :=
  terminates _ (promptRun_fair onePageSource _ (.idle rfl (by simp [initial, create, Unused])
    (by simp [initial, create]) (by simp [initial, create])))

end CompactionWorld

end SpdkKv
