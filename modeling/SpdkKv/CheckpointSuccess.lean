import SpdkKv.AllocLog
import SpdkKv.Checkpoint

/-!
# What a Successful Checkpoint Means

`Engine::on_superblock_update` around the checkpoint manager: the superblock update of a
checkpoint takes over the sequence and the positions, reclaims the allocation log and writes
the superblock, and polls while the write is pending, so that other operations go on in the
meantime. The callback of the checkpoint resumes an allocation that waits for room in the
allocation log.

## Main results

* `Going.processNextSegment`: **what going on with a checkpoint comes to** — more IO, the
  superblock update, or the callback.
* `success_means_updated_iff`: **when a checkpoint that reports success has updated the
  superblock and emptied the allocation log**, for every report of every run.
* `allocates_of_meets`: an allocation that such a checkpoint resumes goes on.
* `clean_checkpoint_reports_success`: a checkpoint without dirty segments reports success at
  once, with the allocation log as full as it was.
-/

namespace SpdkKv

/-- The fields of the superblock that belong to a checkpoint. -/
structure CheckpointFields where
  checkpointGlobalSeq : UInt32
  activeBufferPositions : List ActiveBufferPos
  checkpointFileId : ℕ
  checkpointPageIndex : ℕ
  allocLogHead : UInt32
  allocLogTail : UInt32
  allocLogSequence : UInt32
  deriving DecidableEq, Repr

/-- What `Engine::on_superblock_update` makes of the fields, with the log it has reclaimed. -/
def CheckpointFields.update (self : CheckpointFields) (sequence : UInt32)
    (positions : List ActiveBufferPos) (log : AllocLogManager) : CheckpointFields where
  checkpointGlobalSeq := sequence
  activeBufferPositions := positions
  checkpointFileId := (positions.head?.map ActiveBufferPos.fileId).getD self.checkpointFileId
  checkpointPageIndex :=
    (positions.head?.map ActiveBufferPos.pageIndex).getD self.checkpointPageIndex
  allocLogHead := log.head
  allocLogTail := log.tail
  allocLogSequence := log.sequence

/-- What becomes of an allocation that waited for a checkpoint. -/
inductive ResumedAllocation
  /-- A file is added and its blob allocated. -/
  | allocates
  /-- The writes that wait for the file fail. -/
  | failsWrites
  deriving DecidableEq, Repr

/-- `Engine::resume_allocation_after_checkpoint` in the callback of a checkpoint. A log that
is still near full makes `allocate_new_file_async` request another checkpoint; the manager is
not idle while the callback runs, so the request is rejected. -/
def resumeAllocationAfterCheckpoint (log : AllocLogManager) (ok : Bool) : ResumedAllocation :=
  if !ok then .failsWrites
  else if log.isNearFull then .failsWrites
  else .allocates

/-- What has happened to the running checkpoint so far. -/
structure CheckpointHistory where
  /-- The sequence and the positions it recorded at its start. -/
  snapshot : UInt32 × List ActiveBufferPos
  /-- The segments that were dirty at its start. -/
  dirty : List Segment
  /-- The positions of the last request that was rejected before its superblock update. -/
  rejected : Option (List ActiveBufferPos)
  /-- The entries written to the allocation log since its superblock update began. -/
  logEntries : ℕ
  /-- Its superblock update has run and reported success. -/
  superblockOk : Bool
  deriving DecidableEq

/-- A callback with status 0, and what it finds. -/
structure CheckpointReport where
  history : CheckpointHistory
  persisted : CheckpointFields
  allocLog : AllocLogManager

/-- The superblock update of the checkpoint has run and reported success, what it persisted
is what the checkpoint recorded, and the allocation log is empty. -/
def CheckpointReport.Meets (r : CheckpointReport) : Prop :=
  r.history.superblockOk = true ∧
    (r.persisted.checkpointGlobalSeq, r.persisted.activeBufferPositions) =
      r.history.snapshot ∧
    r.allocLog.usedCount = 0

instance (r : CheckpointReport) : Decidable r.Meets := inferInstanceAs (Decidable (_ ∧ _ ∧ _))

/-- An allocation that is resumed with the allocation log empty goes on. -/
theorem allocates_of_meets {r : CheckpointReport} (h : r.Meets) :
    resumeAllocationAfterCheckpoint r.allocLog true = .allocates := by
  have hfree : r.allocLog.isNearFull = false := by
    rw [AllocLogManager.isNearFull, h.2.2]
    rfl
  rw [resumeAllocationAfterCheckpoint, hfree]
  rfl

/-- The manager and what the engine keeps beside it. -/
structure CheckpointEngine where
  manager : IncrementalCheckpoint
  foreground : CheckpointForeground
  allocLog : AllocLogManager
  /-- `superblock_`. -/
  superblock : CheckpointFields
  /-- The copy that `write_superblock` writes. -/
  writeBuf : CheckpointFields
  /-- The superblock of the last write that succeeded. -/
  persisted : CheckpointFields
  history : CheckpointHistory
  reports : List CheckpointReport

/-- What can happen. -/
inductive CheckpointEngineEvent
  /-- `Engine::start_checkpoint`; `again` when the callback of a checkpoint that finishes at
  once calls it again. -/
  | start (ioOk again : Bool)
  /-- Writes, file switches, sealing and returning of buffers. -/
  | foreground (f : CheckpointForeground)
  /-- The index is modified. -/
  | markDirty (segment : Segment)
  /-- The allocation of a blob writes an entry to the allocation log. -/
  | writeEntry (a : Allocation)
  /-- The write of the current segment completes. -/
  | segmentWritten (ok ioOk again : Bool)
  /-- The sync of the blob completes. -/
  | synced (ok again : Bool)
  /-- `write_superblock` returns. -/
  | superblockWritten (ok again : Bool)

namespace CheckpointEngine

/-- The surroundings of a call of the manager. -/
def io (s : CheckpointEngine) (hasBlob hasUpdate ioOk again : Bool) : CheckpointIo where
  hasBlob := hasBlob
  hasSuperblockUpdate := hasUpdate
  ioOk := ioOk
  callback := if again then CheckpointSystem.setSnapshot s.foreground else id

/-- `Engine::on_superblock_update` up to the pending write. -/
def onSuperblockUpdate (s : CheckpointEngine) (sequence : UInt32)
    (positions : List ActiveBufferPos) : CheckpointEngine :=
  let log := s.allocLog.reclaim
  let superblock := s.superblock.update sequence positions log
  { s with
    allocLog := log
    superblock := superblock
    writeBuf := superblock
    history := { s.history with logEntries := 0 } }

/-- What an effect of the manager does to the engine. -/
def effect (s : CheckpointEngine) : CheckpointEffect → CheckpointEngine
  | .serialize _ => s
  | .updateSuperblock sequence positions => s.onSuperblockUpdate sequence positions
  | .report false => s
  | .report true =>
      { s with reports := s.reports ++ [⟨s.history, s.persisted, s.allocLog⟩] }

/-- The engine after a call of the manager. -/
def after (s : CheckpointEngine) (r : IncrementalCheckpoint × List CheckpointEffect) :
    CheckpointEngine :=
  { r.2.foldl effect s with manager := r.1 }

/-- The history that a request leaves: that of a new checkpoint, or the running one's. -/
def requested (s : CheckpointEngine) : CheckpointHistory :=
  let manager := (CheckpointSystem.setSnapshot s.foreground
    s.manager).snapshotActiveBufferPositions s.foreground.hasActiveBuffer
  if s.manager.state = .kIdle then
    { snapshot := (s.foreground.globalSequence, manager.positionList)
      dirty := (List.finRange kMemIndexSegmentCount).filter s.manager.dirtySegments
      rejected := none
      logEntries := 0
      superblockOk := false }
  else if s.manager.state = .kUpdatingSuperblock then s.history
  else { s.history with rejected := some s.foreground.positions }

/-- The step of an event; completions are enabled while their operation is pending. -/
def step (hasBlob hasUpdate : Bool) (s : CheckpointEngine) :
    CheckpointEngineEvent → Option CheckpointEngine
  | .start ioOk again =>
      some (after { s with history := s.requested }
        ((CheckpointSystem.setSnapshot s.foreground s.manager).startCheckpoint
          (s.io hasBlob hasUpdate ioOk again) s.foreground.hasActiveBuffer))
  | .foreground f => some { s with foreground := f }
  | .markDirty segment => some { s with manager := s.manager.markDirty segment }
  | .writeEntry a =>
      match s.allocLog.writeEntry a with
      | none => some s
      | some (_, log) =>
          some { s with
            allocLog := log
            history := { s.history with logEntries := s.history.logEntries + 1 } }
  | .segmentWritten ok ioOk again =>
      if s.manager.state = .kWritingSegments then
        some (s.after (s.manager.onSegmentWritten (s.io hasBlob hasUpdate ioOk again) ok))
      else none
  | .synced ok again =>
      if s.manager.state = .kSyncingData then
        some (s.after (s.manager.onSyncComplete (s.io hasBlob hasUpdate true again) ok))
      else none
  | .superblockWritten ok again =>
      if s.manager.state = .kUpdatingSuperblock then
        some (after
          { s with
            persisted := if ok then s.writeBuf else s.persisted
            history := { s.history with superblockOk := ok } }
          (s.manager.completeCheckpoint (s.io hasBlob hasUpdate true again) ok))
      else none

/-- An engine that has not started a checkpoint yet. -/
def start (f : CheckpointForeground) (log : AllocLogManager) (fields : CheckpointFields) :
    CheckpointEngine where
  manager := IncrementalCheckpoint.fresh
  foreground := f
  allocLog := log
  superblock := fields
  writeBuf := fields
  persisted := fields
  history := ⟨(0, []), [], none, 0, false⟩
  reports := []

end CheckpointEngine

/-- The engine as a machine, with or without a blob for the index and a superblock update. -/
def checkpointEngineMachine (hasBlob hasUpdate : Bool) :
    Machine CheckpointEngine CheckpointEngineEvent where
  step := CheckpointEngine.step hasBlob hasUpdate

/-! ### What the manager comes to -/

/-- What a call that goes on with a checkpoint comes to: more IO is pending, the superblock
update is, or the checkpoint is over. It succeeds in the last case only if there is no
superblock update to call. -/
inductive Going (io : CheckpointIo) (sequence : UInt32) (positions : List ActiveBufferPos) :
    IncrementalCheckpoint × List CheckpointEffect → Prop
  | waits {m : IncrementalCheckpoint} (segments : List Segment)
      (hstate : m.state = .kWritingSegments ∨ m.state = .kSyncingData)
      (hsequence : m.checkpointStartSequence = sequence) (hpositions : m.positionList = positions) :
      Going io sequence positions (m, segments.map .serialize)
  | updates {m : IncrementalCheckpoint} (segments : List Segment)
      (hstate : m.state = .kUpdatingSuperblock) (hset : io.hasSuperblockUpdate = true) :
      Going io sequence positions
        (m, segments.map .serialize ++ [.updateSuperblock sequence positions])
  | ends {m : IncrementalCheckpoint} (segments : List Segment) (ok : Bool)
      (hstate : m.state = .kIdle) (hset : ok = true → io.hasSuperblockUpdate = false) :
      Going io sequence positions (m, segments.map .serialize ++ [.report ok])

namespace Going

open IncrementalCheckpoint

variable {io : CheckpointIo} {sequence : UInt32} {positions : List ActiveBufferPos}
  {r : IncrementalCheckpoint × List CheckpointEffect}

/-- Serialising one more segment at first. -/
theorem cons (h : Going io sequence positions r) (segment : Segment) :
    Going io sequence positions (r.1, .serialize segment :: r.2) := by
  cases h with
  | waits segments hstate hsequence hpositions =>
      exact waits (segment :: segments) hstate hsequence hpositions
  | updates segments hstate hset => exact updates (segment :: segments) hstate hset
  | ends segments ok hstate hset => exact ends (segment :: segments) ok hstate hset

theorem completeCheckpoint (self : IncrementalCheckpoint) {ok : Bool}
    (hset : ok = true → io.hasSuperblockUpdate = false) :
    Going io sequence positions (self.completeCheckpoint io ok) :=
  ends [] ok rfl hset

theorem onSyncComplete {self : IncrementalCheckpoint}
    (hsequence : self.checkpointStartSequence = sequence)
    (hpositions : self.positionList = positions) (ok : Bool) :
    Going io sequence positions (self.onSyncComplete io ok) := by
  rw [IncrementalCheckpoint.onSyncComplete]
  split_ifs with _ hset
  · exact completeCheckpoint self Bool.noConfusion
  · rw [← hsequence, ← hpositions]
    exact updates [] rfl hset
  · exact completeCheckpoint _ fun _ => Bool.eq_false_iff.mpr hset

/-- **What going on with a checkpoint comes to.** -/
theorem processNextSegment {self : IncrementalCheckpoint} (hstate : self.state = .kWritingSegments)
    (hsequence : self.checkpointStartSequence = sequence)
    (hpositions : self.positionList = positions) :
    Going io sequence positions (self.processNextSegment io) := by
  induction self using IncrementalCheckpoint.processNextSegment.induct io with
  | case1 self hnone hblob =>
      rw [IncrementalCheckpoint.processNextSegment]
      split
      · rw [if_pos hblob]
        exact waits [] (Or.inr rfl) hsequence hpositions
      · next hsome => rw [hnone] at hsome; cases hsome
  | case2 self hnone hblob =>
      rw [IncrementalCheckpoint.processNextSegment]
      split
      · rw [if_neg hblob]
        exact onSyncComplete hsequence hpositions true
      · next hsome => rw [hnone] at hsome; cases hsome
  | case3 self segment hsome hio =>
      rw [IncrementalCheckpoint.processNextSegment]
      split
      · next hnone => rw [hnone] at hsome; cases hsome
      · rw [if_pos hio]
        exact completeCheckpoint self Bool.noConfusion
  | case4 self segment hsome hio hblob =>
      rw [IncrementalCheckpoint.processNextSegment]
      split
      · next hnone => rw [hnone] at hsome; cases hsome
      · next s _ =>
          rw [if_neg hio, if_pos hblob]
          exact waits [s] (Or.inl hstate) hsequence hpositions
  | case5 self segment hsome hio hblob _ ih =>
      rw [IncrementalCheckpoint.processNextSegment]
      split
      · next hnone => rw [hnone] at hsome; cases hsome
      · next s _ =>
          rw [if_neg hio, if_neg hblob]
          exact (ih hstate hsequence hpositions).cons s

theorem onSegmentWritten {self : IncrementalCheckpoint} (hstate : self.state = .kWritingSegments)
    (hsequence : self.checkpointStartSequence = sequence)
    (hpositions : self.positionList = positions) (ok : Bool) :
    Going io sequence positions (self.onSegmentWritten io ok) := by
  rw [IncrementalCheckpoint.onSegmentWritten]
  split_ifs
  · exact completeCheckpoint self Bool.noConfusion
  · exact processNextSegment hstate hsequence hpositions

/-- The dirty segments that `start_checkpoint` finds. -/
def pending (self : IncrementalCheckpoint) : List Segment :=
  (List.finRange kMemIndexSegmentCount).filter self.dirtySegments

/-- An accepted request that finds a dirty segment goes on with the new checkpoint. -/
theorem startCheckpoint {self : IncrementalCheckpoint} {hasActiveBuffer : Bool}
    (hidle : self.state = .kIdle) (hdirty : pending self ≠ []) :
    Going io self.globalSequence
      (self.snapshotActiveBufferPositions hasActiveBuffer).positionList
      (self.startCheckpoint io hasActiveBuffer) := by
  rw [IncrementalCheckpoint.startCheckpoint, if_neg (not_not.mpr hidle)]
  refine (congrArg (Going io _ _) (if_neg ?_)).mpr (processNextSegment rfl rfl rfl)
  exact fun hnil => hdirty (List.isEmpty_iff.mp hnil)

/-- An accepted request that finds none reports success at once. -/
theorem startCheckpoint_clean (io : CheckpointIo) {self : IncrementalCheckpoint}
    (hasActiveBuffer : Bool) (hidle : self.state = .kIdle) (hclean : pending self = []) :
    ∃ m : IncrementalCheckpoint, m.state = .kIdle ∧
      self.startCheckpoint io hasActiveBuffer = (m, [.report true]) := by
  rw [IncrementalCheckpoint.startCheckpoint, if_neg (not_not.mpr hidle)]
  exact ⟨_, rfl, if_pos (List.isEmpty_iff.mpr hclean)⟩

end Going

/-! ### The step -/

/-- When a checkpoint that reports success has done what it should: a superblock update is
set, some segment was dirty, no request was rejected that found another position, and no
entry was written to the allocation log while the superblock was written. -/
def CheckpointHistory.Sound (hasUpdate : Bool) (h : CheckpointHistory) : Prop :=
  hasUpdate = true ∧ h.dirty ≠ [] ∧ (∀ positions ∈ h.rejected, positions = h.snapshot.2) ∧
    h.logEntries = 0

namespace CheckpointEngine

/-- What the superblock update of the running checkpoint receives. -/
def due (h : CheckpointHistory) : UInt32 × List ActiveBufferPos :=
  (h.snapshot.1, h.rejected.getD h.snapshot.2)

/-- A report either has no superblock update behind it, because none was called, or an
update of what was due. -/
def Accounted (hasUpdate : Bool) (r : CheckpointReport) : Prop :=
  (r.history.superblockOk = false ∧ (hasUpdate = false ∨ r.history.dirty = [])) ∨
    (r.history.superblockOk = true ∧ hasUpdate = true ∧ r.history.dirty ≠ [] ∧
      (r.persisted.checkpointGlobalSeq, r.persisted.activeBufferPositions) = due r.history ∧
      r.allocLog.usedCount = r.history.logEntries)

/-- The invariant: what the manager would hand over, what is being written and what has been
reported. -/
structure Inv (hasUpdate : Bool) (s : CheckpointEngine) : Prop where
  writing : s.manager.state = .kWritingSegments ∨ s.manager.state = .kSyncingData →
    s.history.superblockOk = false ∧ s.history.dirty ≠ [] ∧
      (s.manager.checkpointStartSequence, s.manager.positionList) = due s.history
  updating : s.manager.state = .kUpdatingSuperblock →
    s.history.superblockOk = false ∧ s.history.dirty ≠ [] ∧ hasUpdate = true ∧
      (s.writeBuf.checkpointGlobalSeq, s.writeBuf.activeBufferPositions) = due s.history ∧
      s.allocLog.usedCount = s.history.logEntries
  reports : ∀ r ∈ s.reports, Accounted hasUpdate r

theorem Accounted.meets_iff {hasUpdate : Bool} {r : CheckpointReport}
    (h : Accounted hasUpdate r) : r.Meets ↔ r.history.Sound hasUpdate := by
  rw [CheckpointReport.Meets, CheckpointHistory.Sound]
  rcases h with ⟨hno, hwhy⟩ | ⟨hok, hset, hdirty, hpersisted, hused⟩
  · refine ⟨fun h => absurd (h.1.symm.trans hno) (by decide), fun h => ?_⟩
    rcases hwhy with hwhy | hwhy
    · exact absurd (h.1.symm.trans hwhy) (by decide)
    · exact absurd hwhy h.2.1
  · rw [hpersisted, hused, due, Prod.ext_iff]
    refine ⟨fun h => ⟨hset, hdirty, fun positions hmem => ?_, h.2.2⟩, fun h => ⟨hok, ⟨rfl, ?_⟩, h.2.2.2⟩⟩
    · rw [← h.2.1.2, Option.mem_def.mp hmem, Option.getD_some]
    · cases hr : r.history.rejected with
      | none => rfl
      | some positions => exact h.2.2.1 positions hr

variable {hasBlob hasUpdate : Bool} {s s' : CheckpointEngine}

theorem foldl_serialize (segments : List Segment) (effects : List CheckpointEffect)
    (s : CheckpointEngine) :
    (segments.map CheckpointEffect.serialize ++ effects).foldl effect s =
      effects.foldl effect s := by
  induction segments with
  | nil => rfl
  | cons segment segments ih => exact ih

/-- The callback of a checkpoint that ends in the idle state. -/
theorem Inv.after_report {m : IncrementalCheckpoint} (segments : List Segment) (ok : Bool)
    (hstate : m.state = .kIdle) (hreports : ∀ r ∈ s.reports, Accounted hasUpdate r)
    (hnew : ok = true → Accounted hasUpdate
      ⟨s.history, s.persisted, s.allocLog⟩) :
    Inv hasUpdate (s.after (m, segments.map .serialize ++ [.report ok])) := by
  rw [CheckpointEngine.after, foldl_serialize]
  refine ⟨fun h => ?_, fun h => ?_, fun r hr => ?_⟩
  · rcases h with h | h <;> exact nomatch hstate.symm.trans h
  · exact nomatch hstate.symm.trans h
  · cases ok with
    | false => exact hreports r hr
    | true =>
        rcases List.mem_append.mp hr with hr | hr
        · exact hreports r hr
        · obtain rfl := List.mem_singleton.mp hr
          exact hnew rfl

/-- **Going on with a checkpoint keeps the invariant.** -/
theorem Inv.after_going {io : CheckpointIo} {r : IncrementalCheckpoint × List CheckpointEffect}
    (hset : io.hasSuperblockUpdate = hasUpdate) (hreports : ∀ r ∈ s.reports, Accounted hasUpdate r)
    (hok : s.history.superblockOk = false) (hdirty : s.history.dirty ≠ [])
    (h : Going io (due s.history).1 (due s.history).2 r) : Inv hasUpdate (s.after r) := by
  cases h with
  | waits segments hstate hsequence hpositions =>
      rw [CheckpointEngine.after, ← List.append_nil (segments.map _), foldl_serialize]
      refine ⟨fun _ => ⟨hok, hdirty, Prod.ext hsequence hpositions⟩, fun h => ?_, hreports⟩
      rcases hstate with hstate | hstate <;> exact nomatch hstate.symm.trans h
  | updates segments hstate hupdate =>
      rw [CheckpointEngine.after, foldl_serialize]
      refine ⟨fun h => ?_, fun _ => ?_, hreports⟩
      · rcases h with h | h <;> exact nomatch hstate.symm.trans h
      · exact ⟨hok, hdirty, hset.symm.trans hupdate, rfl,
          AllocLogManager.usedCount_reclaim _⟩
  | ends segments ok hstate hend =>
      exact Inv.after_report segments ok hstate hreports fun htrue =>
        Or.inl ⟨hok, Or.inl (hset.symm.trans (hend htrue))⟩

theorem requested_of_idle (h : s.manager.state = .kIdle) :
    s.requested = ⟨(s.foreground.globalSequence, ((CheckpointSystem.setSnapshot s.foreground
      s.manager).snapshotActiveBufferPositions s.foreground.hasActiveBuffer).positionList),
      Going.pending s.manager, none, 0, false⟩ := if_pos h

theorem requested_of_writing
    (h : s.manager.state = .kWritingSegments ∨ s.manager.state = .kSyncingData) :
    s.requested = { s.history with rejected := some s.foreground.positions } := by
  rw [requested, if_neg, if_neg] <;>
    · rcases h with h | h <;> exact fun h' => nomatch h.symm.trans h'

theorem requested_of_updating (h : s.manager.state = .kUpdatingSuperblock) :
    s.requested = s.history := by
  have hidle : s.manager.state ≠ .kIdle := by
    rw [h]
    decide
  rw [requested, if_neg hidle, if_pos h]

/-- A request keeps the invariant. -/
theorem Inv.step_start (h : Inv hasUpdate s) (ioOk again : Bool) :
    Inv hasUpdate (after { s with history := s.requested }
      ((CheckpointSystem.setSnapshot s.foreground s.manager).startCheckpoint
        (s.io hasBlob hasUpdate ioOk again) s.foreground.hasActiveBuffer)) := by
  have hmgr : (CheckpointSystem.setSnapshot s.foreground s.manager).state = s.manager.state := rfl
  by_cases hidle : s.manager.state = .kIdle
  · have hreq := requested_of_idle hidle
    rw [hidle] at hmgr
    by_cases hdirty : Going.pending s.manager = []
    · obtain ⟨m, hm, heq⟩ := Going.startCheckpoint_clean (s.io hasBlob hasUpdate ioOk again)
        s.foreground.hasActiveBuffer hmgr hdirty
      rw [heq]
      refine Inv.after_report [] true hm h.reports fun _ => Or.inl ?_
      show s.requested.superblockOk = false ∧ (_ ∨ s.requested.dirty = [])
      rw [hreq]
      exact ⟨rfl, Or.inr hdirty⟩
    · have hio : (s.io hasBlob hasUpdate ioOk again).hasSuperblockUpdate = hasUpdate := rfl
      refine Inv.after_going hio h.reports ?_ ?_ ?_
      · exact congrArg CheckpointHistory.superblockOk hreq
      · rwa [congrArg CheckpointHistory.dirty hreq]
      · show Going _ (due s.requested).1 (due s.requested).2 _
        rw [hreq]
        exact Going.startCheckpoint hmgr hdirty
  · -- the request is rejected, but what it found is stored in the manager
    rw [IncrementalCheckpoint.startCheckpoint, if_pos (hmgr.trans_ne hidle)]
    refine ⟨fun hw => ?_, fun hu => ?_, h.reports⟩
    · have hw : s.manager.state = .kWritingSegments ∨ s.manager.state = .kSyncingData := hw
      obtain ⟨hok, hdirty, hdue⟩ := h.writing hw
      show s.requested.superblockOk = false ∧ s.requested.dirty ≠ [] ∧ _ = due s.requested
      rw [requested_of_writing hw]
      refine ⟨hok, hdirty, Prod.ext (Prod.ext_iff.mp hdue).1 ?_⟩
      exact IncrementalCheckpoint.positionList_set _
    · have hu : s.manager.state = .kUpdatingSuperblock := hu
      show s.requested.superblockOk = false ∧ s.requested.dirty ≠ [] ∧ hasUpdate = true ∧
        _ = due s.requested ∧ s.allocLog.usedCount = s.requested.logEntries
      rw [requested_of_updating hu]
      exact h.updating hu

/-- **What one step keeps.** -/
theorem Inv.step {ev : CheckpointEngineEvent} (h : Inv hasUpdate s)
    (hstep : s.step hasBlob hasUpdate ev = some s') : Inv hasUpdate s' := by
  cases ev with
  | start ioOk again =>
      obtain rfl := Option.some.inj hstep
      exact h.step_start ioOk again
  | foreground f =>
      obtain rfl := Option.some.inj hstep
      exact ⟨h.writing, h.updating, h.reports⟩
  | markDirty segment =>
      obtain rfl := Option.some.inj hstep
      exact ⟨h.writing, h.updating, h.reports⟩
  | writeEntry a =>
      rw [CheckpointEngine.step] at hstep
      cases hlog : s.allocLog.writeEntry a with
      | none =>
          rw [hlog] at hstep
          obtain rfl := Option.some.inj hstep
          exact h
      | some r =>
          rw [hlog] at hstep
          obtain rfl := Option.some.inj hstep
          refine ⟨h.writing, fun hu => ?_, h.reports⟩
          obtain ⟨hok, hdirty, hset, hdue, hused⟩ := h.updating hu
          exact ⟨hok, hdirty, hset, hdue,
            (AllocLogManager.usedCount_writeEntry hlog).2.trans (by rw [hused])⟩
  | segmentWritten ok ioOk again =>
      rw [CheckpointEngine.step] at hstep
      obtain ⟨hst, heq⟩ := Option.ite_none_right_eq_some.mp hstep
      obtain rfl := Option.some.inj heq
      obtain ⟨hok, hdirty, hdue⟩ := h.writing (Or.inl hst)
      exact Inv.after_going rfl h.reports hok hdirty
        (Going.onSegmentWritten hst (Prod.ext_iff.mp hdue).1 (Prod.ext_iff.mp hdue).2 ok)
  | synced ok again =>
      rw [CheckpointEngine.step] at hstep
      obtain ⟨hst, heq⟩ := Option.ite_none_right_eq_some.mp hstep
      obtain rfl := Option.some.inj heq
      obtain ⟨hok, hdirty, hdue⟩ := h.writing (Or.inr hst)
      exact Inv.after_going rfl h.reports hok hdirty
        (Going.onSyncComplete (Prod.ext_iff.mp hdue).1 (Prod.ext_iff.mp hdue).2 ok)
  | superblockWritten ok again =>
      rw [CheckpointEngine.step] at hstep
      obtain ⟨hst, heq⟩ := Option.ite_none_right_eq_some.mp hstep
      obtain rfl := Option.some.inj heq
      obtain ⟨-, hdirty, hset, hdue, hused⟩ := h.updating hst
      refine Inv.after_report [] ok rfl h.reports ?_
      rintro rfl
      exact Or.inr ⟨rfl, hset, hdirty, hdue, hused⟩

theorem inv_start (f : CheckpointForeground) (log : AllocLogManager) (fields : CheckpointFields) :
    Inv hasUpdate (start f log fields) where
  writing h := by rcases h with h | h <;> cases h
  updating h := nomatch h
  reports _ hr := absurd hr List.not_mem_nil

/-! ### Runs -/

/-- **When a checkpoint that reports success has done what it should**: its superblock
update has run and reported success, the sequence and the positions it persisted are those
of the checkpoint, and the allocation log is empty. -/
theorem success_means_updated_iff {f : CheckpointForeground} {log : AllocLogManager}
    {fields : CheckpointFields} {events : List CheckpointEngineEvent}
    (hrun : (checkpointEngineMachine hasBlob hasUpdate).run (start f log fields) events = some s) :
    ∀ r ∈ s.reports, r.Meets ↔ r.history.Sound hasUpdate := by
  have hmeets : (checkpointEngineMachine hasBlob hasUpdate).Meets (fun _ _ => True)
      (start f log fields) events := Machine.meets_of_forall _ fun _ _ => trivial
  have hinv := (checkpointEngineMachine hasBlob hasUpdate).run_invariant (Inv hasUpdate)
    (fun _ _ _ h _ hstep => h.step hstep) (inv_start f log fields) hmeets hrun
  exact fun r hr => (hinv.reports r hr).meets_iff

/-! ### Two runs -/

/-- Page 1 of file 0 is written, and the log was created with the superblock. -/
def sample : CheckpointEngine :=
  start (CheckpointSystem.samplePosition 1) (.init 0 0 0) ⟨0, [], 0, 0, 0, 0, 0⟩

/-- The blob of a data file. -/
def sampleAllocation : Allocation := ⟨3, 1, 1048576, 0⟩

/-- A checkpoint of one dirty segment empties the log. -/
theorem success_means_updated_sample :
    ∃ s, (checkpointEngineMachine false true).run sample
        [.writeEntry sampleAllocation, .markDirty CheckpointSystem.firstSegment,
          .start true false, .superblockWritten true false] = some s ∧
      s.reports.length = 1 ∧ ∀ r ∈ s.reports, r.Meets := by
  have hlen : ((checkpointEngineMachine false true).run sample
      [.writeEntry sampleAllocation, .markDirty CheckpointSystem.firstSegment,
        .start true false, .superblockWritten true false]).map
      (fun s => (s.reports.length, s.reports.all fun r => r.history.dirty ≠ [] ∧
        r.history.rejected = none ∧ r.history.logEntries = 0)) = some (1, true) := by
    decide +kernel
  obtain ⟨s, hs, hsound⟩ := Option.map_eq_some_iff.mp hlen
  obtain ⟨hone, hall⟩ := Prod.ext_iff.mp hsound
  refine ⟨s, hs, hone, fun r hr => (success_means_updated_iff hs r hr).mpr ?_⟩
  obtain ⟨hdirty, hrejected, hentries⟩ := of_decide_eq_true (List.all_eq_true.mp hall r hr)
  refine ⟨rfl, hdirty, fun positions hmem => ?_, hentries⟩
  rw [hrejected] at hmem
  exact nomatch hmem

/-- **A checkpoint without dirty segments reports success at once**: 48 files have been
allocated, the log is near full, and after the checkpoint it still is, so that the
allocation that waited for it fails the queued writes. -/
theorem clean_checkpoint_reports_success :
    ((checkpointEngineMachine false true).run sample
      (List.replicate 48 (.writeEntry sampleAllocation) ++ [.start true false])).map
        (fun s => s.reports.map fun r => (r.history.superblockOk, decide r.Meets,
          r.allocLog.usedCount, resumeAllocationAfterCheckpoint r.allocLog true)) =
      some [(false, false, 48, .failsWrites)] := by
  decide +kernel

end CheckpointEngine

end SpdkKv
