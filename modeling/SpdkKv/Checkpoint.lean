import Mathlib.Data.Fintype.Basic
import SpdkKv.Lib.Machine
import SpdkKv.Types

/-!
# The Incremental Checkpoint

`IncrementalCheckpoint` of `checkpoint.cpp`: the state machine that snapshots the dirty
segments, writes them one after the other, syncs, and updates the superblock. Every method
gives the state afterwards and the effects it had, in order. `Engine::start_checkpoint`
stores the sequence and the positions into the manager before the manager decides whether
to accept the request, and hands the live members to the superblock update in the end.

## Main results

* `hands_processNextSegment`: **what going on with a checkpoint hands over**.
* `handed_eq_started`: **the superblock update of a checkpoint receives the pair that was
  current when the checkpoint was started**, in every run in which no rejected request comes
  while the write position differs from the one of the running checkpoint.
* `handed_sequence_eq`: the sequence of the pair is right in every run.
* `rejected_start_changes_positions`: a rejected request changes what is handed over.
-/

namespace SpdkKv

/-- States of a checkpoint. -/
inductive CheckpointState
  | kIdle
  | kSnapshoting
  | kWritingSegments
  | kSyncingData
  | kUpdatingSuperblock
  | kComplete
  | kFailed
  deriving DecidableEq, Repr

/-- A write position in an active data file. -/
structure ActiveBufferPos where
  fileId : ℕ
  pageIndex : ℕ
  deriving DecidableEq, Repr

/-- A segment of the index. -/
abbrev Segment := Fin kMemIndexSegmentCount

/-- What a method of the checkpoint does besides changing its state. -/
inductive CheckpointEffect
  /-- The segment is serialised from the live index and written. -/
  | serialize (segment : Segment)
  /-- The superblock update is called with a sequence and the active buffer positions. -/
  | updateSuperblock (sequence : UInt32) (positions : List ActiveBufferPos)
  /-- The callback of the checkpoint, or of a rejected request, is called. -/
  | report (ok : Bool)
  deriving DecidableEq, Repr

/-- The members of `IncrementalCheckpoint`. -/
structure IncrementalCheckpoint where
  state : CheckpointState
  checkpointSequence : ℕ
  globalSequence : UInt32
  checkpointStartSequence : UInt32
  activeBufferPositions : ℕ → ActiveBufferPos
  activeBufferCount : ℕ
  dirtySegments : Segment → Bool
  pendingSegments : List Segment
  currentSegmentIdx : ℕ
  segmentVersions : Segment → ℕ

/-- What the surroundings decide during a call: whether there is a blob to write to, whether
a superblock update callback is set, whether a segment can be serialised and a DMA buffer
allocated, and what the completion callback does to the manager. -/
structure CheckpointIo where
  hasBlob : Bool
  hasSuperblockUpdate : Bool
  ioOk : Bool
  callback : IncrementalCheckpoint → IncrementalCheckpoint

namespace IncrementalCheckpoint

/-- The state the constructor yields. -/
def fresh : IncrementalCheckpoint :=
  ⟨.kIdle, 0, 0, 0, fun _ => ⟨0, 0⟩, 0, fun _ => false, [], 0, fun _ => 0⟩

/-- `mark_dirty`, for a bucket of the segment. -/
def markDirty (self : IncrementalCheckpoint) (segment : Segment) : IncrementalCheckpoint :=
  { self with dirtySegments := Function.update self.dirtySegments segment true }

/-- `set_global_sequence`. -/
def setGlobalSequence (self : IncrementalCheckpoint) (seq : UInt32) : IncrementalCheckpoint :=
  { self with globalSequence := seq }

/-- `set_active_buffer_positions`, for a count that fits the array. -/
def setActiveBufferPositions (self : IncrementalCheckpoint) (positions : List ActiveBufferPos) :
    IncrementalCheckpoint :=
  { self with
    activeBufferCount := positions.length
    activeBufferPositions := fun i => positions.getD i (self.activeBufferPositions i) }

/-- The positions that `active_buffer_positions_` and `active_buffer_count_` stand for. -/
def positionList (self : IncrementalCheckpoint) : List ActiveBufferPos :=
  (List.range self.activeBufferCount).map self.activeBufferPositions

/-- `snapshot_active_buffer_positions`, with a buffer manager that has an active buffer or
not. -/
def snapshotActiveBufferPositions (self : IncrementalCheckpoint) (hasActiveBuffer : Bool) :
    IncrementalCheckpoint :=
  { self with activeBufferCount := if hasActiveBuffer then 1 else 0 }

/-- `complete_checkpoint`; `on_superblock_updated` is this call. -/
def completeCheckpoint (io : CheckpointIo) (self : IncrementalCheckpoint) (ok : Bool) :
    IncrementalCheckpoint × List CheckpointEffect :=
  let self :=
    if ok then
      { self with checkpointSequence := self.checkpointSequence + 1, state := .kComplete }
    else { self with state := .kFailed }
  ({ io.callback self with state := .kIdle }, [.report ok])

/-- `on_sync_complete`, up to the call of the superblock update, which is pending then. -/
def onSyncComplete (io : CheckpointIo) (self : IncrementalCheckpoint) (ok : Bool) :
    IncrementalCheckpoint × List CheckpointEffect :=
  if !ok then completeCheckpoint io self false
  else
    let self := { self with
      segmentVersions := fun s =>
        if s ∈ self.pendingSegments then self.segmentVersions s + 1 else self.segmentVersions s
      state := .kUpdatingSuperblock }
    if io.hasSuperblockUpdate then
      (self, [.updateSuperblock self.checkpointStartSequence self.positionList])
    else completeCheckpoint io self true

/-- `process_next_segment`; without a blob the next segments follow at once. -/
def processNextSegment (io : CheckpointIo) (self : IncrementalCheckpoint) :
    IncrementalCheckpoint × List CheckpointEffect :=
  match h : self.pendingSegments[self.currentSegmentIdx]? with
  | none =>
      let self := { self with state := .kSyncingData }
      if io.hasBlob then (self, []) else onSyncComplete io self true
  | some segment =>
      if !io.ioOk then completeCheckpoint io self false
      else if io.hasBlob then (self, [.serialize segment])
      else
        have := (List.getElem?_eq_some_iff.mp h).1
        let r := processNextSegment io
          { self with currentSegmentIdx := self.currentSegmentIdx + 1 }
        (r.1, .serialize segment :: r.2)
termination_by self.pendingSegments.length - self.currentSegmentIdx

/-- `on_segment_written`. -/
def onSegmentWritten (io : CheckpointIo) (self : IncrementalCheckpoint) (ok : Bool) :
    IncrementalCheckpoint × List CheckpointEffect :=
  if !ok then completeCheckpoint io self false
  else processNextSegment io { self with currentSegmentIdx := self.currentSegmentIdx + 1 }

/-- `start_checkpoint` of the manager. -/
def startCheckpoint (io : CheckpointIo) (self : IncrementalCheckpoint)
    (hasActiveBuffer : Bool) : IncrementalCheckpoint × List CheckpointEffect :=
  if self.state ≠ .kIdle then (self, [.report false])  -- Already in progress
  else
    let self := { self with checkpointStartSequence := self.globalSequence }
    let self := self.snapshotActiveBufferPositions hasActiveBuffer
    let self := { self with
      dirtySegments := fun _ => false
      pendingSegments := (List.finRange kMemIndexSegmentCount).filter self.dirtySegments }
    if self.pendingSegments.isEmpty then completeCheckpoint io self true
    else processNextSegment io
      { self with state := .kWritingSegments, currentSegmentIdx := 0 }

end IncrementalCheckpoint

/-! ### The engine around it -/

/-- What `Engine::start_checkpoint` reads. -/
structure CheckpointForeground where
  /-- The global sequence of the index. -/
  globalSequence : UInt32
  /-- Id and write offset of the active file. -/
  activeFile : Option (ℕ × ℕ)
  /-- The buffer manager has an active append buffer. -/
  hasActiveBuffer : Bool
  deriving DecidableEq, Repr

/-- The positions that `Engine::start_checkpoint` passes on. -/
def CheckpointForeground.positions (f : CheckpointForeground) : List ActiveBufferPos :=
  match f.activeFile with
  | some (fileId, writeOffset) => [⟨fileId, writeOffset / kPageSize⟩]
  | none => []

/-- The pair of global sequence and active buffer positions that is current. -/
def CheckpointForeground.current (f : CheckpointForeground) : UInt32 × List ActiveBufferPos :=
  (f.globalSequence, if f.hasActiveBuffer then f.positions else [])

/-- The pairs of a superblock update: the one that was current when the checkpoint
was started and the one that was handed over. -/
structure SuperblockUpdate where
  started : UInt32 × List ActiveBufferPos
  handed : UInt32 × List ActiveBufferPos
  deriving DecidableEq, Repr

/-- The manager, the foreground, the pair that was current when the running checkpoint was
started, and the superblock updates so far. -/
structure CheckpointSystem where
  manager : IncrementalCheckpoint
  foreground : CheckpointForeground
  started : UInt32 × List ActiveBufferPos
  updates : List SuperblockUpdate

/-- What can happen. -/
inductive CheckpointEvent
  /-- `Engine::start_checkpoint`; `again` when the callback of a checkpoint that finishes at
  once calls it again. -/
  | start (ioOk again : Bool)
  /-- Writes, file switches, sealing and returning of buffers. -/
  | foreground (f : CheckpointForeground)
  /-- The index is modified. -/
  | markDirty (segment : Segment)
  /-- The write of the current segment completes. -/
  | segmentWritten (ok ioOk again : Bool)
  /-- The sync of the blob completes. -/
  | synced (ok again : Bool)
  /-- The superblock update completes. -/
  | superblockUpdated (ok again : Bool)

namespace CheckpointSystem

/-- `Engine::start_checkpoint` up to the call of the manager. -/
def setSnapshot (f : CheckpointForeground) (manager : IncrementalCheckpoint) :
    IncrementalCheckpoint :=
  (manager.setGlobalSequence f.globalSequence).setActiveBufferPositions f.positions

/-- The surroundings of a call. A callback that starts a checkpoint again is rejected, since
the manager is not idle yet. -/
def io (s : CheckpointSystem) (hasBlob ioOk again : Bool) : CheckpointIo where
  hasBlob := hasBlob
  hasSuperblockUpdate := true
  ioOk := ioOk
  callback := if again then setSnapshot s.foreground else id

/-- The state after a call of the manager. -/
def after (s : CheckpointSystem) (started : UInt32 × List ActiveBufferPos)
    (r : IncrementalCheckpoint × List CheckpointEffect) : CheckpointSystem where
  manager := r.1
  foreground := s.foreground
  started := started
  updates := s.updates ++ r.2.filterMap fun e =>
    match e with
    | .updateSuperblock sequence positions => some ⟨started, (sequence, positions)⟩
    | _ => none

/-- The step of an event; completions are enabled while their operation is pending. -/
def step (hasBlob : Bool) (s : CheckpointSystem) : CheckpointEvent → Option CheckpointSystem
  | .start ioOk again =>
      some (s.after (if s.manager.state = .kIdle then s.foreground.current else s.started)
        ((setSnapshot s.foreground s.manager).startCheckpoint
          (s.io hasBlob ioOk again) s.foreground.hasActiveBuffer))
  | .foreground f => some { s with foreground := f }
  | .markDirty segment => some { s with manager := s.manager.markDirty segment }
  | .segmentWritten ok ioOk again =>
      if s.manager.state = .kWritingSegments then
        some (s.after s.started
          (s.manager.onSegmentWritten (s.io hasBlob ioOk again) ok))
      else none
  | .synced ok again =>
      if s.manager.state = .kSyncingData then
        some (s.after s.started (s.manager.onSyncComplete (s.io hasBlob true again) ok))
      else none
  | .superblockUpdated ok again =>
      if s.manager.state = .kUpdatingSuperblock then
        some (s.after s.started (s.manager.completeCheckpoint (s.io hasBlob true again) ok))
      else none

/-- An engine that has not started a checkpoint yet. -/
def start (f : CheckpointForeground) : CheckpointSystem :=
  ⟨IncrementalCheckpoint.fresh, f, f.current, []⟩

end CheckpointSystem

/-- The checkpoint as a machine, with or without a blob for the index. -/
def checkpointMachine (hasBlob : Bool) : Machine CheckpointSystem CheckpointEvent where
  step := CheckpointSystem.step hasBlob

/-- **When a request is harmless.** An accepted one finds an active file if there is an
active buffer; a rejected one finds the write position where the running checkpoint was
started. -/
def CheckpointSafe (s : CheckpointSystem) : CheckpointEvent → Prop
  | .start _ _ =>
      if s.manager.state = .kIdle then
        s.foreground.hasActiveBuffer = true → s.foreground.activeFile ≠ none
      else s.foreground.positions = s.started.2
  | _ => True

/-! ### What the methods hand over -/

namespace IncrementalCheckpoint

/-- The result of a call hands only pairs with `P` over, now and, if the checkpoint goes on,
later. -/
def Hands (P : UInt32 → List ActiveBufferPos → Prop)
    (r : IncrementalCheckpoint × List CheckpointEffect) : Prop :=
  (∀ sequence positions, CheckpointEffect.updateSuperblock sequence positions ∈ r.2 →
    P sequence positions) ∧
  (r.1.state ≠ .kIdle → P r.1.checkpointStartSequence r.1.positionList)

variable {P : UInt32 → List ActiveBufferPos → Prop} {io : CheckpointIo}
  {self : IncrementalCheckpoint}

@[simp] theorem completeCheckpoint_state (ok : Bool) :
    (completeCheckpoint io self ok).1.state = .kIdle := rfl

/-- A checkpoint that ends hands nothing over. -/
theorem hands_complete (ok : Bool) : Hands P (completeCheckpoint io self ok) :=
  ⟨fun _ _ hmem => (nomatch List.mem_singleton.mp hmem), fun hidle => absurd rfl hidle⟩

theorem hands_onSyncComplete (self : IncrementalCheckpoint)
    (h : P self.checkpointStartSequence self.positionList)
    (ok : Bool) : Hands P (onSyncComplete io self ok) := by
  rw [onSyncComplete]
  split_ifs
  · exact hands_complete false
  · refine ⟨fun sequence positions hmem => ?_, fun _ => h⟩
    cases List.mem_singleton.mp hmem
    exact h
  · exact hands_complete true

/-- **What going on with a checkpoint hands over** is what the manager holds. -/
theorem hands_processNextSegment (self : IncrementalCheckpoint)
    (h : P self.checkpointStartSequence self.positionList) :
    Hands P (processNextSegment io self) := by
  induction self using processNextSegment.induct io with
  | case1 self hnone hblob =>
      rw [processNextSegment]
      split
      · rw [if_pos hblob]
        exact ⟨fun _ _ hmem => absurd hmem List.not_mem_nil, fun _ => h⟩
      · next hsome => rw [hnone] at hsome; cases hsome
  | case2 self hnone hblob =>
      rw [processNextSegment]
      split
      · rw [if_neg hblob]
        exact hands_onSyncComplete { self with state := .kSyncingData } h true
      · next hsome => rw [hnone] at hsome; cases hsome
  | case3 self segment hsome hio =>
      rw [processNextSegment]
      split
      · next hnone => rw [hnone] at hsome; cases hsome
      · rw [if_pos hio]
        exact hands_complete false
  | case4 self segment hsome hio hblob =>
      rw [processNextSegment]
      split
      · next hnone => rw [hnone] at hsome; cases hsome
      · rw [if_neg hio, if_pos hblob]
        exact ⟨fun _ _ hmem => (nomatch List.mem_singleton.mp hmem), fun _ => h⟩
  | case5 self segment hsome hio hblob _ ih =>
      rw [processNextSegment]
      split
      · next hnone => rw [hnone] at hsome; cases hsome
      · rw [if_neg hio, if_neg hblob]
        obtain ⟨heff, hlater⟩ := ih h
        refine ⟨fun sequence positions hmem => ?_, hlater⟩
        rcases List.mem_cons.mp hmem with hmem | hmem
        · cases hmem
        · exact heff _ _ hmem

theorem hands_onSegmentWritten (h : P self.checkpointStartSequence self.positionList)
    (ok : Bool) : Hands P (onSegmentWritten io self ok) := by
  rw [onSegmentWritten]
  split_ifs
  · exact hands_complete false
  · exact hands_processNextSegment
      { self with currentSegmentIdx := self.currentSegmentIdx + 1 } h

/-- An accepted request hands over its own pair, a rejected one leaves that of the running
checkpoint. -/
theorem hands_startCheckpoint {hasActiveBuffer : Bool}
    (haccept : self.state = .kIdle → P self.globalSequence
      (self.snapshotActiveBufferPositions hasActiveBuffer).positionList)
    (hreject : self.state ≠ .kIdle → P self.checkpointStartSequence self.positionList) :
    Hands P (startCheckpoint io self hasActiveBuffer) := by
  rw [startCheckpoint]
  split_ifs with hidle
  · exact ⟨fun _ _ hmem => (nomatch List.mem_singleton.mp hmem), fun _ => hreject hidle⟩
  · have h := haccept (not_not.mp hidle)
    dsimp only
    split_ifs
    · exact hands_complete true
    · exact hands_processNextSegment _ h

/-- Setting positions that fit the array replaces them. -/
theorem positionList_set (positions : List ActiveBufferPos) :
    (self.setActiveBufferPositions positions).positionList = positions := by
  rw [positionList, setActiveBufferPositions]
  refine List.ext_getElem (by simp) fun i h1 h2 => ?_
  rw [List.getElem_map, List.getElem_range]
  show positions.getD i _ = _
  rw [List.getD_eq_getElem?_getD, List.getElem?_eq_getElem h2, Option.getD_some]

end IncrementalCheckpoint

/-! ### Runs -/

namespace CheckpointSystem

/-- Every pair handed over is related by `Q` to the one that was current when its checkpoint
was started, and so is the one that the running checkpoint would hand over. -/
structure Hanging (Q : UInt32 × List ActiveBufferPos → UInt32 × List ActiveBufferPos → Prop)
    (s : CheckpointSystem) : Prop where
  updates : ∀ u ∈ s.updates, Q u.started u.handed
  running : s.manager.state ≠ .kIdle →
    Q s.started (s.manager.checkpointStartSequence, s.manager.positionList)

variable {Q : UInt32 × List ActiveBufferPos → UInt32 × List ActiveBufferPos → Prop}

theorem Hanging.after {s : CheckpointSystem} (h : Hanging Q s)
    {started : UInt32 × List ActiveBufferPos}
    {r : IncrementalCheckpoint × List CheckpointEffect}
    (hr : IncrementalCheckpoint.Hands (fun sequence positions => Q started (sequence, positions))
      r) : Hanging Q (s.after started r) where
  updates := by
    intro u hu
    rcases List.mem_append.mp hu with hu | hu
    · exact h.updates u hu
    · obtain ⟨e, he, heq⟩ := List.mem_filterMap.mp hu
      cases e with
      | serialize segment | report ok => cases heq
      | updateSuperblock sequence positions =>
          obtain rfl := Option.some.inj heq
          exact hr.1 _ _ he
  running := hr.2

/-- **What one step keeps**: given what accepted and rejected requests do to the pair, every
other step keeps it. -/
theorem Hanging.step {hasBlob : Bool} {s s' : CheckpointSystem} {ev : CheckpointEvent}
    (h : Hanging Q s)
    (haccept : ∀ ioOk again, ev = .start ioOk again →
      s.manager.state = .kIdle → Q s.foreground.current (s.foreground.globalSequence,
        ((setSnapshot s.foreground s.manager).snapshotActiveBufferPositions
          s.foreground.hasActiveBuffer).positionList))
    (hreject : ∀ ioOk again, ev = .start ioOk again →
      s.manager.state ≠ .kIdle →
      Q s.started (s.manager.checkpointStartSequence, s.foreground.positions))
    (hstep : s.step hasBlob ev = some s') : Hanging Q s' := by
  cases ev with
  | start ioOk again =>
      obtain rfl := Option.some.inj hstep
      refine h.after (IncrementalCheckpoint.hands_startCheckpoint (fun hidle => ?_)
        fun hbusy => ?_)
      · rw [if_pos (show s.manager.state = .kIdle from hidle)]
        exact haccept ioOk again rfl hidle
      · rw [if_neg (show s.manager.state ≠ .kIdle from hbusy), setSnapshot,
          IncrementalCheckpoint.positionList_set]
        exact hreject ioOk again rfl hbusy
  | foreground f =>
      obtain rfl := Option.some.inj hstep
      exact ⟨h.updates, h.running⟩
  | markDirty segment =>
      obtain rfl := Option.some.inj hstep
      exact ⟨h.updates, h.running⟩
  | segmentWritten ok ioOk again =>
      rw [CheckpointSystem.step] at hstep
      split_ifs at hstep with hst
      obtain rfl := Option.some.inj hstep
      refine h.after (IncrementalCheckpoint.hands_onSegmentWritten (h.running ?_) ok)
      rw [hst]
      decide
  | synced ok again =>
      rw [CheckpointSystem.step] at hstep
      split_ifs at hstep with hst
      obtain rfl := Option.some.inj hstep
      refine h.after (IncrementalCheckpoint.hands_onSyncComplete _ (h.running ?_) ok)
      rw [hst]
      decide
  | superblockUpdated ok again =>
      rw [CheckpointSystem.step] at hstep
      split_ifs at hstep
      obtain rfl := Option.some.inj hstep
      exact h.after (IncrementalCheckpoint.hands_complete ok)

theorem hanging_start (f : CheckpointForeground) : Hanging Q (start f) :=
  ⟨fun _ hmem => absurd hmem List.not_mem_nil, fun hidle => absurd rfl hidle⟩

/-- The sequence that is handed over is the one that was current at the start, whatever
requests come in between. -/
theorem handed_sequence_eq {hasBlob : Bool} {f : CheckpointForeground}
    {events : List CheckpointEvent} {s : CheckpointSystem}
    (hrun : (checkpointMachine hasBlob).run (start f) events = some s) :
    ∀ u ∈ s.updates, u.handed.1 = u.started.1 := by
  have hmeets : (checkpointMachine hasBlob).Meets (fun _ _ => True) (start f) events :=
    (checkpointMachine hasBlob).meets_of_forall fun _ _ => trivial
  refine ((checkpointMachine hasBlob).run_invariant
    (Hanging fun started handed => handed.1 = started.1) ?_
    (hanging_start f) hmeets hrun).updates
  intro s ev s' h _ hstep
  exact h.step (fun _ _ _ _ => rfl) (fun _ _ _ hbusy => h.running hbusy) hstep

/-- The pair of an accepted, harmless request. -/
theorem positionList_accepted {s : CheckpointSystem}
    (hfile : s.foreground.hasActiveBuffer = true → s.foreground.activeFile ≠ none) :
    ((setSnapshot s.foreground s.manager).snapshotActiveBufferPositions
      s.foreground.hasActiveBuffer).positionList = s.foreground.current.2 := by
  rw [CheckpointForeground.current]
  cases hb : s.foreground.hasActiveBuffer with
  | false => rfl
  | true =>
      obtain ⟨⟨fileId, writeOffset⟩, hf⟩ := Option.ne_none_iff_exists'.mp (hfile hb)
      simp only [setSnapshot, IncrementalCheckpoint.snapshotActiveBufferPositions,
        IncrementalCheckpoint.positionList, IncrementalCheckpoint.setActiveBufferPositions,
        IncrementalCheckpoint.setGlobalSequence, CheckpointForeground.positions, hf]
      rfl

/-- **The superblock update of a checkpoint receives the pair that was current when that
checkpoint was started**, in every run of harmless requests, whatever else happens in
between. -/
theorem handed_eq_started {hasBlob : Bool} {f : CheckpointForeground}
    {events : List CheckpointEvent} {s : CheckpointSystem}
    (hsafe : (checkpointMachine hasBlob).Meets CheckpointSafe (start f) events)
    (hrun : (checkpointMachine hasBlob).run (start f) events = some s) :
    ∀ u ∈ s.updates, u.handed = u.started := by
  refine ((checkpointMachine hasBlob).run_invariant
    (Hanging fun started handed => handed = started) ?_
    (hanging_start f) hsafe hrun).updates
  rintro s ev s' h hsafe hstep
  refine h.step ?_ ?_ hstep
  · rintro ioOk again rfl hidle
    rw [CheckpointSafe, if_pos hidle] at hsafe
    rw [positionList_accepted hsafe]
    rfl
  · rintro ioOk again rfl hbusy
    rw [CheckpointSafe, if_neg hbusy] at hsafe
    have hseq : s.manager.checkpointStartSequence = s.started.1 :=
      congrArg Prod.fst (h.running hbusy)
    exact Prod.ext hseq hsafe

/-! ### Two runs -/

/-- Page 1 of file 0, and later page 2. -/
def samplePosition (page : ℕ) : CheckpointForeground := ⟨7, some (0, page * kPageSize), true⟩

/-- The segment of bucket 0. -/
def firstSegment : Segment := ⟨0, by decide⟩

/-- One segment is written while the foreground goes on. -/
def sampleEvents : List CheckpointEvent :=
  [.markDirty firstSegment, .start true false, .foreground (samplePosition 2),
    .segmentWritten true true false, .synced true false, .superblockUpdated true false]

/-- A checkpoint of one segment during which the foreground goes on writing. -/
theorem handed_eq_started_sample :
    ∃ s, (checkpointMachine true).run (start (samplePosition 1)) sampleEvents = some s ∧
      s.updates.length = 1 ∧ ∀ u ∈ s.updates, u.handed = u.started := by
  have hlen : ((checkpointMachine true).run (start (samplePosition 1)) sampleEvents).map
      (fun s => s.updates.length) = some 1 := by decide +kernel
  obtain ⟨s, hs, hone⟩ := Option.map_eq_some_iff.mp hlen
  refine ⟨s, hs, hone, handed_eq_started ?_ hs⟩
  refine ⟨trivial, fun s₁ h₁ => ⟨?_, fun _ _ => ⟨trivial, fun _ _ => ⟨trivial, fun _ _ =>
    ⟨trivial, fun _ _ => ⟨trivial, fun _ _ => trivial⟩⟩⟩⟩⟩⟩
  obtain rfl := Option.some.inj h₁
  exact fun _ => Option.some_ne_none _

/-- A request that is rejected leaves the sequence that is handed over. -/
theorem handed_sequence_eq_sample :
    ∃ s, (checkpointMachine true).run (start (samplePosition 1))
        [.markDirty firstSegment, .start true false, .foreground ⟨9, some (0, 8192), true⟩,
          .start true false, .segmentWritten true true false, .synced true false,
          .superblockUpdated true false] = some s ∧
      s.updates.length = 1 ∧ ∀ u ∈ s.updates, u.handed.1 = u.started.1 := by
  have hlen : ((checkpointMachine true).run (start (samplePosition 1))
      [.markDirty firstSegment, .start true false, .foreground ⟨9, some (0, 8192), true⟩,
        .start true false, .segmentWritten true true false, .synced true false,
        .superblockUpdated true false]).map (fun s => s.updates.length) = some 1 := by
    decide +kernel
  obtain ⟨s, hs, hone⟩ := Option.map_eq_some_iff.mp hlen
  exact ⟨s, hs, hone, handed_sequence_eq hs⟩

/-- **A rejected request changes what is handed over**: the update of the checkpoint that
was started at page 1 receives page 2. -/
theorem rejected_start_changes_positions :
    ((checkpointMachine true).run (start (samplePosition 1))
      [.markDirty firstSegment, .start true false, .foreground (samplePosition 2),
        .start true false, .segmentWritten true true false, .synced true false,
        .superblockUpdated true false]).map updates =
      some [⟨(7, [⟨0, 1⟩]), (7, [⟨0, 2⟩])⟩] := by
  decide +kernel

end CheckpointSystem

end SpdkKv
