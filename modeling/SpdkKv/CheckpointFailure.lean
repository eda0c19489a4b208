import SpdkKv.CheckpointSuccess

/-!
# What a Failed Checkpoint Leaves

`start_checkpoint` moves the dirty bitmap into the list of pending segments and clears it.
All failures (a segment that cannot be serialised, a failed segment write, a failed sync, a
failed superblock update) end in `complete_checkpoint`, which does not look at the list
again.

## Main results

* `dirty_eq_marked`: **the dirty segments are the ones marked since the last checkpoint was
  started**, in every state of every run.
* `failed_checkpoint_keeps_dirty_iff`: **when a failed checkpoint loses no dirtiness**, for
  every failure of every run.
* `failure_had_dirty`: a checkpoint that fails has found dirty segments.
-/

namespace SpdkKv

/-! ### The methods and the dirty bitmap -/

namespace IncrementalCheckpoint

variable {io : CheckpointIo}

/-- The completion callback leaves the dirty bitmap alone. -/
def CallbackKeepsDirty (io : CheckpointIo) : Prop :=
  ∀ self, (io.callback self).dirtySegments = self.dirtySegments

theorem dirtySegments_completeCheckpoint (hio : CallbackKeepsDirty io)
    (self : IncrementalCheckpoint) (ok : Bool) :
    (self.completeCheckpoint io ok).1.dirtySegments = self.dirtySegments := by
  cases ok <;> exact hio _

theorem dirtySegments_onSyncComplete (hio : CallbackKeepsDirty io)
    (self : IncrementalCheckpoint) (ok : Bool) :
    (self.onSyncComplete io ok).1.dirtySegments = self.dirtySegments := by
  rw [onSyncComplete]
  split_ifs
  · exact dirtySegments_completeCheckpoint hio self false
  · rfl
  · exact dirtySegments_completeCheckpoint hio _ true

theorem dirtySegments_processNextSegment (hio : CallbackKeepsDirty io)
    (self : IncrementalCheckpoint) :
    (self.processNextSegment io).1.dirtySegments = self.dirtySegments := by
  fun_induction processNextSegment io self with
  | case1 => rfl
  | case2 self => exact dirtySegments_onSyncComplete hio _ true
  | case3 self => exact dirtySegments_completeCheckpoint hio self false
  | case4 => rfl
  | case5 self segment hsome hio' hblob hlt r ih => exact ih

theorem dirtySegments_onSegmentWritten (hio : CallbackKeepsDirty io)
    (self : IncrementalCheckpoint) (ok : Bool) :
    (self.onSegmentWritten io ok).1.dirtySegments = self.dirtySegments := by
  rw [onSegmentWritten]
  split_ifs
  · exact dirtySegments_completeCheckpoint hio self false
  · exact dirtySegments_processNextSegment hio _

/-- A rejected request leaves the bitmap alone. -/
theorem dirtySegments_startCheckpoint_busy {self : IncrementalCheckpoint}
    (hbusy : self.state ≠ .kIdle) (hasActiveBuffer : Bool) :
    (self.startCheckpoint io hasActiveBuffer).1.dirtySegments = self.dirtySegments := by
  rw [startCheckpoint, if_pos hbusy]

/-- An accepted request leaves no segment dirty, however far the checkpoint gets at once. -/
theorem dirtySegments_startCheckpoint_idle (hio : CallbackKeepsDirty io)
    {self : IncrementalCheckpoint} (hidle : self.state = .kIdle) (hasActiveBuffer : Bool) :
    (self.startCheckpoint io hasActiveBuffer).1.dirtySegments = fun _ => false := by
  rw [startCheckpoint, if_neg (not_not.mpr hidle)]
  dsimp only
  split_ifs
  · exact dirtySegments_completeCheckpoint hio _ true
  · exact dirtySegments_processNextSegment hio _

end IncrementalCheckpoint

/-! ### Failures -/

namespace CheckpointEngine

/-- The call of the manager that an event makes. -/
def call (hasBlob hasUpdate : Bool) (s : CheckpointEngine) :
    CheckpointEngineEvent → Option (IncrementalCheckpoint × List CheckpointEffect)
  | .start ioOk again =>
      some ((CheckpointSystem.setSnapshot s.foreground s.manager).startCheckpoint
        (s.io hasBlob hasUpdate ioOk again) s.foreground.hasActiveBuffer)
  | .segmentWritten ok ioOk again =>
      some (s.manager.onSegmentWritten (s.io hasBlob hasUpdate ioOk again) ok)
  | .synced ok again => some (s.manager.onSyncComplete (s.io hasBlob hasUpdate true again) ok)
  | .superblockWritten ok again =>
      some (s.manager.completeCheckpoint (s.io hasBlob hasUpdate true again) ok)
  | .foreground _ | .markDirty _ | .writeEntry _ => none

/-- The request that an event makes is rejected. -/
def rejects (s : CheckpointEngine) : CheckpointEngineEvent → Bool
  | .start _ _ => s.manager.state != .kIdle
  | _ => false

/-- The event ends a checkpoint with a non-zero status. -/
def fails (hasBlob hasUpdate : Bool) (s : CheckpointEngine) (ev : CheckpointEngineEvent) : Bool :=
  !s.rejects ev && (s.call hasBlob hasUpdate ev).any fun r => r.2.contains (.report false)

end CheckpointEngine

/-- The end of a checkpoint that failed: the segments that were dirty when it was started,
those marked dirty while it ran, and those dirty when it is over. -/
structure CheckpointFailure where
  atStart : List Segment
  marked : Segment → Bool
  afterwards : Segment → Bool

namespace CheckpointFailure

/-- **No dirtiness is lost.** -/
def KeepsDirty (e : CheckpointFailure) : Prop :=
  ∀ segment, segment ∈ e.atStart ∨ e.marked segment = true → e.afterwards segment = true

/-- Every segment that was dirty at the start has been marked again. -/
def Remarked (e : CheckpointFailure) : Prop :=
  ∀ segment ∈ e.atStart, e.marked segment = true

instance (e : CheckpointFailure) : Decidable e.KeepsDirty :=
  inferInstanceAs (Decidable (∀ _, _ → _))

instance (e : CheckpointFailure) : Decidable e.Remarked :=
  inferInstanceAs (Decidable (∀ _ ∈ _, _))

end CheckpointFailure

/-- The engine with an account of the marks since the last accepted request and of the
checkpoints that failed. -/
structure DirtyAccount where
  engine : CheckpointEngine
  marked : Segment → Bool
  failures : List CheckpointFailure

namespace DirtyAccount

/-- The marks since the last accepted request, after an event. -/
def marks (s : DirtyAccount) : CheckpointEngineEvent → Segment → Bool
  | .markDirty segment => Function.update s.marked segment true
  | .start _ _ => if s.engine.manager.state = .kIdle then fun _ => false else s.marked
  | _ => s.marked

/-- The failures after an event that leads to `engine`. -/
def failuresAfter (hasBlob hasUpdate : Bool) (s : DirtyAccount) (ev : CheckpointEngineEvent)
    (engine : CheckpointEngine) : List CheckpointFailure :=
  if s.engine.fails hasBlob hasUpdate ev then
    s.failures ++ [⟨engine.history.dirty, s.marks ev, engine.manager.dirtySegments⟩]
  else s.failures

/-- The step of the engine, with the account kept. -/
def step (hasBlob hasUpdate : Bool) (s : DirtyAccount) (ev : CheckpointEngineEvent) :
    Option DirtyAccount :=
  (s.engine.step hasBlob hasUpdate ev).map fun engine =>
    ⟨engine, s.marks ev, s.failuresAfter hasBlob hasUpdate ev engine⟩

/-- An engine that has not started a checkpoint yet. -/
def start (f : CheckpointForeground) (log : AllocLogManager) (fields : CheckpointFields) :
    DirtyAccount :=
  ⟨CheckpointEngine.start f log fields, fun _ => false, []⟩

end DirtyAccount

/-- The engine with the account as a machine. -/
def dirtyMachine (hasBlob hasUpdate : Bool) : Machine DirtyAccount CheckpointEngineEvent where
  step := DirtyAccount.step hasBlob hasUpdate

/-! ### What a step does -/

namespace CheckpointEngine

variable {hasBlob hasUpdate : Bool} {s s' : CheckpointEngine} {ev : CheckpointEngineEvent}

theorem callbackKeepsDirty_io (ioOk again : Bool) :
    IncrementalCheckpoint.CallbackKeepsDirty (s.io hasBlob hasUpdate ioOk again) := by
  intro self
  cases again <;> rfl

/-- The effects of a call leave the dirty segments of the history alone. -/
theorem foldl_effect_dirty (effects : List CheckpointEffect) (s : CheckpointEngine) :
    (effects.foldl effect s).history.dirty = s.history.dirty := by
  induction effects generalizing s with
  | nil => rfl
  | cons e effects ih =>
      rw [List.foldl_cons, ih]
      cases e with
      | serialize segment => rfl
      | updateSuperblock sequence positions => rfl
      | report ok => cases ok <;> rfl

theorem after_dirty (r : IncrementalCheckpoint × List CheckpointEffect) :
    (s.after r).history.dirty = s.history.dirty :=
  foldl_effect_dirty r.2 s

/-- **The bitmap after an event**: an accepted request clears it, a mark sets one bit. -/
theorem dirtySegments_step (hstep : s.step hasBlob hasUpdate ev = some s') :
    s'.manager.dirtySegments = (DirtyAccount.mk s s.manager.dirtySegments []).marks ev := by
  cases ev with
  | start ioOk again =>
      obtain rfl := Option.some.inj hstep
      have hmgr : (CheckpointSystem.setSnapshot s.foreground s.manager).state =
        s.manager.state := rfl
      by_cases hidle : s.manager.state = .kIdle
      · rw [DirtyAccount.marks, if_pos hidle]
        exact IncrementalCheckpoint.dirtySegments_startCheckpoint_idle
          (callbackKeepsDirty_io ioOk again) (hmgr.trans hidle) _
      · rw [DirtyAccount.marks, if_neg hidle]
        exact IncrementalCheckpoint.dirtySegments_startCheckpoint_busy (hmgr.trans_ne hidle) _
  | foreground f =>
      obtain rfl := Option.some.inj hstep
      rfl
  | markDirty segment =>
      obtain rfl := Option.some.inj hstep
      rfl
  | writeEntry a =>
      rw [CheckpointEngine.step] at hstep
      cases hlog : s.allocLog.writeEntry a <;> rw [hlog] at hstep <;>
        obtain rfl := Option.some.inj hstep <;> rfl
  | segmentWritten ok ioOk again =>
      obtain ⟨-, heq⟩ := Option.ite_none_right_eq_some.mp hstep
      obtain rfl := Option.some.inj heq
      exact IncrementalCheckpoint.dirtySegments_onSegmentWritten
        (callbackKeepsDirty_io ioOk again) _ ok
  | synced ok again =>
      obtain ⟨-, heq⟩ := Option.ite_none_right_eq_some.mp hstep
      obtain rfl := Option.some.inj heq
      exact IncrementalCheckpoint.dirtySegments_onSyncComplete
        (callbackKeepsDirty_io true again) _ ok
  | superblockWritten ok again =>
      obtain ⟨-, heq⟩ := Option.ite_none_right_eq_some.mp hstep
      obtain rfl := Option.some.inj heq
      exact IncrementalCheckpoint.dirtySegments_completeCheckpoint
        (callbackKeepsDirty_io true again) _ ok

/-- A checkpoint that fails has found dirty segments. -/
theorem dirty_ne_nil_of_fails (h : Inv hasUpdate s)
    (hstep : s.step hasBlob hasUpdate ev = some s')
    (hfails : s.fails hasBlob hasUpdate ev = true) : s'.history.dirty ≠ [] := by
  cases ev with
  | foreground f | markDirty segment | writeEntry a => cases hfails
  | start ioOk again =>
      obtain rfl := Option.some.inj hstep
      rw [after_dirty]
      obtain ⟨haccepted, hreport⟩ := Bool.and_eq_true_iff.mp hfails
      have hidle : s.manager.state = .kIdle := by
        simpa [rejects] using haccepted
      rw [show s.requested.dirty = _ from congrArg _ (requested_of_idle hidle)]
      -- without a dirty segment the callback gets status 0
      intro hclean
      have hmgr : (CheckpointSystem.setSnapshot s.foreground s.manager).state = .kIdle := hidle
      obtain ⟨m, -, heq⟩ := Going.startCheckpoint_clean (s.io hasBlob hasUpdate ioOk again)
        s.foreground.hasActiveBuffer hmgr hclean
      simp [call, heq] at hreport
  | segmentWritten ok ioOk again =>
      obtain ⟨hst, heq⟩ := Option.ite_none_right_eq_some.mp hstep
      obtain rfl := Option.some.inj heq
      rw [after_dirty]
      exact (h.writing (Or.inl hst)).2.1
  | synced ok again =>
      obtain ⟨hst, heq⟩ := Option.ite_none_right_eq_some.mp hstep
      obtain rfl := Option.some.inj heq
      rw [after_dirty]
      exact (h.writing (Or.inr hst)).2.1
  | superblockWritten ok again =>
      obtain ⟨hst, heq⟩ := Option.ite_none_right_eq_some.mp hstep
      obtain rfl := Option.some.inj heq
      rw [after_dirty]
      exact (h.updating hst).2.1

end CheckpointEngine

/-! ### Runs -/

namespace DirtyAccount

variable {hasBlob hasUpdate : Bool} {s s' : DirtyAccount} {ev : CheckpointEngineEvent}

/-- The invariant: the bitmap holds the marks since the last accepted request, now and
whenever a checkpoint failed, and every checkpoint that failed had something to write. -/
structure Inv (hasUpdate : Bool) (s : DirtyAccount) : Prop where
  engine : s.engine.Inv hasUpdate
  dirty : s.engine.manager.dirtySegments = s.marked
  failures : ∀ e ∈ s.failures, e.afterwards = e.marked ∧ e.atStart ≠ []

/-- **What one step keeps.** -/
theorem Inv.step (h : Inv hasUpdate s) (hstep : s.step hasBlob hasUpdate ev = some s') :
    Inv hasUpdate s' := by
  obtain ⟨engine, hengine, rfl⟩ := Option.map_eq_some_iff.mp hstep
  have hdirty : engine.manager.dirtySegments = s.marks ev := by
    rw [CheckpointEngine.dirtySegments_step hengine, h.dirty]
    cases ev <;> rfl
  refine ⟨h.engine.step hengine, hdirty, fun e he => ?_⟩
  rw [failuresAfter] at he
  split_ifs at he with hfails
  · rcases List.mem_append.mp he with he | he
    · exact h.failures e he
    · obtain rfl := List.mem_singleton.mp he
      exact ⟨hdirty, CheckpointEngine.dirty_ne_nil_of_fails h.engine hengine hfails⟩
  · exact h.failures e he

variable {f : CheckpointForeground} {log : AllocLogManager} {fields : CheckpointFields}
  {events : List CheckpointEngineEvent}

theorem inv_of_run (hrun : (dirtyMachine hasBlob hasUpdate).run (start f log fields) events =
    some s) : Inv hasUpdate s :=
  (dirtyMachine hasBlob hasUpdate).run_invariant_of_step (Inv hasUpdate)
    (fun _ _ _ h hstep => h.step hstep)
    ⟨CheckpointEngine.inv_start f log fields, rfl, fun _ he => absurd he List.not_mem_nil⟩ hrun

/-- **The dirty segments are the ones marked since the last checkpoint was started**, in
every state of every run. -/
theorem dirty_eq_marked (hrun : (dirtyMachine hasBlob hasUpdate).run (start f log fields) events =
    some s) : s.engine.manager.dirtySegments = s.marked :=
  (inv_of_run hrun).dirty

/-- A checkpoint that fails has found dirty segments, so that some have to be marked again. -/
theorem failure_had_dirty (hrun : (dirtyMachine hasBlob hasUpdate).run (start f log fields)
    events = some s) : ∀ e ∈ s.failures, e.atStart ≠ [] :=
  fun e he => ((inv_of_run hrun).failures e he).2

/-- **When a failed checkpoint loses no dirtiness**: every segment that was dirty when it was
started has been marked again while it ran. -/
theorem failed_checkpoint_keeps_dirty_iff
    (hrun : (dirtyMachine hasBlob hasUpdate).run (start f log fields) events = some s) :
    ∀ e ∈ s.failures, e.KeepsDirty ↔ e.Remarked := by
  intro e he
  rw [CheckpointFailure.KeepsDirty, CheckpointFailure.Remarked,
    ((inv_of_run hrun).failures e he).1]
  refine ⟨fun h segment hmem => h segment (Or.inl hmem), fun h segment hmem => ?_⟩
  rcases hmem with hmem | hmarked
  · exact h segment hmem
  · exact hmarked

/-- Page 1 of file 0 is written, and nothing is marked yet. -/
def sample : DirtyAccount :=
  start (CheckpointSystem.samplePosition 1) (.init 0 0 0) ⟨0, [], 0, 0, 0, 0, 0⟩

/-- A mark behind the start stays. -/
theorem dirty_eq_marked_sample :
    ∃ s, (dirtyMachine true true).run sample
        [.markDirty CheckpointSystem.firstSegment, .start true false,
          .markDirty CheckpointSystem.firstSegment] = some s ∧
      s.marked CheckpointSystem.firstSegment = true ∧
      s.engine.manager.dirtySegments = s.marked := by
  have hmark : ((dirtyMachine true true).run sample
      [.markDirty CheckpointSystem.firstSegment, .start true false,
        .markDirty CheckpointSystem.firstSegment]).map
      (fun s => s.marked CheckpointSystem.firstSegment) = some true := by
    decide +kernel
  obtain ⟨s, hs, hmarked⟩ := Option.map_eq_some_iff.mp hmark
  exact ⟨s, hs, hmarked, dirty_eq_marked hs⟩

/-- The segment is marked again while its write is pending, which fails. -/
theorem failed_checkpoint_keeps_dirty_sample :
    ∃ s, (dirtyMachine true true).run sample
        [.markDirty CheckpointSystem.firstSegment, .start true false,
          .markDirty CheckpointSystem.firstSegment, .segmentWritten false true false] = some s ∧
      s.failures.length = 1 ∧ ∀ e ∈ s.failures, e.KeepsDirty := by
  have hlen : ((dirtyMachine true true).run sample
      [.markDirty CheckpointSystem.firstSegment, .start true false,
        .markDirty CheckpointSystem.firstSegment, .segmentWritten false true false]).map
      (fun s => (s.failures.length, s.failures.all fun e => e.Remarked)) = some (1, true) := by
    decide +kernel
  obtain ⟨s, hs, heq⟩ := Option.map_eq_some_iff.mp hlen
  obtain ⟨hone, hall⟩ := Prod.ext_iff.mp heq
  refine ⟨s, hs, hone, fun e he => (failed_checkpoint_keeps_dirty_iff hs e he).mpr ?_⟩
  exact of_decide_eq_true (List.all_eq_true.mp hall e he)

/-- **A failed segment write loses the mark**: the segment is no longer dirty, and the next
checkpoint reports success without writing it. -/
theorem failed_write_loses_dirty :
    ((dirtyMachine true true).run sample
      [.markDirty CheckpointSystem.firstSegment, .start true false,
        .segmentWritten false true false, .start true false]).map
      (fun s => (s.failures.map fun e => decide e.KeepsDirty, s.engine.reports.length)) =
      some ([false], 1) := by
  decide +kernel

end DirtyAccount

end SpdkKv
