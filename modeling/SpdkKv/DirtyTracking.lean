import SpdkKv.CheckpointFailure
import SpdkKv.Migration
import SpdkKv.UpsertSpec

/-!
# Dirty Tracking

An incremental checkpoint writes the dirty segments only, so every change of an index slot
has to be accompanied by a `mark_dirty`. No caller in the engine does so: the index changes
through `upsert`, `remove` and the pointers that `find` returns, and the bitmap of the
checkpoint manager stays as the constructor left it.

## Main results

* `Unmarked.step`: **no event of the engine marks a segment or lets a checkpoint write one**.
* `tracksDirty_iff`: every changed slot is accounted for only while no slot has changed.
* `dirty_tracking_complete_iff`: **in which runs dirty tracking is complete**.
-/

namespace SpdkKv

/-! ### The index and its segments -/

/-- What changes the index in the engine. -/
inductive IndexMutation
  /-- The completion of a put, an overwrite, or a queued write. -/
  | upsert (key : UInt64) (entry : MemIndexEntry)
  /-- The completion of a delete. -/
  | remove (key : UInt64)
  /-- `update_indices` of a compaction. -/
  | updateIndices (migrated : List MigratedEntry)
  /-- `revert_index_update` of a compaction that is rolled back. -/
  | revertIndexUpdate (update : MigratedEntry)

namespace MemIndex

variable {n : ℕ}

/-- The contents of a slot. -/
def slot (m : MemIndex n) (i : Fin (2 ^ n)) : MemIndexEntry × ℕ := (m.entries i, m.psl i)

/-- The index after a mutation. -/
def mutate (m : MemIndex n) : IndexMutation → MemIndex n
  | .upsert key entry => (m.upsert key entry).1
  | .remove key => (m.remove key).1
  | .updateIndices migrated => m.updateIndices migrated
  | .revertIndexUpdate update => m.revertIndexUpdate update

end MemIndex

/-- The segment that `mark_dirty` computes for a slot. Eighty does not divide the capacity, so
that the last slots lie in no segment. -/
def segmentOf (n : ℕ) (i : Fin (2 ^ n)) : Option Segment :=
  let entriesPerSegment := 2 ^ n / kMemIndexSegmentCount
  if h : 0 < entriesPerSegment ∧ i.val / entriesPerSegment < kMemIndexSegmentCount then
    some ⟨i.val / entriesPerSegment, h.2⟩
  else none

/-- The segment is pending in a running checkpoint that has not serialised it yet. -/
def IncrementalCheckpoint.Unserialized (self : IncrementalCheckpoint) (segment : Segment) :
    Prop :=
  self.state ≠ .kIdle ∧ segment ∈ self.pendingSegments.drop (self.currentSegmentIdx + 1)

/-! ### The system -/

/-- The index, the engine around the checkpoint manager, the slots as the running checkpoint
has serialised them so far, and as they were last serialised by a successful checkpoint. -/
structure TrackedIndex (n : ℕ) where
  index : MemIndex n
  engine : CheckpointEngine
  serializing : Fin (2 ^ n) → MemIndexEntry × ℕ
  serialized : Fin (2 ^ n) → MemIndexEntry × ℕ

/-- What can happen. -/
inductive TrackedEvent (n : ℕ)
  /-- The engine changes the index. -/
  | mutate (op : IndexMutation)
  /-- An event of the checkpoint other than a mark. -/
  | checkpoint (ev : CheckpointEngineEvent)
  /-- The engine is opened again, with the index that the recovery yields. -/
  | opened (recovered : MemIndex n) (f : CheckpointForeground) (log : AllocLogManager)
      (fields : CheckpointFields)

/-- The event is a call of `mark_dirty`. -/
def CheckpointEngineEvent.isMark : CheckpointEngineEvent → Bool
  | .markDirty _ => true
  | _ => false

namespace TrackedIndex

variable {n : ℕ}

/-- What an effect of the checkpoint means for the serialised slots. -/
def effect (s : TrackedIndex n) : CheckpointEffect → TrackedIndex n
  | .serialize segment =>
      { s with serializing := fun i =>
          if segmentOf n i = some segment then s.index.slot i else s.serializing i }
  | .updateSuperblock _ _ => s
  | .report true => { s with serialized := s.serializing }
  | .report false => { s with serializing := s.serialized }

/-- The effects of an event of the checkpoint; a rejected request has none. -/
def effects (hasBlob hasUpdate : Bool) (s : TrackedIndex n) (ev : CheckpointEngineEvent) :
    List CheckpointEffect :=
  if s.engine.rejects ev then [] else ((s.engine.call hasBlob hasUpdate ev).map Prod.snd).getD []

/-- The step of an event. The engine has no call of `mark_dirty`. -/
def step (hasBlob hasUpdate : Bool) (s : TrackedIndex n) :
    TrackedEvent n → Option (TrackedIndex n)
  | .mutate op => some { s with index := s.index.mutate op }
  | .checkpoint ev =>
      if ev.isMark then none
      else (s.engine.step hasBlob hasUpdate ev).map fun engine =>
        { (s.effects hasBlob hasUpdate ev).foldl effect s with engine := engine }
  | .opened recovered f log fields =>
      some ⟨recovered, CheckpointEngine.start f log fields, s.serialized, s.serialized⟩

/-- An engine that has just been created: nothing is serialised but the empty table. -/
def created (n : ℕ) (f : CheckpointForeground) (log : AllocLogManager)
    (fields : CheckpointFields) : TrackedIndex n :=
  ⟨MemIndex.fresh n, CheckpointEngine.start f log fields, (MemIndex.fresh n).slot,
    (MemIndex.fresh n).slot⟩

/-- **Dirty tracking is complete**: the segment of every slot that differs from what was last
serialised by a successful checkpoint is dirty, or pending and not yet serialised. -/
def TracksDirty (s : TrackedIndex n) : Prop :=
  ∀ i, s.index.slot i ≠ s.serialized i → ∃ segment, segmentOf n i = some segment ∧
    (s.engine.manager.dirtySegments segment = true ∨ s.engine.manager.Unserialized segment)

/-- The event leaves every slot of the index as it is. -/
def LeavesSlots (s : TrackedIndex n) : TrackedEvent n → Prop
  | .mutate op => ∀ i, (s.index.mutate op).slot i = s.index.slot i
  | .checkpoint _ => True
  | .opened recovered _ _ _ => ∀ i, recovered.slot i = s.index.slot i

end TrackedIndex

/-- The index with its checkpoints as a machine. -/
def trackedMachine (n : ℕ) (hasBlob hasUpdate : Bool) :
    Machine (TrackedIndex n) (TrackedEvent n) where
  step := TrackedIndex.step hasBlob hasUpdate

/-! ### What a step does -/

namespace TrackedIndex

variable {n : ℕ} {hasBlob hasUpdate : Bool} {s s' : TrackedIndex n} {ev : TrackedEvent n}

/-- The invariant: no checkpoint is running, no segment is dirty, and what is serialised is
the empty table. -/
structure Unmarked (s : TrackedIndex n) : Prop where
  idle : s.engine.manager.state = .kIdle
  clean : s.engine.manager.dirtySegments = fun _ => false
  serializing : s.serializing = (MemIndex.fresh n).slot
  serialized : s.serialized = (MemIndex.fresh n).slot

/-- A request finds nothing to write and reports success at once. -/
theorem call_start (hasBlob hasUpdate : Bool) (h : s.Unmarked) (ioOk again : Bool) :
    ∃ m : IncrementalCheckpoint, m.state = .kIdle ∧
      s.engine.call hasBlob hasUpdate (.start ioOk again) = some (m, [.report true]) := by
  have hclean : Going.pending (CheckpointSystem.setSnapshot s.engine.foreground
      s.engine.manager) = [] := by
    have hdirty : (CheckpointSystem.setSnapshot s.engine.foreground
        s.engine.manager).dirtySegments = fun _ => false := h.clean
    rw [Going.pending, hdirty]
    exact List.filter_false _
  obtain ⟨m, hm, heq⟩ := Going.startCheckpoint_clean
    (s.engine.io hasBlob hasUpdate ioOk again) s.engine.foreground.hasActiveBuffer
    (show (CheckpointSystem.setSnapshot _ s.engine.manager).state = _ from h.idle) hclean
  exact ⟨m, hm, congrArg some heq⟩

/-- An event of the checkpoint that is enabled leaves the manager idle and has no effect but
the report of success. -/
theorem Unmarked.engine_step (h : s.Unmarked) {cev : CheckpointEngineEvent}
    {engine : CheckpointEngine} (hmark : ¬ cev.isMark = true)
    (hstep : s.engine.step hasBlob hasUpdate cev = some engine) :
    engine.manager.state = .kIdle ∧ (s.effects hasBlob hasUpdate cev = [] ∨
      s.effects hasBlob hasUpdate cev = [.report true]) := by
  cases cev with
  | markDirty segment => exact absurd rfl hmark
  | foreground f =>
      obtain rfl := Option.some.inj hstep
      exact ⟨h.idle, Or.inl rfl⟩
  | writeEntry a =>
      rw [CheckpointEngine.step] at hstep
      cases hlog : s.engine.allocLog.writeEntry a <;> rw [hlog] at hstep <;>
        obtain rfl := Option.some.inj hstep <;> exact ⟨h.idle, Or.inl rfl⟩
  | start ioOk again =>
      obtain ⟨m, hm, hcall⟩ := call_start hasBlob hasUpdate h ioOk again
      obtain rfl := Option.some.inj hstep
      refine ⟨(congrArg (fun r => r.1.state) (Option.some.inj hcall)).trans hm, Or.inr ?_⟩
      have haccepted : ¬ s.engine.rejects (.start ioOk again) = true := by
        simp [CheckpointEngine.rejects, h.idle]
      rw [effects, if_neg haccepted, hcall]
      rfl
  | segmentWritten ok ioOk again =>
      obtain ⟨hst, -⟩ := Option.ite_none_right_eq_some.mp hstep
      cases h.idle.symm.trans hst
  | synced ok again =>
      obtain ⟨hst, -⟩ := Option.ite_none_right_eq_some.mp hstep
      cases h.idle.symm.trans hst
  | superblockWritten ok again =>
      obtain ⟨hst, -⟩ := Option.ite_none_right_eq_some.mp hstep
      cases h.idle.symm.trans hst

/-- **No event of the engine marks a segment or lets a checkpoint write one.** -/
theorem Unmarked.step (h : s.Unmarked) (hstep : s.step hasBlob hasUpdate ev = some s') :
    s'.Unmarked := by
  cases ev with
  | mutate op =>
      obtain rfl := Option.some.inj hstep
      exact ⟨h.idle, h.clean, h.serializing, h.serialized⟩
  | opened recovered f log fields =>
      obtain rfl := Option.some.inj hstep
      exact ⟨rfl, rfl, h.serialized, h.serialized⟩
  | checkpoint cev =>
      obtain ⟨hmark, heq⟩ := Option.ite_none_left_eq_some.mp hstep
      obtain ⟨engine, hengine, rfl⟩ := Option.map_eq_some_iff.mp heq
      obtain ⟨hidle, heffects⟩ := h.engine_step hmark hengine
      have hclean : engine.manager.dirtySegments = fun _ => false := by
        rw [CheckpointEngine.dirtySegments_step hengine, h.clean]
        cases cev with
        | markDirty segment => exact absurd rfl hmark
        | start ioOk again => rw [DirtyAccount.marks, if_pos h.idle]
        | _ => rfl
      rcases heffects with heffects | heffects <;> rw [heffects]
      · exact ⟨hidle, hclean, h.serializing, h.serialized⟩
      · exact ⟨hidle, hclean, h.serializing, h.serializing⟩

theorem unmarked_created (f : CheckpointForeground) (log : AllocLogManager)
    (fields : CheckpointFields) : (created n f log fields).Unmarked := ⟨rfl, rfl, rfl, rfl⟩

/-- Every changed slot is accounted for only while no slot has changed. -/
theorem Unmarked.tracksDirty_iff (h : s.Unmarked) :
    s.TracksDirty ↔ s.index.slot = (MemIndex.fresh n).slot := by
  refine ⟨fun htracks => funext fun i => ?_, fun heq i hne => ?_⟩
  · by_contra hne
    obtain ⟨segment, -, hdirty | hpending⟩ := htracks i (by rwa [h.serialized])
    · rw [h.clean] at hdirty
      exact absurd hdirty Bool.false_ne_true
    · exact hpending.1 h.idle
  · exact absurd (by rw [heq, h.serialized]) hne

/-- A slot that has been used is not accounted for. -/
theorem Unmarked.not_tracksDirty (h : s.Unmarked) {i : Fin (2 ^ n)} (hused : s.index.psl i ≠ 0) :
    ¬ s.TracksDirty := fun htracks =>
  hused (congrArg Prod.snd (congrFun (h.tracksDirty_iff.mp htracks) i))

/-- A step between two states of which the first has the empty table leads to the empty table
exactly when it leaves the slots. -/
theorem Unmarked.step_tracksDirty_iff (h : s.Unmarked) (htracks : s.TracksDirty)
    (hstep : s.step hasBlob hasUpdate ev = some s') : s'.TracksDirty ↔ s.LeavesSlots ev := by
  rw [(h.step hstep).tracksDirty_iff, ← h.tracksDirty_iff.mp htracks]
  cases ev with
  | mutate op =>
      obtain rfl := Option.some.inj hstep
      exact funext_iff
  | opened recovered f log fields =>
      obtain rfl := Option.some.inj hstep
      exact funext_iff
  | checkpoint cev =>
      obtain ⟨hmark, heq⟩ := Option.ite_none_left_eq_some.mp hstep
      obtain ⟨engine, hengine, rfl⟩ := Option.map_eq_some_iff.mp heq
      refine iff_of_true ?_ trivial
      rcases (h.engine_step hmark hengine).2 with heffects | heffects <;> rw [heffects] <;> rfl

/-! ### Runs -/

theorem unmarked_of_run {f : CheckpointForeground} {log : AllocLogManager}
    {fields : CheckpointFields} {events : List (TrackedEvent n)}
    (hrun : (trackedMachine n hasBlob hasUpdate).run (created n f log fields) events = some s) :
    s.Unmarked :=
  (trackedMachine n hasBlob hasUpdate).run_invariant_of_step Unmarked
    (fun _ _ _ h hstep => h.step hstep) (unmarked_created f log fields) hrun

/-- **In which runs dirty tracking is complete**: it is in every state that a run of a created
engine passes through exactly when no step of the run changes an index slot. -/
theorem dirty_tracking_complete_iff (f : CheckpointForeground) (log : AllocLogManager)
    (fields : CheckpointFields) (events : List (TrackedEvent n)) :
    (trackedMachine n hasBlob hasUpdate).Always TracksDirty (created n f log fields) events ↔
      (trackedMachine n hasBlob hasUpdate).Meets LeavesSlots (created n f log fields) events := by
  refine Machine.always_iff_meets _ (fun s ev s' h hstep => h.step hstep)
    (fun s ev s' h htracks hstep => h.step_tracksDirty_iff htracks hstep) ?_
    (unmarked_created f log fields) ((unmarked_created f log fields).tracksDirty_iff.mpr rfl)
  intro s ev hstep
  cases ev with
  | checkpoint cev => trivial
  | mutate op => exact nomatch hstep
  | opened recovered f log fields => exact nomatch hstep

/-- The first write into an empty table. -/
theorem psl_upsert_fresh (key : UInt64) (entry : MemIndexEntry) :
    ((MemIndex.fresh n).upsert key entry).1.psl (MemIndex.home n key) = 1 := by
  rw [MemIndex.upsert_fresh]
  exact Function.update_self _ _ _

/-- The first put of an engine is not tracked. -/
theorem exists_not_tracksDirty_first_put (n : ℕ) (hasBlob hasUpdate : Bool)
    (f : CheckpointForeground) (log : AllocLogManager) (fields : CheckpointFields) (key : UInt64)
    (entry : MemIndexEntry) :
    ∃ s, (trackedMachine n hasBlob hasUpdate).run (created n f log fields)
      [.mutate (.upsert key entry)] = some s ∧ ¬ s.TracksDirty := by
  have hrun : (trackedMachine n hasBlob hasUpdate).run (created n f log fields)
      [.mutate (.upsert key entry)] =
        some { created n f log fields with index := ((MemIndex.fresh n).upsert key entry).1 } := rfl
  refine ⟨_, hrun, (unmarked_of_run hrun).not_tracksDirty (i := MemIndex.home n key) ?_⟩
  exact (psl_upsert_fresh key entry).trans_ne Nat.one_ne_zero

/-- **The first put is not tracked**: after it no segment is dirty. -/
theorem first_put_is_untracked :
    ∃ s, (trackedMachine 10 true true).run
        (created 10 (CheckpointSystem.samplePosition 1) (.init 0 0 0) ⟨0, [], 0, 0, 0, 0, 0⟩)
        [.mutate (.upsert 1 ⟨1, 0, 1, false, 1, 1, 0⟩)] = some s ∧ ¬ s.TracksDirty :=
  exists_not_tracksDirty_first_put _ _ _ _ _ _ _ _

end TrackedIndex

end SpdkKv
