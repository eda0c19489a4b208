import SpdkKv.BufferOwners

/-!
# Where Requests Wait

Until its callback is called a write waits in one of the queues, in an append buffer or for its
IO. Every event of the engine accounts for the writes, keeps the buffers with records in use and
counts the IOs in flight.

## Main results

* `EngineSystem.conserved_step`: **no event loses a write or reports it twice**.
* `EngineSystem.Kept.step`: every event keeps the buffers and the count.
-/

namespace SpdkKv

variable {n : ℕ}

/-! ### What an event does to writes -/

namespace EngineSystem

variable {s s' : EngineSystem n}

/-- What an event does to the asynchronous writes. -/
def effects (s : EngineSystem n) : EngineEvent n → List WriteEffect
  | .async ev => ((s.engine.step ev).map Prod.snd).getD []
  | .wake false =>
      match s.stack with
      | .allocating _ (.buffer buffer) :: _ => (s.engine.failBuffer buffer).2
      | _ => []
  | _ => []

/-- The event neither opens nor closes the engine. -/
def isOperation : EngineEvent n → Bool
  | .close _ => false
  | .reopen _ _ => false
  | _ => true

/-- The writes under way after a change, with those that it began, completed and failed. -/
def Conserves (a : Engine n) (effs : List WriteEffect) (b : Engine n) : Prop :=
  a.pending + ↑(issuedOps effs) =
    b.pending + ↑((completedWrites effs).map CompletedWrite.op) + ↑(failedOps effs)

theorem conserves_of_eq {a b : Engine n} (h : b.pending = a.pending) : Conserves a [] b := by
  simp [Conserves, issuedOps, completedWrites, failedOps, h]

theorem pending_allocateNewFile (s : EngineSystem n) (caller : AllocCaller) :
    (s.allocateNewFile caller).engine.pending = s.engine.pending := by
  rw [allocateNewFile]
  split_ifs <;> rfl

theorem pending_sealAndAllocate (s : EngineSystem n) (caller : AllocCaller) :
    (s.sealAndAllocate caller).engine.pending = s.engine.pending :=
  (pending_allocateNewFile { s with engine := s.engine.sealActiveFile } caller).trans
    s.engine.sealActiveFile_pending

theorem pending_submitBufferTo (e : Engine n) (i buffer : ℕ) :
    (e.submitBufferTo i buffer).pending = e.pending :=
  (e.submitAt_pending _ _ _).trans (add_zero _)

theorem pending_callSync (s : EngineSystem n) (r : Except KvError SyncRequest) :
    (s.callSync r).engine.pending = s.engine.pending := by
  cases r with
  | error error => rfl
  | ok r =>
      rw [callSync]
      split
      · rfl
      · exact s.pending_sealAndAllocate _

theorem pending_callSubmitBuffer (s : EngineSystem n) :
    s.callSubmitBuffer.engine.pending = s.engine.pending := by
  rw [callSubmitBuffer]
  split
  · rfl
  · next buffer rest _ =>
      dsimp only
      split_ifs
      · rfl
      · split
        · exact (pending_submitBufferTo _ _ _).trans rfl
        · exact (pending_sealAndAllocate { s with engine := s.engine.takeBuffer rest } _).trans rfl

theorem pending_useFile (s : EngineSystem n) (i : ℕ) (caller : AllocCaller) :
    (s.useFile i caller).engine.pending = s.engine.pending := by
  cases caller with
  | sync r => rfl
  | buffer buffer => exact (pending_submitBufferTo _ _ _).trans rfl
  | compaction source => rfl

theorem pending_endSync (e : Engine n) (w : SyncWrite) (ok : Bool) :
    (e.endSync w ok).1.pending = e.pending := by
  rw [Engine.endSync]
  split_ifs
  · rfl
  · exact e.completePut_pending w.req.key (Engine.entryFor w.file w.req)
  · rfl

/-- The innermost call goes on. -/
theorem conserves_wake {ok : Bool} (hs : s.wake ok = some s') :
    Conserves s.engine (s.effects (.wake ok)) s'.engine := by
  have hquiet : s.effects (.wake ok) = [] → s'.engine.pending = s.engine.pending →
      Conserves s.engine (s.effects (.wake ok)) s'.engine :=
    fun hnone hp => hnone ▸ conserves_of_eq hp
  rw [wake] at hs
  split at hs
  · cases hs
  · next caller rest hstack =>
      obtain rfl := Option.some.inj hs
      refine hquiet ?_ rfl
      cases ok <;> simp [effects, hstack]
  · next i caller rest hstack =>
      cases ok with
      | true =>
          obtain rfl := Option.some.inj hs
          exact hquiet rfl ((pending_useFile _ i caller).trans rfl)
      | false =>
          obtain rfl := Option.some.inj hs
          cases caller with
          | sync r => exact hquiet (by simp [effects, hstack]) rfl
          | compaction source => exact hquiet (by simp [effects, hstack]) rfl
          | buffer buffer =>
              have heffects : s.effects (.wake false) = (s.engine.failBuffer buffer).2 := by
                simp [effects, hstack]
              rw [heffects]
              exact (s.engine.does_failBuffer buffer).conserved
  · next w rest hstack =>
      obtain ⟨-, hs⟩ := Option.ite_none_left_eq_some.mp hs
      obtain rfl := Option.some.inj hs
      refine hquiet ?_ (pending_endSync _ _ _)
      cases ok <;> simp [effects, hstack]

/-- **Every event accounts for the writes.** -/
theorem conserved_step {ev : EngineEvent n} (hev : isOperation ev = true)
    (hs : s.step ev = some s') : Conserves s.engine (s.effects ev) s'.engine := by
  cases ev with
  | async ev =>
      obtain ⟨-, r, hr, rfl⟩ := step_async hs
      rw [effects, hr]
      exact (Engine.does_step hr).conserved
  | put key valueLen =>
      obtain rfl := Option.some.inj hs
      exact conserves_of_eq (s.pending_callSync _)
  | del key =>
      obtain rfl := Option.some.inj hs
      exact conserves_of_eq (s.pending_callSync _)
  | submitBuffer =>
      obtain rfl := Option.some.inj hs
      exact conserves_of_eq s.pending_callSubmitBuffer
  | compact source =>
      obtain ⟨-, hs⟩ := Option.ite_none_right_eq_some.mp hs
      obtain rfl := Option.some.inj hs
      exact conserves_of_eq (s.pending_allocateNewFile _)
  | wake ok => exact conserves_wake hs
  | markSource k compacting =>
      obtain ⟨run, -, rfl⟩ := Option.map_eq_some_iff.mp hs
      exact conserves_of_eq rfl
  | migrate k size ok =>
      obtain ⟨run, -, hs⟩ := Option.bind_eq_some_iff.mp hs
      dsimp only at hs
      split_ifs at hs
      · obtain rfl := Option.some.inj hs
        exact conserves_of_eq rfl
      · obtain rfl := Option.some.inj hs
        exact conserves_of_eq rfl
  | discard k =>
      obtain ⟨run, -, rfl⟩ := Option.map_eq_some_iff.mp hs
      exact conserves_of_eq rfl
  | startCheckpoint =>
      obtain rfl := Option.some.inj hs
      exact conserves_of_eq rfl
  | updateSuperblock =>
      obtain rfl := Option.some.inj hs
      exact conserves_of_eq rfl
  | superblockWritten ok =>
      obtain ⟨sb, -, rfl⟩ := Option.map_eq_some_iff.mp hs
      exact conserves_of_eq rfl
  | close _ | reopen _ _ => cases hev

/-! ### What an event does to buffers -/

/-- Buffers that hold records are in use, and the IOs are counted. -/
def Kept (s : EngineSystem n) (reads : ℕ) : Prop :=
  s.engine.Kept (waitingBuffers s.stack) reads

/-- A caller that holds no buffer. -/
theorem kept_toList_none {e : Engine n} {o : Option ℕ} (ho : o = none) {out : Multiset ℕ}
    {reads : ℕ} : e.Kept (out + ↑o.toList) reads ↔ e.Kept out reads := by
  rw [ho, Option.toList_none, Multiset.coe_nil, add_zero]

namespace Kept

variable {reads : ℕ}

/-- The state after `create`. -/
theorem created (index : MemIndex n) (dataFileSize bufferCount blobPages : ℕ) :
    (EngineSystem.created index dataFileSize bufferCount blobPages).Kept 0 :=
  ⟨.init bufferCount, .nil, rfl⟩

/-- The state after `open`. -/
theorem reopened (s : EngineSystem n) (recovered : MemIndex n) (logged : List (ℕ × ℕ)) :
    (s.reopened recovered logged).Kept 0 := by
  have hinflight : (s.reopened recovered logged).engine.space.inflight = [] :=
    FileSpace.reopened_inflight _ _ _ _
  refine ⟨?_, .nil, ?_⟩
  · rw [Engine.inflightBuffers, hinflight]
    exact .init kMinBufferCount
  · rw [hinflight]
    rfl

/-- `allocate_new_file` is called, perhaps for a buffer that is out. -/
theorem allocateNewFile {caller : AllocCaller}
    (h : s.engine.Kept (waitingBuffers s.stack + ↑caller.buffer?.toList) reads) :
    (s.allocateNewFile caller).Kept reads := by
  rw [EngineSystem.allocateNewFile]
  split_ifs
  · rw [Kept, waitingBuffers_cons]
    exact h
  · rw [Kept, addNewFile, waitingBuffers_cons]
    exact h.moves (Engine.moves_space rfl)

theorem sealAndAllocate {caller : AllocCaller}
    (h : s.engine.Kept (waitingBuffers s.stack + ↑caller.buffer?.toList) reads) :
    (s.sealAndAllocate caller).Kept reads :=
  allocateNewFile (h.moves s.engine.moves_sealActiveFile)

/-- A record of `put` or `del` is submitted. -/
theorem startSync (h : s.Kept reads) (i : ℕ) (r : SyncRequest) : (s.startSync i r).Kept reads := by
  rw [Kept, EngineSystem.startSync]
  dsimp only
  rw [waitingBuffers_cons]
  exact (kept_toList_none rfl).mpr (h.moves s.engine.moves_allocateSequence)

theorem callSync (h : s.Kept reads) (r : Except KvError SyncRequest) :
    (s.callSync r).Kept reads := by
  cases r with
  | error error => exact h
  | ok r =>
      rw [EngineSystem.callSync]
      split
      · exact h.startSync _ r
      · exact sealAndAllocate ((kept_toList_none rfl).mpr h)

theorem callSubmitBuffer (h : s.Kept reads) : s.callSubmitBuffer.Kept reads := by
  rw [EngineSystem.callSubmitBuffer]
  split
  · exact h
  · next b rest hring =>
      have htake := h.takeBuffer hring
      dsimp only
      split_ifs with hused
      · exact htake.forget hused
      · split
        · exact htake.submitBufferTo _
        · exact sealAndAllocate htake

theorem useFile {caller : AllocCaller} (i : ℕ)
    (h : s.engine.Kept (waitingBuffers s.stack + ↑caller.buffer?.toList) reads) :
    (s.useFile i caller).Kept reads := by
  have hactive : Engine.Kept { s.engine with space := s.engine.space.activate i }
      (waitingBuffers s.stack + ↑caller.buffer?.toList) reads := h.moves (Engine.moves_space rfl)
  cases caller with
  | sync r =>
      have hs : Kept { s with engine := { s.engine with
          space := s.engine.space.activate i } } reads := (kept_toList_none rfl).mp hactive
      exact hs.startSync i r
  | buffer b => exact hactive.submitBufferTo i
  | compaction source => exact (kept_toList_none (e := s.engine) rfl).mp h

theorem handleNoSpace {caller : AllocCaller}
    (h : s.engine.Kept (waitingBuffers s.stack + ↑caller.buffer?.toList) reads) :
    (s.handleNoSpace caller).Kept reads := by
  cases caller with
  | buffer b => exact h.releaseBuffer
  | sync r => exact (kept_toList_none (e := s.engine) rfl).mp h
  | compaction source => exact (kept_toList_none (e := s.engine) rfl).mp h

theorem endSync {e : Engine n} {out : Multiset ℕ} (h : e.Kept out reads) (w : SyncWrite)
    (ok : Bool) : (e.endSync w ok).1.Kept out reads := by
  rw [Engine.endSync]
  split_ifs
  · exact (h.completeDelete w.req.key w.req.oldGarbageSize).congr rfl rfl rfl rfl
  · exact (h.completePut w.req.key (Engine.entryFor w.file w.req)).congr rfl rfl rfl rfl
  · exact h

/-- The innermost call goes on. -/
theorem wake (h : s.Kept reads) {ok : Bool} (hs : s.wake ok = some s') : s'.Kept reads := by
  have hengine : ∀ {frame : Frame} {rest : List Frame}, s.stack = frame :: rest →
      s.engine.Kept (waitingBuffers rest + ↑frame.buffer?.toList) reads := fun hstack => by
    rw [← waitingBuffers_cons, ← hstack]
    exact h
  rw [EngineSystem.wake] at hs
  split at hs
  · cases hs
  · next caller rest hstack =>
      obtain rfl := Option.some.inj hs
      rw [Kept, addNewFile, waitingBuffers_cons]
      exact (hengine hstack).moves (Engine.moves_space rfl)
  · next i caller rest hstack =>
      cases ok with
      | true =>
          obtain rfl := Option.some.inj hs
          exact useFile i ((hengine hstack).moves (Engine.moves_space rfl))
      | false =>
          obtain rfl := Option.some.inj hs
          exact handleNoSpace ((hengine hstack).moves (Engine.moves_space rfl))
  · next w rest hstack =>
      obtain ⟨-, hs⟩ := Option.ite_none_left_eq_some.mp hs
      obtain rfl := Option.some.inj hs
      exact endSync ((kept_toList_none rfl).mp (hengine hstack)) w ok

/-- **Every event keeps the buffers and counts the IOs.** -/
theorem step (h : s.Kept reads) {ev : EngineEvent n} (hev : isOperation ev = true)
    (hs : s.step ev = some s') : s'.Kept reads := by
  cases ev with
  | async ev =>
      obtain ⟨hcan, r, hr, rfl⟩ := step_async hs
      refine Engine.Kept.step h ?_ hr
      rintro allocOk rfl
      cases hcan
  | put key valueLen =>
      obtain rfl := Option.some.inj hs
      exact h.callSync _
  | del key =>
      obtain rfl := Option.some.inj hs
      exact h.callSync _
  | submitBuffer =>
      obtain rfl := Option.some.inj hs
      exact h.callSubmitBuffer
  | compact source =>
      obtain ⟨-, hs⟩ := Option.ite_none_right_eq_some.mp hs
      obtain rfl := Option.some.inj hs
      exact allocateNewFile ((kept_toList_none rfl).mpr h)
  | wake ok => exact h.wake hs
  | markSource k compacting =>
      obtain ⟨run, -, rfl⟩ := Option.map_eq_some_iff.mp hs
      exact h.congr rfl rfl rfl rfl
  | migrate k size ok =>
      obtain ⟨run, -, hs⟩ := Option.bind_eq_some_iff.mp hs
      dsimp only at hs
      split_ifs at hs
      · obtain rfl := Option.some.inj hs
        exact h.congr rfl rfl rfl rfl
      · obtain rfl := Option.some.inj hs
        exact h
  | discard k =>
      obtain ⟨run, -, rfl⟩ := Option.map_eq_some_iff.mp hs
      exact h.congr rfl rfl rfl rfl
  | startCheckpoint =>
      obtain rfl := Option.some.inj hs
      exact h
  | updateSuperblock =>
      obtain rfl := Option.some.inj hs
      exact h.congr rfl rfl rfl rfl
  | superblockWritten ok =>
      obtain ⟨sb, -, rfl⟩ := Option.map_eq_some_iff.mp hs
      exact h
  | close _ | reopen _ _ => cases hev

end Kept

end EngineSystem

end SpdkKv
