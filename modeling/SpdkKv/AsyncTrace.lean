import Mathlib.Algebra.Order.Group.Multiset
import Mathlib.Data.Multiset.AddSub
import Mathlib.Tactic.Abel
import SpdkKv.AsyncEngine

/-!
# What Asynchronous Writes Do

The effects of the methods of the engine, collected over a run, say everything about the
index: it is the result of replaying them. No operation is lost and none is completed twice:
the operations that got a sequence are, at every time, those under way, those that completed
and those that failed.

## Main results

* `Engine.Does`: what it means that a list of effects accounts for a change of the engine.
* `Engine.does_step`: **every event is accounted for by its effects**.
* `AsyncSystem.does_run`: so is every run.
-/

namespace SpdkKv

variable {n : ℕ}

/-! ### Effects -/

/-- The operations that got their sequence. -/
def issuedOps (effs : List WriteEffect) : List WriteOp :=
  effs.filterMap fun
    | .issued op => some op
    | _ => none

/-- The operations that completed, in the order of their completion. -/
def completedWrites (effs : List WriteEffect) : List CompletedWrite :=
  effs.filterMap fun
    | .completed c => some c
    | _ => none

/-- The operations that failed. -/
def failedOps (effs : List WriteEffect) : List WriteOp :=
  effs.filterMap fun
    | .failed op => some op
    | _ => none

/-- The change of the index that an effect stands for. -/
def MemIndex.applyEffect (m : MemIndex n) : WriteEffect → MemIndex n
  | .issued _ => m.allocateSequence.1
  | .completed c => m.applyOp c.call
  | .failed _ => m

/-- Every operation gets the sequence after the last one. -/
def Sequenced : UInt32 → List WriteEffect → Prop
  | _, [] => True
  | g, .issued op :: effs => op.sequence = g + 1 ∧ Sequenced (g + 1) effs
  | g, .completed _ :: effs => Sequenced g effs
  | g, .failed _ :: effs => Sequenced g effs

@[simp] theorem issuedOps_append (a b : List WriteEffect) :
    issuedOps (a ++ b) = issuedOps a ++ issuedOps b := List.filterMap_append

@[simp] theorem completedWrites_append (a b : List WriteEffect) :
    completedWrites (a ++ b) = completedWrites a ++ completedWrites b := List.filterMap_append

@[simp] theorem failedOps_append (a b : List WriteEffect) :
    failedOps (a ++ b) = failedOps a ++ failedOps b := List.filterMap_append

/-! ### Sequences -/

/-- The calls to the index leave the counter of sequences alone. -/
theorem MemIndex.globalSequence_upsert (m : MemIndex n) (key : UInt64) (e : MemIndexEntry) :
    (m.upsert key e).1.globalSequence = m.globalSequence := by
  rw [MemIndex.upsert]
  refine Loop.run_induction _
    (fun s : MemIndex.UpsertState n => s.table.globalSequence = m.globalSequence)
    (fun r : MemIndex n × Bool => r.1.globalSequence = m.globalSequence) ?_ rfl
  intro s hs
  change Sum.elim _ _ (MemIndex.upsertBody key s)
  rw [MemIndex.upsertBody]
  have hprobe : Sum.elim (fun s' : MemIndex.UpsertState n =>
      s'.table.globalSequence = m.globalSequence)
      (fun r : MemIndex n × Bool => r.1.globalSequence = m.globalSequence)
      (MemIndex.upsertProbe key s) := by
    simp only [MemIndex.upsertProbe]
    split_ifs <;> exact hs
  split
  · next r hr => rwa [hr] at hprobe
  · next s' hs' =>
      rw [hs'] at hprobe
      split_ifs <;> exact hprobe

theorem MemIndex.globalSequence_remove (m : MemIndex n) (key : UInt64) :
    (m.remove key).1.globalSequence = m.globalSequence := by
  rw [MemIndex.remove]
  split <;> rfl

theorem MemIndex.globalSequence_applyOp (m : MemIndex n) (op : IndexOp) :
    (m.applyOp op).globalSequence = m.globalSequence := by
  cases op with
  | upsert e => exact m.globalSequence_upsert e.key e
  | remove key => exact m.globalSequence_remove key

theorem globalSequence_foldl (effs : List WriteEffect) (m : MemIndex n) :
    (effs.foldl MemIndex.applyEffect m).globalSequence =
      m.globalSequence + UInt32.ofNat (issuedOps effs).length := by
  induction effs generalizing m with
  | nil => exact (UInt32.add_zero _).symm
  | cons eff effs ih =>
      rw [List.foldl_cons, ih]
      cases eff with
      | issued op =>
          rw [show issuedOps (.issued op :: effs) = op :: issuedOps effs from rfl,
            List.length_cons, UInt32.ofNat_add, UInt32.add_comm (UInt32.ofNat _),
            ← UInt32.add_assoc]
          rfl
      | completed c =>
          rw [MemIndex.applyEffect, MemIndex.globalSequence_applyOp]
          rfl
      | failed op => rfl

theorem sequenced_append (g : UInt32) (a b : List WriteEffect) :
    Sequenced g (a ++ b) ↔
      Sequenced g a ∧ Sequenced (g + UInt32.ofNat (issuedOps a).length) b := by
  induction a generalizing g with
  | nil =>
      rw [List.nil_append, show g + UInt32.ofNat (issuedOps []).length = g from
        UInt32.add_zero g]
      exact (and_iff_right trivial).symm
  | cons eff a ih =>
      rw [List.cons_append]
      cases eff with
      | issued op =>
          rw [Sequenced, Sequenced, ih, and_assoc,
            show issuedOps (.issued op :: a) = op :: issuedOps a from rfl, List.length_cons,
            UInt32.ofNat_add, UInt32.add_comm (UInt32.ofNat _), ← UInt32.add_assoc]
          rfl
      | completed c => exact ih g
      | failed op => exact ih g

theorem sequenced_of_issuedOps {effs : List WriteEffect} (h : issuedOps effs = [])
    {g : UInt32} : Sequenced g effs := by
  induction effs with
  | nil => trivial
  | cons eff effs ih =>
      cases eff with
      | issued op => cases h
      | completed c => exact ih h
      | failed op => exact ih h

/-! ### Operations under way -/

/-- The operations of a write in flight; those of a buffer are listed with the buffer. -/
def InflightWrite.ops : InflightWrite → List WriteOp
  | .queued ctx => [ctx.op]
  | .putAsync ctx _ => [ctx.op]
  | .deleteAsync key sequence _ => [⟨key, sequence, true⟩]
  | .buffer _ _ _ => []
  | .waitQueue ctx => [ctx.op]

/-- The operations of the records in the buffers. -/
def bufferedOps (l : List (ℕ × List BufferedPendingWrite)) : List WriteOp :=
  l.flatMap fun p => p.2.map BufferedPendingWrite.op

namespace Engine

/-- The operations that got a sequence and have neither completed nor failed. -/
def pending (self : Engine n) : Multiset WriteOp :=
  ↑(self.space.inflight.flatMap fun io => io.write.ops) +
    ↑(self.pendingWriteQueue.map QueuedWrite.op) +
    ↑(self.waitQueue.map QueuedWrite.op) + ↑(bufferedOps self.bufferPendingWrites)

/-- The effects account for the change from one engine to another. -/
structure Does (e : Engine n) (effs : List WriteEffect) (e' : Engine n) : Prop where
  /-- The index has replayed them. -/
  memIndex : e'.memIndex = effs.foldl MemIndex.applyEffect e.memIndex
  /-- Sequences are given in order. -/
  sequenced : Sequenced e.memIndex.globalSequence effs
  /-- No operation is lost or doubled. -/
  conserved : e.pending + ↑(issuedOps effs) =
    e'.pending + ↑((completedWrites effs).map CompletedWrite.op) + ↑(failedOps effs)

/-- A change that is no concern of the index and of the operations. -/
theorem Does.of_eq {self self' : Engine n} (hm : self'.memIndex = self.memIndex)
    (hp : self'.pending = self.pending) : self.Does [] self' :=
  ⟨hm, trivial, by simp [issuedOps, completedWrites, failedOps, hp]⟩

theorem Does.refl (self : Engine n) : self.Does [] self := .of_eq rfl rfl

/-- Changes compose. -/
theorem Does.trans {e e' e'' : Engine n} {a b : List WriteEffect} (h : e.Does a e')
    (h' : e'.Does b e'') : e.Does (a ++ b) e'' where
  memIndex := by rw [h'.memIndex, h.memIndex, List.foldl_append]
  sequenced := (sequenced_append _ _ _).mpr ⟨h.sequenced, by
    have := h'.sequenced
    rwa [h.memIndex, globalSequence_foldl] at this⟩
  conserved := by
    have h1 := h.conserved
    have h2 := h'.conserved
    simp only [issuedOps_append, completedWrites_append, failedOps_append, List.map_append,
      ← Multiset.coe_add]
    rw [← add_assoc, h1, add_right_comm, add_right_comm e'.pending, h2]
    abel

/-- The changes from an engine that differs in what is no concern of them. -/
theorem Does.of_same {e₀ e e' : Engine n} {effs : List WriteEffect} (h : e.Does effs e')
    (hm : e.memIndex = e₀.memIndex) (hp : e.pending = e₀.pending) : e₀.Does effs e' :=
  ⟨by rw [h.memIndex, hm], hm ▸ h.sequenced, hp ▸ h.conserved⟩

/-- An operation that gets the next sequence and is under way from then on. -/
theorem Does.issue {self self' : Engine n} {op : WriteOp}
    (hm : self'.memIndex = self.memIndex.allocateSequence.1)
    (hs : op.sequence = self.memIndex.globalSequence + 1)
    (hp : self'.pending = self.pending + {op}) : self.Does [.issued op] self' where
  memIndex := hm
  sequenced := ⟨hs, trivial⟩
  conserved := by
    rw [hp]
    simp [issuedOps, completedWrites, failedOps]

/-! ### Frame lemmas -/

/-- Sealing takes no write out of flight. -/
@[simp] theorem sealActiveFile_inflight (self : Engine n) :
    self.sealActiveFile.space.inflight = self.space.inflight := by
  rw [sealActiveFile, FileSpace.sealActiveFile]
  dsimp only
  split <;> rfl

@[simp] theorem sealActiveFile_memIndex (self : Engine n) :
    self.sealActiveFile.memIndex = self.memIndex := rfl

@[simp] theorem sealActiveFile_pending (self : Engine n) :
    self.sealActiveFile.pending = self.pending := by
  rw [pending, sealActiveFile_inflight]
  rfl

@[simp] theorem submitAt_memIndex (self : Engine n) (i size : ℕ)
    (write : FileInfo → InflightWrite) :
    (self.submitAt i size write).memIndex = self.memIndex := rfl

/-- What is submitted is under way. -/
@[simp] theorem submitAt_pending (self : Engine n) (i size : ℕ)
    (write : FileInfo → InflightWrite) :
    (self.submitAt i size write).pending =
      self.pending + ↑(write (self.space.fileAt i)).ops := by
  simp only [pending, submitAt, FileSpace.submitAt, List.flatMap_append, List.flatMap_cons,
    List.flatMap_nil, List.append_nil, ← Multiset.coe_add]
  abel

@[simp] theorem allocateNewFileAsync_memIndex (self : Engine n) :
    self.allocateNewFileAsync.memIndex = self.memIndex := rfl

@[simp] theorem allocateNewFileAsync_pending (self : Engine n) :
    self.allocateNewFileAsync.pending = self.pending := by
  rw [pending, allocateNewFileAsync, FileSpace.allocateNewFileAsync]
  dsimp only
  split_ifs <;> rfl

@[simp] theorem queueForNewFile_memIndex (self : Engine n) (req : QueuedWrite) :
    (self.queueForNewFile req).memIndex = self.memIndex := by
  rw [queueForNewFile]
  dsimp only
  split_ifs
  · rfl
  · rw [allocateNewFileAsync_memIndex, sealActiveFile_memIndex]

/-- What waits for a new file is under way. -/
@[simp] theorem queueForNewFile_pending (self : Engine n) (req : QueuedWrite) :
    (self.queueForNewFile req).pending = self.pending + {req.op} := by
  have h : ({ self with pendingWriteQueue := self.pendingWriteQueue ++ [req] } :
      Engine n).pending = self.pending + {req.op} := by
    simp only [pending, List.map_append, List.map_cons, List.map_nil, ← Multiset.coe_add,
      Multiset.coe_singleton]
    abel
  rw [queueForNewFile]
  dsimp only
  split_ifs
  · exact h
  · rw [allocateNewFileAsync_pending, sealActiveFile_pending, h]

theorem allocateNewFile_eq_some {self self' : Engine n} {ok : Bool} {i : ℕ}
    (h : self.allocateNewFile ok = some (self', i)) :
    self'.memIndex = self.memIndex ∧ self'.pending = self.pending := by
  rw [allocateNewFile] at h
  split_ifs at h
  obtain ⟨rfl, -⟩ := Prod.mk.inj (Option.some.inj h)
  exact ⟨rfl, rfl⟩

/-! ### Operations that fail or complete -/

theorem Does.fail {self self' : Engine n} (ops : List WriteOp)
    (hm : self'.memIndex = self.memIndex) (hp : self.pending = self'.pending + ↑ops) :
    self.Does (ops.map .failed) self' := by
  have hissued : issuedOps (ops.map .failed) = [] := by simp [issuedOps]
  have hcompleted : completedWrites (ops.map .failed) = [] := by simp [completedWrites]
  have hfailed : failedOps (ops.map .failed) = ops := by simp [failedOps, List.filterMap_map]
  refine ⟨?_, sequenced_of_issuedOps hissued, ?_⟩
  · rw [hm]
    clear hissued hcompleted hfailed hp
    induction ops with
    | nil => rfl
    | cons op ops ih => exact ih
  · rw [hissued, hcompleted, hfailed, hp]
    simp

theorem Does.complete {self self' : Engine n} {c : CompletedWrite}
    (hm : self'.memIndex = self.memIndex.applyOp c.call)
    (hp : self.pending = self'.pending + {c.op}) : self.Does [.completed c] self' := by
  refine ⟨hm, trivial, ?_⟩
  rw [hp]
  simp [issuedOps, completedWrites, failedOps]

/-- Writes that fail are not under way any more. -/
theorem does_failPendingWrites (self : Engine n) :
    self.Does self.failPendingWrites.2 self.failPendingWrites.1 := by
  refine .fail _ rfl ?_
  simp only [failPendingWrites, pending, List.map_nil, Multiset.coe_nil]
  abel

@[simp] theorem markGarbage_memIndex (self : Engine n) (key : UInt64) :
    (self.markGarbage key).memIndex = self.memIndex := by
  rw [markGarbage]
  split <;> rfl

@[simp] theorem markGarbage_pending (self : Engine n) (key : UInt64) :
    (self.markGarbage key).pending = self.pending := by
  rw [markGarbage]
  split <;> rfl

@[simp] theorem markGarbage_bufferPendingWrites (self : Engine n) (key : UInt64) :
    (self.markGarbage key).bufferPendingWrites = self.bufferPendingWrites := by
  rw [markGarbage]
  split <;> rfl

theorem completePut_memIndex (self : Engine n) (key : UInt64) (entry : MemIndexEntry) :
    (self.completePut key entry).memIndex = (self.memIndex.upsert key entry).1 := by
  rw [completePut, markGarbage_memIndex]

@[simp] theorem completePut_pending (self : Engine n) (key : UInt64) (entry : MemIndexEntry) :
    (self.completePut key entry).pending = self.pending := self.markGarbage_pending key

@[simp] theorem completeDelete_pending (self : Engine n) (key : UInt64) (old : ℕ) :
    (self.completeDelete key old).pending = self.pending := rfl

/-! ### Buffers -/

/-- A record put into a buffer is under way. -/
theorem bufferedOps_pushBuffered (buffer : ℕ) (write : BufferedPendingWrite)
    (l : List (ℕ × List BufferedPendingWrite)) :
    (↑(bufferedOps (pushBuffered buffer write l)) : Multiset WriteOp) =
      ↑(bufferedOps l) + {write.op} := by
  induction l with
  | nil => rfl
  | cons p l ih =>
      obtain ⟨b, writes⟩ := p
      rw [pushBuffered]
      simp only [bufferedOps] at ih ⊢
      split_ifs
      · simp only [List.flatMap_cons, List.map_append, List.map_cons, List.map_nil,
          ← Multiset.coe_add, Multiset.coe_singleton]
        abel
      · simp only [List.flatMap_cons, ← Multiset.coe_add, ih]
        abel

/-- Erasing a buffer takes its records away. -/
theorem bufferedOps_eraseP (buffer : ℕ) (l : List (ℕ × List BufferedPendingWrite)) :
    (↑(bufferedOps l) : Multiset WriteOp) =
      ↑(bufferedOps (l.eraseP fun p => p.1 == buffer)) +
        ↑((((l.find? fun p => p.1 == buffer).map Prod.snd).getD []).map
          BufferedPendingWrite.op) := by
  induction l with
  | nil => rfl
  | cons p l ih =>
      simp only [bufferedOps] at ih ⊢
      rw [List.eraseP_cons, List.find?_cons]
      cases h : p.1 == buffer with
      | true =>
          simp only [List.flatMap_cons, ← Multiset.coe_add, cond_true, Option.map_some,
            Option.getD_some]
          abel
      | false =>
          simp only [List.flatMap_cons, ← Multiset.coe_add, cond_false, ih]
          abel

theorem releaseBuffer_pending (self : Engine n) (buffer : ℕ) :
    self.pending = (self.releaseBuffer buffer).pending +
      ↑((self.bufferedWrites buffer).map BufferedPendingWrite.op) := by
  simp only [pending, releaseBuffer, bufferedWrites]
  rw [bufferedOps_eraseP buffer]
  abel

/-- The state of the loop of `on_buffer_io_complete` after some of the records. -/
structure Settling (e : Engine n) (done : List WriteOp) (r : Engine n × List WriteEffect) :
    Prop where
  memIndex : r.1.memIndex = r.2.foldl MemIndex.applyEffect e.memIndex
  issued : issuedOps r.2 = []
  pending : r.1.pending = e.pending
  buffered : r.1.bufferPendingWrites = e.bufferPendingWrites
  settled : (↑((completedWrites r.2).map CompletedWrite.op) + ↑(failedOps r.2) :
    Multiset WriteOp) = ↑done

theorem Settling.step {self : Engine n} {done : List WriteOp}
    {r : Engine n × List WriteEffect} (h : Settling self done r) (fileId base : ℕ) (ok : Bool)
    (w : BufferedPendingWrite) :
    Settling self (done ++ [w.op]) (completeBuffered fileId base ok r w) := by
  rw [completeBuffered]
  cases ok with
  | true =>
      refine ⟨?_, ?_, ?_, ?_, ?_⟩
      · simp only [if_true, completePut_memIndex, h.memIndex, List.foldl_append]
        rfl
      · simp only [if_true, issuedOps_append, h.issued]
        rfl
      · simp [h.pending]
      · exact (r.1.markGarbage_bufferPendingWrites w.key).trans h.buffered
      · rw [← Multiset.coe_add, ← h.settled]
        simp only [if_true, completedWrites_append, failedOps_append, List.map_append,
          ← Multiset.coe_add]
        simp only [completedWrites, failedOps, List.filterMap_cons, List.filterMap_nil,
          List.map_cons, List.map_nil, Multiset.coe_nil]
        abel
  | false =>
      refine ⟨?_, ?_, h.pending, h.buffered, ?_⟩
      · simp only [Bool.false_eq_true, if_false, h.memIndex, List.foldl_append]
        rfl
      · simp only [Bool.false_eq_true, if_false, issuedOps_append, h.issued]
        rfl
      · rw [← Multiset.coe_add, ← h.settled]
        simp only [Bool.false_eq_true, if_false, completedWrites_append, failedOps_append,
          List.map_append, ← Multiset.coe_add]
        simp only [completedWrites, failedOps, List.filterMap_cons, List.filterMap_nil,
          List.map_nil, Multiset.coe_nil]
        abel

theorem Settling.foldl {self : Engine n} {done : List WriteOp}
    {r : Engine n × List WriteEffect} (h : Settling self done r) (fileId base : ℕ) (ok : Bool)
    (ws : List BufferedPendingWrite) :
    Settling self (done ++ ws.map BufferedPendingWrite.op)
      (ws.foldl (completeBuffered fileId base ok) r) := by
  induction ws generalizing done r with
  | nil => rwa [List.map_nil, List.append_nil]
  | cons w ws ih =>
      have := ih (h.step fileId base ok w)
      rwa [List.append_assoc] at this

/-- The completion of a buffer completes, or fails, all of its records. -/
theorem does_onBufferIoComplete (self : Engine n) (ok : Bool) (buffer fileId base : ℕ) :
    self.Does (self.onBufferIoComplete ok buffer fileId base).2
      (self.onBufferIoComplete ok buffer fileId base).1 := by
  have hstart : Settling self [] (self, []) := ⟨rfl, rfl, rfl, rfl, rfl⟩
  have h := hstart.foldl fileId base ok (self.bufferedWrites buffer)
  rw [onBufferIoComplete]
  dsimp only
  generalize (self.bufferedWrites buffer).foldl (completeBuffered fileId base ok)
    (self, []) = r at h ⊢
  refine ⟨h.memIndex, sequenced_of_issuedOps h.issued, ?_⟩
  have hrel := r.1.releaseBuffer_pending buffer
  have hbuf : r.1.bufferedWrites buffer = self.bufferedWrites buffer := by
    rw [bufferedWrites, h.buffered, bufferedWrites]
  rw [h.issued, add_assoc, h.settled, List.nil_append, ← hbuf, ← hrel, h.pending]
  simp

theorem does_onQueuedWriteComplete (self : Engine n) (ok : Bool) (ctx : WriteCtx)
    {self₀ : Engine n} (hm : self.memIndex = self₀.memIndex)
    (hp : self₀.pending = self.pending + {ctx.op}) :
    self₀.Does (self.onQueuedWriteComplete ok ctx).2 (self.onQueuedWriteComplete ok ctx).1 := by
  rw [onQueuedWriteComplete]
  cases ok with
  | false => exact .fail [ctx.op] hm hp
  | true =>
      refine .complete ?_ ?_
      · change (if ctx.isDelete = true then self.completeDelete ctx.key ctx.oldGarbageSize
          else self.completePut ctx.key ctx.entry).memIndex =
            self₀.memIndex.applyOp (ctxCall ctx)
        rw [ctxCall, ← hm]
        split_ifs
        · rfl
        · rw [completePut_memIndex, MemIndex.applyOp, ctx.key_eq]
      · rw [hp]
        dsimp only [if_true]
        split_ifs <;> simp

theorem does_onPutAsyncWriteComplete (self : Engine n) (ok : Bool) (ctx : WriteCtx)
    (isPut : ctx.isDelete = false) {self₀ : Engine n} (hm : self.memIndex = self₀.memIndex)
    (hp : self₀.pending = self.pending + {ctx.op}) :
    self₀.Does (self.onPutAsyncWriteComplete ok ctx isPut).2
      (self.onPutAsyncWriteComplete ok ctx isPut).1 := by
  rw [onPutAsyncWriteComplete]
  cases ok with
  | false => exact .fail [ctx.op] hm hp
  | true =>
      refine .complete ?_ ?_
      · simp only [if_true, completePut_memIndex, MemIndex.applyOp, ctx.key_eq, hm]
      · rw [hp]
        simp

theorem does_onDeleteAsyncComplete (self : Engine n) (ok : Bool) (key : UInt64)
    (sequence : UInt32) (old : ℕ) {self₀ : Engine n} (hm : self.memIndex = self₀.memIndex)
    (hp : self₀.pending = self.pending + {⟨key, sequence, true⟩}) :
    self₀.Does (self.onDeleteAsyncComplete ok key sequence old).2
      (self.onDeleteAsyncComplete ok key sequence old).1 := by
  rw [onDeleteAsyncComplete]
  cases ok with
  | false => exact .fail [⟨key, sequence, true⟩] hm hp
  | true =>
      refine .complete ?_ hp
      simp only [if_true, completeDelete, MemIndex.applyOp, hm]

/-- Taking a write out of flight. -/
theorem pending_eraseIdx {self : Engine n} (count : ℕ) {i : ℕ} {io : InflightIo InflightWrite}
    (h : self.space.inflight[i]? = some io) :
    self.pending = ({ self with
      space := self.space.eraseInflight i
      pendingForegroundCount := count } : Engine n).pending + ↑io.write.ops := by
  obtain ⟨hi, rfl⟩ := List.getElem?_eq_some_iff.mp h
  have hperm : (↑(self.space.inflight.flatMap fun io => io.write.ops) : Multiset WriteOp) =
      ↑((self.space.inflight.eraseIdx i).flatMap fun io => io.write.ops) +
        ↑(self.space.inflight[i]).write.ops := by
    rw [Multiset.coe_add]
    have := (List.getElem_cons_eraseIdx_perm hi).symm.flatMap_right
      fun io : InflightIo InflightWrite => io.write.ops
    exact Multiset.coe_eq_coe.mpr (this.trans List.perm_append_comm)
  simp only [pending, FileSpace.eraseInflight, hperm]
  abel

/-- **A completion accounts for its operations.** -/
theorem does_completeInflight {self : Engine n} {i : ℕ} {ok : Bool}
    {r : Engine n × List WriteEffect} (h : self.completeInflight i ok = some r) :
    self.Does r.2 r.1 := by
  obtain ⟨⟨write, range⟩, hw, rfl⟩ := Option.map_eq_some_iff.mp h
  have hp := pending_eraseIdx (self.pendingForegroundCount - 1) hw
  cases write with
  | queued ctx => exact does_onQueuedWriteComplete _ ok ctx rfl hp
  | putAsync ctx isPut => exact does_onPutAsyncWriteComplete _ ok ctx isPut rfl hp
  | deleteAsync key sequence old => exact does_onDeleteAsyncComplete _ ok key sequence old rfl hp
  | buffer buffer fileId base =>
      exact (does_onBufferIoComplete _ ok buffer fileId base).of_same rfl
        (hp.trans (add_zero _)).symm
  | waitQueue ctx => exact does_onQueuedWriteComplete _ ok ctx rfl hp

/-! ### Queues -/

/-- Submitting the writes that waited for a new file. -/
theorem foldl_submitQueuedWrite (i : ℕ) (queue : List QueuedWrite) (self : Engine n) :
    (queue.foldl (submitQueuedWrite i) self).memIndex = self.memIndex ∧
      (queue.foldl (submitQueuedWrite i) self).pending =
        self.pending + ↑(queue.map QueuedWrite.op) := by
  induction queue generalizing self with
  | nil => exact ⟨rfl, (add_zero _).symm⟩
  | cons req queue ih =>
      obtain ⟨hm, hp⟩ := ih (submitQueuedWrite i self req)
      rw [List.foldl_cons, hm, hp]
      refine ⟨rfl, ?_⟩
      rw [submitQueuedWrite, submitAt_pending, List.map_cons, ← Multiset.cons_coe,
        ← Multiset.singleton_add, ← add_assoc]
      rfl

theorem does_processPendingWriteQueue (self : Engine n) :
    self.Does self.processPendingWriteQueue.2 self.processPendingWriteQueue.1 := by
  rw [processPendingWriteQueue]
  split
  · next i _ =>
      split_ifs
      · exact self.does_failPendingWrites
      · obtain ⟨hm, hp⟩ := foldl_submitQueuedWrite i self.pendingWriteQueue
          { self with pendingWriteQueue := [] }
        refine .of_eq hm (hp.trans ?_)
        simp only [pending, List.map_nil, Multiset.coe_nil]
        abel
  · exact self.does_failPendingWrites

/-- The end of an allocation has no effect on what is in flight. -/
theorem onNewFileAllocated_inflight (self : Engine n) (success : Bool) :
    (self.space.onNewFileAllocated success).inflight = self.space.inflight := by
  rw [FileSpace.onNewFileAllocated]
  cases success with
  | true => cases self.space.newFile <;> rfl
  | false => rfl

theorem does_onNewFileAllocated (self : Engine n) (success : Bool) :
    self.Does (self.onNewFileAllocated success).2 (self.onNewFileAllocated success).1 := by
  have hp : ({ self with space := self.space.onNewFileAllocated success } : Engine n).pending =
      self.pending := by
    simp only [pending, onNewFileAllocated_inflight]
  rw [onNewFileAllocated]
  split_ifs
  · exact (does_processPendingWriteQueue _).of_same rfl hp
  · exact (does_failPendingWrites _).of_same rfl hp

theorem does_resumeAllocationAfterCheckpoint (self : Engine n) (ok : Bool) :
    self.Does (self.resumeAllocationAfterCheckpoint ok).2
      (self.resumeAllocationAfterCheckpoint ok).1 := by
  rw [resumeAllocationAfterCheckpoint]
  cases ok with
  | true =>
      exact .of_eq (allocateNewFileAsync_memIndex _) (allocateNewFileAsync_pending _)
  | false => exact (does_failPendingWrites _).of_same rfl rfl

theorem submitWaitQueueEntry_spec (self : Engine n) (wqe : QueuedWrite) :
    (self.submitWaitQueueEntry wqe).memIndex = self.memIndex ∧
      (self.submitWaitQueueEntry wqe).pending = self.pending + {wqe.op} := by
  rw [submitWaitQueueEntry]
  split
  · split_ifs
    · exact ⟨queueForNewFile_memIndex _ _, queueForNewFile_pending _ _⟩
    · exact ⟨rfl, submitAt_pending _ _ _ _⟩
  · exact ⟨queueForNewFile_memIndex _ _, queueForNewFile_pending _ _⟩

theorem foldl_submitWaitQueueEntry (queue : List QueuedWrite) (self : Engine n) :
    (queue.foldl submitWaitQueueEntry self).memIndex = self.memIndex ∧
      (queue.foldl submitWaitQueueEntry self).pending =
        self.pending + ↑(queue.map QueuedWrite.op) := by
  induction queue generalizing self with
  | nil => exact ⟨rfl, (add_zero _).symm⟩
  | cons wqe queue ih =>
      obtain ⟨hm, hp⟩ := ih (self.submitWaitQueueEntry wqe)
      obtain ⟨hm', hp'⟩ := self.submitWaitQueueEntry_spec wqe
      rw [List.foldl_cons, hm, hp, hm', hp', List.map_cons, ← Multiset.cons_coe,
        ← Multiset.singleton_add, ← add_assoc]
      exact ⟨rfl, rfl⟩

theorem does_processWaitQueue (self : Engine n) : self.Does [] self.processWaitQueue := by
  rw [processWaitQueue]
  split_ifs
  · exact .refl self
  · exact .of_eq rfl rfl
  · obtain ⟨hm, hp⟩ := foldl_submitWaitQueueEntry self.waitQueue { self with waitQueue := [] }
    refine .of_eq hm (hp.trans ?_)
    simp only [pending, List.map_nil, Multiset.coe_nil]
    abel

theorem does_iterate_processWaitQueue (self : Engine n) (k : ℕ) :
    self.Does [] (processWaitQueue^[k] self) := by
  induction k generalizing self with
  | zero => exact .refl self
  | succ k ih => exact self.does_processWaitQueue.trans (ih self.processWaitQueue)

theorem does_processResumeNotifications (self : Engine n) :
    self.Does [] self.processResumeNotifications := by
  rw [processResumeNotifications]
  dsimp only
  split_ifs
  · exact .refl self
  · have h := does_iterate_processWaitQueue { self with
      bufferManager := { self.bufferManager with resumeCallbacks := 0 } }
      self.bufferManager.resumeCallbacks
    have hself : self.Does [] _ := h.of_same rfl rfl
    exact hself.trans (.of_eq rfl rfl)
  · exact .of_eq rfl rfl

theorem does_submitBufferTo (self : Engine n) (i buffer : ℕ) :
    self.Does [] (self.submitBufferTo i buffer) :=
  .of_eq rfl ((submitAt_pending _ _ _ _).trans (add_zero _))

theorem does_failBuffer (self : Engine n) (buffer : ℕ) :
    self.Does (self.failBuffer buffer).2 (self.failBuffer buffer).1 :=
  .fail _ rfl (self.releaseBuffer_pending buffer)

theorem does_sealActiveFile (self : Engine n) : self.Does [] self.sealActiveFile :=
  .of_eq rfl self.sealActiveFile_pending

theorem does_submitBufferIo (self : Engine n) (allocOk : Bool) :
    self.Does (self.submitBufferIo allocOk).2 (self.submitBufferIo allocOk).1 := by
  rw [submitBufferIo]
  split
  · exact .refl self
  · next buffer rest _ =>
      have htake : self.Does [] (self.takeBuffer rest) := .of_eq rfl rfl
      dsimp only
      split_ifs
      · exact htake
      · split
        · exact htake.trans (does_submitBufferTo _ _ _)
        · have hseal := htake.trans (self.takeBuffer rest).does_sealActiveFile
          split
          · next halloc =>
              obtain ⟨hm, hp⟩ := allocateNewFile_eq_some halloc
              exact (hseal.trans (.of_eq hm hp)).trans (does_submitBufferTo _ _ _)
          · exact hseal.trans (does_failBuffer _ _)

/-! ### Operations -/

@[simp] theorem allocateSequence_memIndex (self : Engine n) :
    self.allocateSequence.1.memIndex = self.memIndex.allocateSequence.1 := rfl

@[simp] theorem allocateSequence_pending (self : Engine n) :
    self.allocateSequence.1.pending = self.pending := rfl

/-- A write that waits for a new file after it got its sequence. -/
theorem does_queueForNewFile (self : Engine n) {req : QueuedWrite}
    (hs : req.sequence = self.allocateSequence.2) :
    self.Does [.issued req.op] (self.allocateSequence.1.queueForNewFile req) :=
  .issue (queueForNewFile_memIndex _ _) hs (queueForNewFile_pending _ _)

theorem does_putAsync (self : Engine n) (key : UInt64) (iovLens : List ℕ) :
    self.Does (self.putAsync key iovLens).2 (self.putAsync key iovLens).1 := by
  rw [putAsync.eq_def]
  split_ifs
  · exact .refl self
  · split
    · exact .refl self
    · split_ifs
      · exact .refl self
      · dsimp only
        split
        · split_ifs
          · exact self.does_queueForNewFile rfl
          · exact .issue rfl rfl (submitAt_pending _ _ _ _)
        · exact self.does_queueForNewFile rfl

theorem does_deleteAsync (self : Engine n) (key : UInt64) :
    self.Does (self.deleteAsync key).2 (self.deleteAsync key).1 := by
  rw [deleteAsync]
  split_ifs
  · exact .refl self
  · split
    · exact .refl self
    · dsimp only
      split
      · split_ifs
        · exact self.does_queueForNewFile rfl
        · exact .issue rfl rfl (submitAt_pending _ _ _ _)
      · exact self.does_queueForNewFile rfl

theorem does_placeBuffered (self : Engine n) (key : UInt64) (size : ℕ) (slot : ℕ × ℕ) :
    self.Does (self.placeBuffered key size slot).2 (self.placeBuffered key size slot).1 := by
  rw [placeBuffered]
  refine .issue rfl rfl ?_
  simp only [pending, bufferedOps_pushBuffered]
  exact (add_assoc _ _ _).symm

theorem does_enqueueWait (self : Engine n) (key : UInt64) (size : ℕ) (error : KvError) :
    self.Does (self.enqueueWait key size error).2 (self.enqueueWait key size error).1 := by
  rw [enqueueWait]
  refine .issue rfl rfl ?_
  simp only [pending, List.map_append, List.map_cons, List.map_nil, ← Multiset.coe_add,
    Multiset.coe_singleton]
  exact (congrArg (· + _) (add_assoc _ _ _).symm).trans (add_right_comm _ _ _)

theorem does_putBuffered (self : Engine n) (key : UInt64) (valueLen : ℕ) :
    self.Does (self.putBuffered key valueLen).2 (self.putBuffered key valueLen).1 := by
  rw [putBuffered]
  split_ifs
  · exact .refl self
  · exact .refl self
  · dsimp only
    split
    · exact (does_placeBuffered _ _ _ _).of_same rfl rfl
    · split_ifs
      · exact (does_enqueueWait _ _ _ _).of_same rfl rfl
      · split
        · exact (does_placeBuffered _ _ _ _).of_same rfl rfl
        · exact (does_enqueueWait _ _ _ _).of_same rfl rfl

end Engine

/-! ### The system -/

/-- What can happen to the engine. -/
inductive AsyncEvent
  /-- `put_async`, with the lengths of the segments. -/
  | putAsync (key : UInt64) (iovLens : List ℕ)
  /-- `put_buffered`, with the length of the value. -/
  | putBuffered (key : UInt64) (valueLen : ℕ)
  /-- `delete_async`. -/
  | deleteAsync (key : UInt64)
  /-- The IO of a write in flight completes, successfully or not. -/
  | complete (i : ℕ) (ok : Bool)
  /-- The flush trigger submits the active buffer. -/
  | flush
  /-- The next submitted buffer goes to the disk. -/
  | submitBuffer (allocOk : Bool)
  /-- The end of backpressure is noticed. -/
  | resume
  /-- The wait queue is processed, unless there is backpressure. -/
  | processWaitQueue
  /-- The allocation of a new file ends. -/
  | newFileAllocated (success : Bool)
  /-- The checkpoint in front of the allocation of a new file ends. -/
  | checkpointForAlloc (ok : Bool)
  /-- The fill of the allocation log changes. -/
  | allocLog (nearFull : Bool)

/-- The engine after an event and what it did, if the event can happen. -/
def Engine.step (self : Engine n) : AsyncEvent → Option (Engine n × List WriteEffect)
  | .putAsync key iovLens => some (self.putAsync key iovLens)
  | .putBuffered key valueLen => some (self.putBuffered key valueLen)
  | .deleteAsync key => some (self.deleteAsync key)
  | .complete i ok => self.completeInflight i ok
  | .flush => some ({ self with bufferManager := self.bufferManager.submitCurrentBuffer }, [])
  | .submitBuffer allocOk => some (self.submitBufferIo allocOk)
  | .resume => some (self.processResumeNotifications, [])
  | .processWaitQueue =>
      some (if self.bufferManager.backpressureActive then self else self.processWaitQueue, [])
  | .newFileAllocated success =>
      if self.space.newFile.isSome then some (self.onNewFileAllocated success) else none
  | .checkpointForAlloc ok =>
      if self.space.pendingCheckpointForAlloc then some (self.resumeAllocationAfterCheckpoint ok)
      else none
  | .allocLog nearFull =>
      some ({ self with space := { self.space with allocLogNearFull := nearFull } }, [])

/-- **Every event is accounted for by its effects.** -/
theorem Engine.does_step {self : Engine n} {ev : AsyncEvent}
    {r : Engine n × List WriteEffect} (h : self.step ev = some r) : self.Does r.2 r.1 := by
  cases ev with
  | putAsync key iovLens =>
      obtain rfl := Option.some.inj h
      exact self.does_putAsync key iovLens
  | putBuffered key valueLen =>
      obtain rfl := Option.some.inj h
      exact self.does_putBuffered key valueLen
  | deleteAsync key =>
      obtain rfl := Option.some.inj h
      exact self.does_deleteAsync key
  | complete i ok => exact does_completeInflight h
  | flush =>
      obtain rfl := Option.some.inj h
      exact .of_eq rfl rfl
  | submitBuffer allocOk =>
      obtain rfl := Option.some.inj h
      exact self.does_submitBufferIo allocOk
  | resume =>
      obtain rfl := Option.some.inj h
      exact self.does_processResumeNotifications
  | processWaitQueue =>
      obtain rfl := Option.some.inj h
      dsimp only
      split_ifs
      · exact .refl self
      · exact self.does_processWaitQueue
  | newFileAllocated success =>
      rw [Engine.step] at h
      split_ifs at h
      obtain rfl := Option.some.inj h
      exact self.does_onNewFileAllocated success
  | checkpointForAlloc ok =>
      rw [Engine.step] at h
      split_ifs at h
      obtain rfl := Option.some.inj h
      exact self.does_resumeAllocationAfterCheckpoint ok
  | allocLog nearFull =>
      obtain rfl := Option.some.inj h
      exact .of_eq rfl rfl

/-- An engine and everything that has been done so far. -/
structure AsyncSystem (n : ℕ) where
  engine : Engine n
  trace : List WriteEffect

/-- The engine as a machine that records what it does. -/
def asyncMachine (n : ℕ) : Machine (AsyncSystem n) AsyncEvent where
  step := fun s ev => (s.engine.step ev).map fun r => ⟨r.1, s.trace ++ r.2⟩

/-- **Every run is accounted for by its trace.** -/
theorem AsyncSystem.does_run {start : Engine n} {events : List AsyncEvent}
    {s : AsyncSystem n} (hrun : (asyncMachine n).run ⟨start, []⟩ events = some s) :
    start.Does s.trace s.engine := by
  refine (asyncMachine n).run_invariant (fun s => start.Does s.trace s.engine) ?_
    (.refl start) ((asyncMachine n).meets_of_forall fun _ _ => trivial) hrun
  intro s ev s' h _ hstep
  obtain ⟨r, hr, rfl⟩ := Option.map_eq_some_iff.mp hstep
  exact h.trans (Engine.does_step hr)

end SpdkKv
