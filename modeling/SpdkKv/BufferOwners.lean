import SpdkKv.EngineMoves

/-!
# Which Buffers Hold Records

A buffer that holds records is the active one, waits in the submit ring, or is out, waiting for
a file or for its IO: there are never more buffers in use than a ring has room for, so none is
dropped with its records.

## Main results

* `BuffersKept`: the invariant of the manager and the records.
* `Engine.Kept.step`: **every event of the asynchronous part keeps it**, and counts the writes
  in flight.
-/

namespace SpdkKv

/-! ### The manager -/

namespace AppendBufferManager

variable {m : AppendBufferManager}

/-- The buffers that may hold records, of those that the manager has. -/
def filling (m : AppendBufferManager) : Multiset ℕ := ↑m.activeBuffer.toList + ↑m.submitRing

theorem held_eq (m : AppendBufferManager) : m.held = m.filling + ↑m.completeRing := rfl

/-- A buffer that becomes active was free. -/
theorem filling_le_refill (h : m.activeBuffer = none) : m.filling ≤ m.refill.filling := by
  rw [filling, h, filling]
  exact add_le_add_left (Multiset.zero_le _) _

theorem filling_le_tryExpand (m : AppendBufferManager) : m.filling ≤ m.tryExpand.1.filling := by
  rw [tryExpand]
  split_ifs
  · exact le_rfl
  · dsimp only
    split_ifs with hnone
    · exact filling_le_refill (m := { m with
        buffers := Function.update m.buffers m.currentBufferCount ⟨0, 0⟩
        completeRing := ringEnqueue m.completeRing m.currentBufferCount
        currentBufferCount := m.currentBufferCount + 1 }) (Option.isNone_iff_eq_none.mp hnone)
    · exact le_rfl

theorem filling_le_returnBuffer (m : AppendBufferManager) (b : ℕ) :
    m.filling ≤ (m.returnBuffer b).filling := by
  rw [returnBuffer]
  dsimp only
  split_ifs with hnone
  · exact filling_le_refill (m := { m with
      buffers := Function.update m.buffers b ⟨0, 0⟩
      completeRing := ringEnqueue m.completeRing b }) (Option.isNone_iff_eq_none.mp hnone)
  · exact le_rfl

/-- A submit ring with room takes the active buffer. -/
theorem filling_le_submitCurrentBuffer (h : m.held.card ≤ kMaxBufferCount) :
    m.filling ≤ m.submitCurrentBuffer.filling := by
  rw [submitCurrentBuffer]
  split
  · exact le_rfl
  · next b hb =>
      split_ifs
      · exact le_rfl
      · have hroom : m.submitRing.length < kMaxBufferCount := by
          rw [held, hb] at h
          simp only [Option.toList_some, Multiset.coe_singleton, Multiset.card_add,
            Multiset.card_singleton, Multiset.coe_card] at h
          omega
        rw [filling, filling, hb, refill, ringEnqueue, if_pos hroom]
        dsimp only
        rw [← Multiset.coe_add, Multiset.coe_singleton, Option.toList_some,
          Multiset.coe_singleton, add_comm ({b} : Multiset ℕ)]
        exact le_add_self

end AppendBufferManager

/-- Buffers that hold records are in use; `out` are the buffers that the manager gave away. -/
structure BuffersKept (m : AppendBufferManager) (writes : ℕ → List BufferedPendingWrite)
    (out : Multiset ℕ) : Prop where
  ok : BuffersOk m writes out
  /-- No more buffers are in use than a ring has room for. -/
  room : (m.held + out).card ≤ kMaxBufferCount
  kept : ∀ b, writes b ≠ [] → b ∈ m.filling + out

namespace BuffersKept

variable {m : AppendBufferManager} {writes : ℕ → List BufferedPendingWrite} {out : Multiset ℕ}

theorem init (count : ℕ) : BuffersKept (.init count) (fun _ => []) 0 where
  ok := .init count
  room := by
    rw [add_zero, AppendBufferManager.held_init, Multiset.coe_card]
    exact List.length_take_le _ _
  kept := fun b hb => absurd rfl hb

/-- Buffers change their places. -/
theorem move (h : BuffersKept m writes out) {m' : AppendBufferManager} {out' : Multiset ℕ}
    (hle : m'.held + out' ≤ m.held + out) (hb : m'.buffers = m.buffers)
    (hc : m'.currentBufferCount = m.currentBufferCount)
    (hkept : m.filling + out ≤ m'.filling + out') : BuffersKept m' writes out' where
  ok := h.ok.move hle hb hc
  room := (Multiset.card_le_card hle).trans h.room
  kept := fun b hb => Multiset.mem_of_le hkept (h.kept b hb)

theorem submitCurrentBuffer (h : BuffersKept m writes out) :
    BuffersKept m.submitCurrentBuffer writes out := by
  have hcard : m.held.card ≤ kMaxBufferCount :=
    (Multiset.card_le_card (Multiset.le_add_right _ _)).trans h.room
  exact h.move (add_le_add_left (m.held_submitCurrentBuffer_le) out) (by simp) (by simp)
    (add_le_add_left (AppendBufferManager.filling_le_submitCurrentBuffer hcard) out)

/-- The next buffer leaves the submit ring. -/
theorem take (h : BuffersKept m writes out) {b : ℕ} {rest : List ℕ}
    (hring : m.submitRing = b :: rest) :
    BuffersKept { m with submitRing := rest } writes (out + {b}) := by
  have heq : ∀ free : Multiset ℕ, (↑m.activeBuffer.toList + ↑rest + free + (out + {b}) : Multiset ℕ) =
      ↑m.activeBuffer.toList + ↑m.submitRing + free + out := by
    intro free
    rw [hring, ← Multiset.cons_coe, ← Multiset.singleton_add]
    abel
  refine h.move (le_of_eq (heq m.completeRing)) rfl rfl (le_of_eq ?_)
  have hnone := (heq 0).symm
  rw [add_zero, add_zero] at hnone
  exact hnone

/-- A buffer that is out and holds no record is forgotten. -/
theorem forget {b : ℕ} (h : BuffersKept m writes (out + {b})) (hb : writes b = []) :
    BuffersKept m writes out where
  ok := h.ok.forget (Multiset.le_add_right _ _)
  room := (Multiset.card_le_card (add_le_add_right (Multiset.le_add_right _ _) _)).trans h.room
  kept := by
    intro x hx
    have hmem := h.kept x hx
    rw [← add_assoc, Multiset.mem_add, Multiset.mem_singleton] at hmem
    exact hmem.resolve_right fun heq => hx (heq ▸ hb)

/-- A buffer that comes back holds no record any more. -/
theorem release {b : ℕ} (h : BuffersKept m writes (out + {b})) :
    BuffersKept (m.returnBuffer b) (fun x => if x = b then [] else writes x) out where
  ok := h.ok.release
  room := by
    refine (Multiset.card_le_card ?_).trans h.room
    rw [add_comm out, ← add_assoc]
    exact add_le_add_left (m.held_returnBuffer_le b) out
  kept := by
    intro x hx
    split_ifs at hx with hxb
    · exact absurd rfl hx
    · have hmem := h.kept x hx
      rw [← add_assoc, Multiset.mem_add, Multiset.mem_singleton] at hmem
      exact Multiset.mem_of_le (add_le_add_left (m.filling_le_returnBuffer b) out)
        (hmem.resolve_right hxb)

/-- A further buffer finds room. -/
theorem tryExpand (h : BuffersKept m writes out) : BuffersKept m.tryExpand.1 writes out where
  ok := h.ok.tryExpand
  room := by
    by_cases hfull : kMaxBufferCount ≤ m.currentBufferCount
    · rw [AppendBufferManager.tryExpand, if_pos hfull]
      exact h.room
    · have hsub : m.held + out ≤ ↑(List.range m.currentBufferCount) :=
        (Multiset.le_iff_subset h.ok.nodup).mpr fun b hb =>
          Multiset.mem_coe.mpr (List.mem_range.mpr (h.ok.lt b hb))
      have hcard := Multiset.card_le_card hsub
      have hexpand := Multiset.card_le_card (add_le_add_left m.held_tryExpand_le out)
      simp only [Multiset.card_add, Multiset.card_singleton, Multiset.coe_card,
        List.length_range] at hcard hexpand ⊢
      omega
  kept := fun b hb =>
    Multiset.mem_of_le (add_le_add_left m.filling_le_tryExpand out) (h.kept b hb)

theorem checkBackpressure (h : BuffersKept m writes out) :
    BuffersKept m.checkBackpressure.1 writes out := by
  have hflag : ∀ (m' : AppendBufferManager) (active : Bool), BuffersKept m' writes out →
      BuffersKept { m' with backpressureActive := active } writes out :=
    fun m' active h => h.move le_rfl rfl rfl le_rfl
  rw [AppendBufferManager.checkBackpressure]
  dsimp only
  split_ifs
  · exact hflag _ _ h
  · exact h
  · exact h.tryExpand
  · exact hflag _ _ h.tryExpand
  · exact h

/-- A record that gets a slot is put into the active buffer. -/
theorem place (h : BuffersKept m writes out) {m' : AppendBufferManager} {len : ℕ}
    {slot : ℕ × ℕ} (hr : BuffersOk.Reserved m m' len slot) (hlen : len % kPageSize = 0)
    {w : BufferedPendingWrite} (hoff : w.bufferOffset = slot.2) (hsize : w.alignedSize = len)
    (hpos : 0 < len) (hcount : w.pageCount = UInt16.ofNat (len / kPageSize)) :
    BuffersKept m' (fun x => if x = slot.1 then writes x ++ [w] else writes x) out := by
  have hok := h.ok.place hr hlen hoff hsize hpos hcount
  obtain ⟨hactive, -, -, rfl⟩ := hr
  refine ⟨hok, h.room, fun b hb => ?_⟩
  by_cases hbs : b = slot.1
  · refine Multiset.mem_add.mpr (.inl (Multiset.mem_add.mpr (.inl ?_)))
    rw [hbs]
    exact Multiset.mem_coe.mpr (Option.mem_toList.mpr hactive)
  · rw [if_neg hbs] at hb
    exact h.kept b hb

end BuffersKept

/-! ### The engine -/

variable {n : ℕ}

/-- Buffers that hold records are in use, and the blob IOs in flight are counted; `out` are the
buffers that wait for a file, `reads` is the number of reads in flight. -/
structure Engine.Kept (e : Engine n) (out : Multiset ℕ) (reads : ℕ) : Prop where
  buffers : BuffersKept e.bufferManager e.bufferedWrites (out + e.inflightBuffers)
  keys : (e.bufferPendingWrites.map Prod.fst).Nodup
  count : e.pendingForegroundCount = e.space.inflight.length + reads

namespace Engine.Kept

variable {self self' : Engine n} {out : Multiset ℕ} {reads : ℕ}

/-- What is no concern of the buffers. -/
theorem congr (h : self.Kept out reads) (hm : self'.bufferManager = self.bufferManager)
    (hw : self'.bufferPendingWrites = self.bufferPendingWrites)
    (hi : self'.space.inflight = self.space.inflight)
    (hc : self'.pendingForegroundCount = self.pendingForegroundCount) : self'.Kept out reads where
  buffers := by
    have hwrites : self'.bufferedWrites = self.bufferedWrites := by
      funext b
      rw [bufferedWrites, hw, bufferedWrites]
    rw [hm, hwrites, inflightBuffers, hi]
    exact h.buffers
  keys := hw ▸ h.keys
  count := by rw [hc, hi, h.count]

/-- The manager changes. -/
theorem manager (h : self.Kept out reads) {m : AppendBufferManager}
    (hm : BuffersKept m self.bufferedWrites (out + self.inflightBuffers)) :
    Engine.Kept { self with bufferManager := m } out reads :=
  ⟨hm, h.keys, h.count⟩

/-- Reads begin or end. -/
theorem recount (h : self.Kept out reads) {count reads' : ℕ}
    (hcount : count = self.space.inflight.length + reads') :
    Engine.Kept { self with pendingForegroundCount := count } out reads' :=
  ⟨h.buffers, h.keys, hcount⟩

/-- **Moves keep it.** -/
theorem moves (h : self.Kept out reads) (hmoves : self.Moves self') : self'.Kept out reads := by
  refine hmoves.keeps (P := fun e => e.Kept out reads) (fun a b hmove ha => ?_) h
  cases hmove with
  | sequence => exact ha.congr rfl rfl rfl rfl
  | submit i size write single =>
      have hbuffers : (a.submitAt i size write).inflightBuffers = a.inflightBuffers := by
        simp only [inflightBuffers, submitAt, FileSpace.submitAt, List.filterMap_append,
          List.filterMap_cons, List.filterMap_nil, single, List.append_nil]
      refine ⟨?_, ha.keys, ?_⟩
      · rw [hbuffers]
        exact ha.buffers
      · have hcount := ha.count
        simp only [submitAt, FileSpace.submitAt, List.length_append, List.length_singleton]
        omega
  | rearrange space same pending wait callbacks was =>
      refine ⟨?_, ha.keys, ?_⟩
      · rw [inflightBuffers, same]
        exact ha.buffers.move le_rfl rfl rfl le_rfl
      · rw [same]
        exact ha.count

/-- The next buffer leaves the submit ring. -/
theorem takeBuffer (h : self.Kept out reads) {b : ℕ} {rest : List ℕ}
    (hring : self.bufferManager.submitRing = b :: rest) :
    (self.takeBuffer rest).Kept (out + {b}) reads where
  buffers := by
    rw [add_right_comm]
    exact h.buffers.take hring
  keys := h.keys
  count := h.count

/-- An empty buffer that is out is forgotten. -/
theorem forget {b : ℕ} (h : self.Kept (out + {b}) reads)
    (hb : (self.bufferManager.buffers b).used = 0) : self.Kept out reads where
  buffers := by
    have hlaid := (h.buffers.ok.buffer b).laid
    rw [hb] at hlaid
    have hbuffers := h.buffers
    rw [add_right_comm] at hbuffers
    exact hbuffers.forget hlaid.eq_nil
  keys := h.keys
  count := h.count

/-- A buffer that was out is submitted. -/
theorem submitBufferTo {b : ℕ} (h : self.Kept (out + {b}) reads) (i : ℕ) :
    (self.submitBufferTo i b).Kept out reads where
  buffers := by
    have hbuffers : (self.submitBufferTo i b).inflightBuffers = self.inflightBuffers + {b} := by
      simp only [inflightBuffers, Engine.submitBufferTo, Engine.submitAt, FileSpace.submitAt,
        List.filterMap_append, List.filterMap_cons, List.filterMap_nil, InflightWrite.buffer?,
        ← Multiset.coe_add, Multiset.coe_singleton]
    rw [hbuffers, ← add_assoc, add_right_comm]
    exact h.buffers
  keys := h.keys
  count := by
    have hcount := h.count
    simp only [Engine.submitBufferTo, submitAt, FileSpace.submitAt, List.length_append,
      List.length_singleton]
    omega

/-- A buffer that was out comes back. -/
theorem releaseBuffer {b : ℕ} (h : self.Kept (out + {b}) reads) :
    (self.releaseBuffer b).Kept out reads where
  buffers := by
    have hwrites : (self.releaseBuffer b).bufferedWrites =
        fun x => if x = b then [] else self.bufferedWrites x := by
      funext x
      exact find?_eraseP h.keys b x
    have hb := h.buffers
    rw [add_right_comm] at hb
    rw [hwrites]
    exact hb.release
  keys := h.keys.sublist ((List.eraseP_sublist).map _)
  count := h.count

theorem submitCurrentBuffer (h : self.Kept out reads) :
    Engine.Kept { self with bufferManager := self.bufferManager.submitCurrentBuffer } out reads :=
  h.manager h.buffers.submitCurrentBuffer

/-- A record that got a slot is put into its buffer. -/
theorem placeBuffered (h : self.Kept out reads) {m : AppendBufferManager} {slot : ℕ × ℕ}
    {valueLen : ℕ}
    (hr : self.bufferManager.reserveWithBackpressure (entrySize valueLen) = (m, .ok slot))
    (key : UInt64) :
    (Engine.placeBuffered { self with bufferManager := m } key (entrySize valueLen) slot).1.Kept
      out reads := by
  have hreserved := BuffersOk.reserveWithBackpressure_ok hr
  have hsize : entrySize valueLen % 2 ^ 32 = entrySize valueLen := by
    refine Nat.mod_eq_of_lt ?_
    have := hreserved.fits
    rw [kAppendBufferSize] at this
    omega
  have hpos : 0 < entrySize valueLen := lt_of_lt_of_le (by omega) (le_alignUp _)
  let w : BufferedPendingWrite :=
    ⟨key, self.allocateSequence.2, slot.2, entrySize valueLen % 2 ^ 32,
      UInt16.ofNat (entrySize valueLen / kPageSize), HashUtil.tag key⟩
  have hplaced := h.buffers.checkBackpressure.place hreserved (Nat.mul_mod_left _ _) (w := w) rfl
    hsize hpos rfl
  -- The engine with the record in its buffer, before the buffer is perhaps submitted.
  have hkept : Engine.Kept { self.allocateSequence.1 with
      bufferManager := m
      bufferPendingWrites := pushBuffered slot.1 w self.bufferPendingWrites } out reads := by
    refine ⟨?_, keys_pushBuffered _ _ h.keys, h.count⟩
    have hwrites : Engine.bufferedWrites { self.allocateSequence.1 with
        bufferManager := m
        bufferPendingWrites := pushBuffered slot.1 w self.bufferPendingWrites } =
        fun x => if x = slot.1 then self.bufferedWrites x ++ [w] else self.bufferedWrites x := by
      funext x
      exact find?_pushBuffered slot.1 w self.bufferPendingWrites x
    rw [hwrites]
    exact hplaced
  rw [Engine.placeBuffered]
  dsimp only
  split_ifs
  · exact hkept.submitCurrentBuffer
  · exact hkept

theorem putBuffered (h : self.Kept out reads) (key : UInt64) (valueLen : ℕ) :
    (self.putBuffered key valueLen).1.Kept out reads := by
  have herror : ∀ {e : Engine n} {m : AppendBufferManager} {error : KvError}, e.Kept out reads →
      e.bufferManager.reserveWithBackpressure (entrySize valueLen) = (m, .error error) →
      Engine.Kept { e with bufferManager := m } out reads := fun he hr =>
    he.manager (BuffersOk.reserveWithBackpressure_error hr ▸ he.buffers.checkBackpressure)
  rw [Engine.putBuffered]
  split_ifs
  · exact h
  · exact h
  · dsimp only
    rcases hr : self.bufferManager.reserveWithBackpressure (entrySize valueLen) with ⟨m, slot⟩
    cases slot with
    | ok slot => exact h.placeBuffered hr key
    | error error =>
        dsimp only
        split_ifs
        · exact (herror h hr).moves (moves_enqueueWait _ key _ _)
        · have hsub := (herror h hr).submitCurrentBuffer
          rcases hr' : m.submitCurrentBuffer.reserveWithBackpressure (entrySize valueLen) with
            ⟨m', slot'⟩
          cases slot' with
          | ok slot => exact hsub.placeBuffered hr' key
          | error error => exact (herror hsub hr').moves (moves_enqueueWait _ key _ _)

/-! ### Completions -/

/-- A write leaves the ones in flight; its buffer, if it has one, is out. -/
theorem eraseInflight (h : self.Kept out reads) {i : ℕ} {io : InflightIo InflightWrite}
    (hio : self.space.inflight[i]? = some io) :
    Engine.Kept { self with
      space := self.space.eraseInflight i
      pendingForegroundCount := self.pendingForegroundCount - 1 }
      (out + ↑io.write.buffer?.toList) reads where
  buffers := by
    have hb := h.buffers
    rw [← self.inflightBuffers_eraseInflight hio (self.pendingForegroundCount - 1),
      ← add_assoc] at hb
    exact hb
  keys := h.keys
  count := by
    obtain ⟨hi, -⟩ := List.getElem?_eq_some_iff.mp hio
    have hcount := h.count
    rw [FileSpace.eraseInflight, List.length_eraseIdx_of_lt hi]
    dsimp only
    omega

theorem completePut (h : self.Kept out reads) (key : UInt64) (entry : MemIndexEntry) :
    (self.completePut key entry).Kept out reads := by
  rw [Engine.completePut, Engine.markGarbage]
  split
  · exact h.congr rfl rfl rfl rfl
  · exact h.congr rfl rfl rfl rfl

theorem completeDelete (h : self.Kept out reads) (key : UInt64) (old : ℕ) :
    (self.completeDelete key old).Kept out reads := h.congr rfl rfl rfl rfl

theorem onQueuedWriteComplete (h : self.Kept out reads) (ok : Bool) (ctx : WriteCtx) :
    (self.onQueuedWriteComplete ok ctx).1.Kept out reads := by
  rw [Engine.onQueuedWriteComplete]
  split_ifs
  · exact h.completeDelete _ _
  · exact h.completePut _ _
  · exact h

theorem onBufferIoComplete {b : ℕ} (h : self.Kept (out + {b}) reads) (ok : Bool)
    (fileId base : ℕ) : (self.onBufferIoComplete ok b fileId base).1.Kept out reads := by
  have hloop : ∀ (ws : List BufferedPendingWrite) (r : Engine n × List WriteEffect),
      r.1.Kept (out + {b}) reads →
        (ws.foldl (completeBuffered fileId base ok) r).1.Kept (out + {b}) reads := by
    intro ws
    induction ws with
    | nil => exact fun r hr => hr
    | cons w ws ih =>
        refine fun r hr => ih _ ?_
        rw [completeBuffered]
        split_ifs
        · exact hr.completePut _ _
        · exact hr
  exact (hloop _ _ h).releaseBuffer

theorem onComplete {write : InflightWrite} (h : self.Kept (out + ↑write.buffer?.toList) reads)
    (ok : Bool) : (self.onComplete ok write).1.Kept out reads := by
  have hsingle : write.buffer? = none → self.Kept out reads := by
    intro hnone
    rwa [hnone, Option.toList_none, Multiset.coe_nil, add_zero] at h
  cases write with
  | buffer b fileId base => exact h.onBufferIoComplete ok fileId base
  | queued ctx => exact (hsingle rfl).onQueuedWriteComplete ok ctx
  | waitQueue ctx => exact (hsingle rfl).onQueuedWriteComplete ok ctx
  | putAsync ctx isPut =>
      rw [Engine.onComplete, onPutAsyncWriteComplete]
      split_ifs
      · exact (hsingle rfl).completePut _ _
      · exact hsingle rfl
  | deleteAsync key sequence old =>
      rw [Engine.onComplete, onDeleteAsyncComplete]
      split_ifs
      · exact (hsingle rfl).completeDelete _ _
      · exact hsingle rfl

/-- **Every event of the asynchronous part keeps it.** The submission of a buffer is not among
them. -/
theorem step (h : self.Kept out reads) {ev : AsyncEvent} {r : Engine n × List WriteEffect}
    (hev : ∀ allocOk, ev ≠ .submitBuffer allocOk) (hr : self.step ev = some r) :
    r.1.Kept out reads := by
  by_cases hsingle : isSingle ev = true
  · exact h.moves (moves_step hsingle hr)
  · cases ev with
    | putBuffered key valueLen =>
        obtain rfl := Option.some.inj hr
        exact h.putBuffered key valueLen
    | flush =>
        obtain rfl := Option.some.inj hr
        exact h.submitCurrentBuffer
    | complete i ok =>
        obtain ⟨io, hio, rfl⟩ := Option.map_eq_some_iff.mp hr
        exact (h.eraseInflight hio).onComplete ok
    | submitBuffer allocOk => exact absurd rfl (hev allocOk)
    | putAsync _ _ | deleteAsync _ | resume | processWaitQueue | newFileAllocated _
    | checkpointForAlloc _ | allocLog _ => exact absurd rfl hsingle

end Engine.Kept

end SpdkKv
