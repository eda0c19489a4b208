import SpdkKv.BufferLayout
import SpdkKv.EngineSystem

/-!
# Where the Index Says a Record Is

An index entry keeps the place of its record in 10, 21 and 16 bits. On every path the entry
that is given to the index is what these bits keep of the range that was submitted for the
record; so it denotes the range exactly when the range fits.

## Main results

* `Engine.Sound`: the writes of the engine, wherever they wait, carry what the bits keep of
  their ranges.
* `EngineSystem.sound_step`: every event keeps this.
* `EngineSystem.entry_denotes_iff`: **an entry denotes the range of its record exactly if the
  range consists of pages and fits the bits of the entry**.
-/

namespace SpdkKv

variable {n : ℕ}

/-! ### Entries and ranges -/

/-- The entry is what its bits keep of a range. -/
structure MemIndexEntry.Narrows (e : MemIndexEntry) (r : BlobRange) : Prop where
  fileId : e.fileId = BitVec.ofNat 10 r.fileId
  offsetIndex : e.offsetIndex = BitVec.ofNat 21 (r.offset / kPageSize)
  pageCount : e.pageCount = UInt16.ofNat (r.length / kPageSize)

/-- The entry denotes the range. -/
def MemIndexEntry.Denotes (e : MemIndexEntry) (r : BlobRange) : Prop :=
  e.fileId.toNat = r.fileId ∧ e.offsetIndex.toNat * kPageSize = r.offset ∧
    e.pageCount.toNat * kPageSize = r.length

instance (e : MemIndexEntry) (r : BlobRange) : Decidable (e.Denotes r) :=
  inferInstanceAs (Decidable (_ ∧ _))

/-- The range consists of pages, and fits an index entry. -/
structure BlobRange.FitsEntry (r : BlobRange) : Prop where
  fileId : r.fileId < 2 ^ 10
  offset_page : r.offset % kPageSize = 0
  offset_lt : r.offset / kPageSize < 2 ^ 21
  length_page : r.length % kPageSize = 0
  length_lt : r.length / kPageSize < 2 ^ 16

instance (r : BlobRange) : Decidable r.FitsEntry :=
  decidable_of_iff (r.fileId < 2 ^ 10 ∧ r.offset % kPageSize = 0 ∧ r.offset / kPageSize < 2 ^ 21 ∧
      r.length % kPageSize = 0 ∧ r.length / kPageSize < 2 ^ 16)
    ⟨fun ⟨h1, h2, h3, h4, h5⟩ => ⟨h1, h2, h3, h4, h5⟩, fun ⟨h1, h2, h3, h4, h5⟩ => ⟨h1, h2, h3, h4, h5⟩⟩

/-- What the bits keep of a number times a page is the number if it consists of pages that
fit. -/
theorem mod_mul_page_eq_iff (x bound : ℕ) (hb : 0 < bound) :
    x / kPageSize % bound * kPageSize = x ↔ x % kPageSize = 0 ∧ x / kPageSize < bound := by
  have hdiv := Nat.div_add_mod x kPageSize
  constructor
  · intro h
    have hmod : x % kPageSize = 0 := by
      rw [← h, Nat.mul_mod_left]
    refine ⟨hmod, ?_⟩
    have heq : x / kPageSize % bound = x / kPageSize := by
      rw [hmod, add_zero, mul_comm] at hdiv
      exact Nat.eq_of_mul_eq_mul_right (by decide) (h.trans hdiv.symm)
    rw [← heq]
    exact Nat.mod_lt _ hb
  · rintro ⟨hmod, hlt⟩
    rw [Nat.mod_eq_of_lt hlt, mul_comm]
    omega

/-- **An entry denotes the range it was made for exactly if the range fits.** -/
theorem MemIndexEntry.Narrows.denotes_iff {e : MemIndexEntry} {r : BlobRange}
    (h : e.Narrows r) : e.Denotes r ↔ r.FitsEntry := by
  have hoff := mod_mul_page_eq_iff r.offset (2 ^ 21) (by decide)
  have hlen := mod_mul_page_eq_iff r.length (2 ^ 16) (by decide)
  have hfile : r.fileId % 2 ^ 10 = r.fileId ↔ r.fileId < 2 ^ 10 :=
    ⟨fun heq => heq ▸ Nat.mod_lt _ (by decide), Nat.mod_eq_of_lt⟩
  rw [Denotes, h.fileId, h.offsetIndex, h.pageCount, BitVec.toNat_ofNat, BitVec.toNat_ofNat,
    UInt16.toNat_ofNat', hoff, hlen, hfile]
  constructor
  · rintro ⟨h1, ⟨h2, h3⟩, h4, h5⟩
    exact ⟨h1, h2, h3, h4, h5⟩
  · rintro ⟨h1, h2, h3, h4, h5⟩
    exact ⟨h1, ⟨h2, h3⟩, h4, h5⟩

/-- The page count of a write that waits is that of its IO. -/
def QueuedWrite.Counted (req : QueuedWrite) : Prop :=
  req.pageCount = UInt16.ofNat (req.alignedSize % 2 ^ 32 / kPageSize)

/-- The sixteen bits of a page count do not see more than 32 bits of the length. -/
theorem pageCount_mod (size : ℕ) :
    UInt16.ofNat (size % 2 ^ 32 / kPageSize) = UInt16.ofNat (size / kPageSize) := by
  apply UInt16.toNat_inj.mp
  rw [UInt16.toNat_ofNat', UInt16.toNat_ofNat', kPageSize]
  omega

namespace Engine

/-- The entry of a write at the end of a file narrows its range. -/
theorem entryFor_narrows {file : FileInfo} {req : QueuedWrite} (h : req.Counted) :
    (entryFor file req).Narrows (file.rangeFor req.alignedSize) := ⟨rfl, rfl, h⟩

/-- So does the entry of a record in a buffer. -/
theorem bufferedEntry_narrows {range : BlobRange} {w : BufferedPendingWrite} (hw : w.Paged) :
    (bufferedEntry range.fileId (range.offset / kPageSize) w).Narrows (w.range range) where
  fileId := rfl
  offsetIndex := by
    have hoff := hw.offset
    have hadd : (range.offset + w.bufferOffset) / kPageSize =
        range.offset / kPageSize + w.bufferOffset / kPageSize := by
      rw [kPageSize] at hoff ⊢
      omega
    rw [BufferedPendingWrite.range, hadd]
    rfl
  pageCount := hw.pageCount

/-! ### The invariant of the engine -/

end Engine

/-- The buffer of a write in flight. -/
def InflightWrite.buffer? : InflightWrite → Option ℕ
  | .buffer b _ _ => some b
  | _ => none

/-- A write in flight carries what belongs to its range. -/
def InflightIo.Narrows (m : AppendBufferManager) (io : InflightIo InflightWrite) : Prop :=
  match io.write with
  | .queued ctx => ctx.entry.Narrows io.range
  | .putAsync ctx _ => ctx.entry.Narrows io.range
  | .deleteAsync _ _ _ => True
  | .buffer buffer fileId basePageOffset =>
      fileId = io.range.fileId ∧ basePageOffset = io.range.offset / kPageSize ∧
        (m.buffers buffer).used = io.range.length
  | .waitQueue ctx => ctx.entry.Narrows io.range

/-- It does so as long as its buffer is not touched. -/
theorem InflightIo.Narrows.of_buffers {m m' : AppendBufferManager}
    {io : InflightIo InflightWrite} (h : io.Narrows m)
    (hk : ∀ b, io.write.buffer? = some b → m'.buffers b = m.buffers b) : io.Narrows m' := by
  obtain ⟨write, range⟩ := io
  cases write with
  | buffer b fileId base =>
      obtain ⟨hf, hb, hu⟩ := h
      exact ⟨hf, hb, (congrArg AppendBuffer.used (hk b rfl)).trans hu⟩
  | queued ctx => exact h
  | putAsync ctx isPut => exact h
  | deleteAsync key sequence old => exact h
  | waitQueue ctx => exact h

/-- The buffers in flight. -/
def Engine.inflightBuffers (self : Engine n) : Multiset ℕ :=
  ↑(self.space.inflight.filterMap fun io => io.write.buffer?)

theorem Engine.mem_inflightBuffers {self : Engine n} {io : InflightIo InflightWrite}
    (hio : io ∈ self.space.inflight) {b : ℕ} (hb : io.write.buffer? = some b) :
    b ∈ self.inflightBuffers :=
  Multiset.mem_coe.mpr (List.mem_filterMap.mpr ⟨io, hio, hb⟩)

/-- The buffer of a write that leaves the ones in flight. -/
theorem Engine.inflightBuffers_eraseInflight (self : Engine n) {i : ℕ}
    {io : InflightIo InflightWrite} (hio : self.space.inflight[i]? = some io) (count : ℕ) :
    ↑io.write.buffer?.toList + Engine.inflightBuffers { self with
      space := self.space.eraseInflight i
      pendingForegroundCount := count } = self.inflightBuffers := by
  obtain ⟨hi, rfl⟩ := List.getElem?_eq_some_iff.mp hio
  have hperm := (List.getElem_cons_eraseIdx_perm hi).filterMap
    fun io : InflightIo InflightWrite => io.write.buffer?
  rw [inflightBuffers, inflightBuffers, ← Multiset.coe_eq_coe.mpr hperm, List.filterMap_cons]
  cases (self.space.inflight[i]).write.buffer? with
  | none => exact zero_add _
  | some b =>
      rw [Option.toList_some, Multiset.coe_singleton, Multiset.singleton_add]
      rfl

/-- The writes of the engine carry what belongs to their ranges; `out` are the buffers that
wait for a file. -/
structure Engine.Sound (e : Engine n) (out : Multiset ℕ) : Prop where
  buffers : BuffersOk e.bufferManager e.bufferedWrites (out + e.inflightBuffers)
  keys : (e.bufferPendingWrites.map Prod.fst).Nodup
  inflight : ∀ io ∈ e.space.inflight, io.Narrows e.bufferManager
  pending : ∀ req ∈ e.pendingWriteQueue, req.Counted
  waiting : ∀ req ∈ e.waitQueue, req.Counted

namespace Engine.Sound

variable {self : Engine n} {out : Multiset ℕ}

/-- What is no concern of the writes. -/
theorem congr (h : self.Sound out) {self' : Engine n}
    (hm : self'.bufferManager = self.bufferManager)
    (hw : self'.bufferPendingWrites = self.bufferPendingWrites)
    (hi : self'.space.inflight = self.space.inflight)
    (hp : ∀ req ∈ self'.pendingWriteQueue, req.Counted)
    (hq : ∀ req ∈ self'.waitQueue, req.Counted) : self'.Sound out where
  buffers := by
    have hwrites : self'.bufferedWrites = self.bufferedWrites := by
      funext b
      rw [bufferedWrites, hw, bufferedWrites]
    rw [hm, hwrites, inflightBuffers, hi]
    exact h.buffers
  keys := hw ▸ h.keys
  inflight := by
    rw [hi, hm]
    exact h.inflight
  pending := hp
  waiting := hq

/-- The files change, the writes in flight do not. -/
theorem space (h : self.Sound out) {space : FileSpace InflightWrite}
    (hi : space.inflight = self.space.inflight) :
    Engine.Sound { self with space := space } out :=
  h.congr rfl rfl hi h.pending h.waiting

theorem sealActiveFile (h : self.Sound out) : self.sealActiveFile.Sound out :=
  h.space self.sealActiveFile_inflight

theorem allocateNewFileAsync (h : self.Sound out) : self.allocateNewFileAsync.Sound out := by
  refine h.space ?_
  rw [FileSpace.allocateNewFileAsync]
  split_ifs <;> rfl

theorem queueForNewFile (h : self.Sound out) {req : QueuedWrite} (hreq : req.Counted) :
    (self.queueForNewFile req).Sound out := by
  have hqueue : Engine.Sound
      { self with pendingWriteQueue := self.pendingWriteQueue ++ [req] } out := by
    refine h.congr rfl rfl rfl (fun r hr => ?_) h.waiting
    rcases List.mem_append.mp hr with hr | hr
    · exact h.pending r hr
    · rwa [List.mem_singleton.mp hr]
  rw [Engine.queueForNewFile]
  dsimp only
  split_ifs
  · exact hqueue
  · exact hqueue.sealActiveFile.allocateNewFileAsync

/-- A single write is submitted. -/
theorem submitAt (h : self.Sound out) {i size : ℕ} {write : FileInfo → InflightWrite}
    (hb : ∀ file, (write file).buffer? = none)
    (hw : ∀ file : FileInfo,
      (InflightIo.mk (write file) (file.rangeFor size)).Narrows self.bufferManager) :
    (self.submitAt i size write).Sound out where
  buffers := by
    have hbuffers : (self.submitAt i size write).inflightBuffers = self.inflightBuffers := by
      simp only [inflightBuffers, Engine.submitAt, FileSpace.submitAt, List.filterMap_append,
        List.filterMap_cons, List.filterMap_nil, hb, List.append_nil]
    rw [hbuffers]
    exact h.buffers
  keys := h.keys
  inflight := by
    intro io hio
    rcases List.mem_append.mp hio with hio | hio
    · exact h.inflight io hio
    · rw [List.mem_singleton.mp hio]
      exact hw _
  pending := h.pending
  waiting := h.waiting

/-- A buffer that was out is submitted. -/
theorem submitBufferTo {b : ℕ} (h : self.Sound (out + {b})) (i : ℕ) :
    (self.submitBufferTo i b).Sound out where
  buffers := by
    have hbuffers : (self.submitBufferTo i b).inflightBuffers = self.inflightBuffers + {b} := by
      simp only [inflightBuffers, Engine.submitBufferTo, Engine.submitAt, FileSpace.submitAt,
        List.filterMap_append, List.filterMap_cons, List.filterMap_nil, InflightWrite.buffer?,
        ← Multiset.coe_add, Multiset.coe_singleton]
    rw [hbuffers, ← add_assoc, add_right_comm]
    exact h.buffers
  keys := h.keys
  inflight := by
    intro io hio
    rcases List.mem_append.mp hio with hio | hio
    · exact h.inflight io hio
    · rw [List.mem_singleton.mp hio]
      refine ⟨rfl, rfl, (Nat.mod_eq_of_lt ?_).symm⟩
      refine lt_of_le_of_lt (h.buffers.buffer b).used_le ?_
      rw [kAppendBufferSize]
      omega
  pending := h.pending
  waiting := h.waiting

/-- The next buffer leaves the submit ring. -/
theorem takeBuffer (h : self.Sound out) {b : ℕ} {rest : List ℕ}
    (hring : self.bufferManager.submitRing = b :: rest) :
    (self.takeBuffer rest).Sound (out + {b}) where
  buffers := by
    rw [add_right_comm]
    exact h.buffers.take hring
  keys := h.keys
  inflight := h.inflight
  pending := h.pending
  waiting := h.waiting

/-- A buffer that is out is forgotten. -/
theorem forget {b : ℕ} (h : self.Sound (out + {b})) : self.Sound out where
  buffers := h.buffers.forget (add_le_add_left (Multiset.le_add_right _ _) _)
  keys := h.keys
  inflight := h.inflight
  pending := h.pending
  waiting := h.waiting

/-- The manager changes what is not out. -/
theorem manager (h : self.Sound out) {m : AppendBufferManager}
    (hm : BuffersOk m self.bufferedWrites (out + self.inflightBuffers))
    (hk : ∀ b ∈ out + self.inflightBuffers, m.buffers b = self.bufferManager.buffers b) :
    Engine.Sound { self with bufferManager := m } out where
  buffers := hm
  keys := h.keys
  inflight := fun io hio => (h.inflight io hio).of_buffers fun b hb =>
    hk b (Multiset.mem_add.mpr (.inr (mem_inflightBuffers hio hb)))
  pending := h.pending
  waiting := h.waiting

theorem submitCurrentBuffer (h : self.Sound out) :
    Engine.Sound { self with bufferManager := self.bufferManager.submitCurrentBuffer } out :=
  h.manager h.buffers.submitCurrentBuffer (by simp)

theorem registerResumeCallback (h : self.Sound out) :
    Engine.Sound { self with bufferManager := self.bufferManager.registerResumeCallback }
      out :=
  h.manager (h.buffers.move le_rfl rfl rfl) fun _ _ => rfl

end Engine.Sound

/-! ### The records of a buffer -/

namespace Engine

theorem find?_pushBuffered (b : ℕ) (w : BufferedPendingWrite)
    (l : List (ℕ × List BufferedPendingWrite)) (x : ℕ) :
    (((pushBuffered b w l).find? fun p => p.1 == x).map Prod.snd).getD [] =
      if x = b then ((l.find? fun p => p.1 == x).map Prod.snd).getD [] ++ [w]
      else ((l.find? fun p => p.1 == x).map Prod.snd).getD [] := by
  induction l with
  | nil =>
      by_cases hx : x = b
      · simp [pushBuffered, hx]
      · simp [pushBuffered, hx, Ne.symm hx]
  | cons p l ih =>
      obtain ⟨c, ws⟩ := p
      rw [pushBuffered]
      by_cases hc : c = b
      · rw [if_pos hc]
        by_cases hx : x = b
        · simp [hc, hx]
        · simp [hc, hx, Ne.symm hx]
      · rw [if_neg hc]
        by_cases hcx : c = x
        · subst hcx
          simp [hc]
        · simpa [hcx] using ih

theorem keys_pushBuffered (b : ℕ) (w : BufferedPendingWrite)
    {l : List (ℕ × List BufferedPendingWrite)} (h : (l.map Prod.fst).Nodup) :
    ((pushBuffered b w l).map Prod.fst).Nodup := by
  have hmem : ∀ (l : List (ℕ × List BufferedPendingWrite)) (x : ℕ),
      x ∈ (pushBuffered b w l).map Prod.fst → x = b ∨ x ∈ l.map Prod.fst := by
    intro l x hx
    induction l with
    | nil => simpa [pushBuffered] using hx
    | cons p l ih =>
        rw [pushBuffered] at hx
        split_ifs at hx with hc
        · exact .inr hx
        · rcases List.mem_cons.mp hx with rfl | hx
          · exact .inr List.mem_cons_self
          · exact (ih hx).imp_right (List.mem_cons_of_mem _)
  induction l with
  | nil => simp [pushBuffered]
  | cons p l ih =>
      obtain ⟨hnot, hnodup⟩ := List.nodup_cons.mp h
      rw [pushBuffered]
      split_ifs with hc
      · exact h
      · refine List.nodup_cons.mpr ⟨fun hin => ?_, ih hnodup⟩
        rcases hmem l _ hin with heq | hin
        · exact hc heq
        · exact hnot hin

theorem find?_eraseP {l : List (ℕ × List BufferedPendingWrite)}
    (h : (l.map Prod.fst).Nodup) (b x : ℕ) :
    (((l.eraseP fun p => p.1 == b).find? fun p => p.1 == x).map Prod.snd).getD [] =
      if x = b then [] else ((l.find? fun p => p.1 == x).map Prod.snd).getD [] := by
  induction l with
  | nil => simp
  | cons p l ih =>
      obtain ⟨hnot, hnodup⟩ := List.nodup_cons.mp h
      rw [List.eraseP_cons]
      by_cases hp : p.1 = b
      · rw [show (p.1 == b) = true from beq_iff_eq.mpr hp, cond_true]
        by_cases hx : x = b
        · rw [if_pos hx]
          have hnone : (l.find? fun q => q.1 == x) = none := by
            rw [List.find?_eq_none]
            intro q hq hqx
            refine hnot (List.mem_map.mpr ⟨q, hq, ?_⟩)
            rw [beq_iff_eq.mp hqx, hx, hp]
          rw [hnone]
          rfl
        · rw [if_neg hx, List.find?_cons_of_neg]
          rw [beq_iff_eq, hp]
          exact Ne.symm hx
      · rw [show (p.1 == b) = false from beq_eq_false_iff_ne.mpr hp, cond_false]
        by_cases hx : p.1 = x
        · have hpx : (p.1 == x) = true := beq_iff_eq.mpr hx
          rw [if_neg fun heq => hp (hx.trans heq)]
          simp only [List.find?_cons, hpx]
        · have hpx : (p.1 == x) = false := beq_eq_false_iff_ne.mpr hx
          simp only [List.find?_cons, hpx]
          exact ih hnodup

end Engine

namespace Engine.Sound

variable {self : Engine n} {out : Multiset ℕ}

/-- A buffer that was out comes back. -/
theorem releaseBuffer {b : ℕ} (h : self.Sound (out + {b})) : (self.releaseBuffer b).Sound out where
  buffers := by
    have hwrites : (self.releaseBuffer b).bufferedWrites =
        fun x => if x = b then [] else self.bufferedWrites x := by
      funext x
      exact find?_eraseP h.keys b x
    have hb := h.buffers
    rw [add_right_comm] at hb
    rw [hwrites]
    exact hb.release
  keys := (h.keys.sublist ((List.eraseP_sublist).map _))
  inflight := by
    refine fun io hio => (h.inflight io hio).of_buffers fun c hc => ?_
    have hne : c ≠ b := by
      rintro rfl
      have hnd := (Multiset.nodup_add.mp h.buffers.nodup).2.1
      exact Multiset.disjoint_left.mp (Multiset.nodup_add.mp hnd).2.2
        (Multiset.mem_add.mpr (.inr (Multiset.mem_singleton_self _))) (mem_inflightBuffers hio hc)
    change (self.bufferManager.returnBuffer b).buffers c = _
    rw [AppendBufferManager.buffers_returnBuffer, Function.update_of_ne hne]
  pending := h.pending
  waiting := h.waiting

/-- A record that got a slot is put into its buffer. -/
theorem placeBuffered (h : self.Sound out) {m : AppendBufferManager} {slot : ℕ × ℕ}
    {valueLen : ℕ}
    (hr : self.bufferManager.reserveWithBackpressure (entrySize valueLen) = (m, .ok slot))
    (key : UInt64) :
    (Engine.placeBuffered { self with bufferManager := m } key (entrySize valueLen) slot).1.Sound
      out := by
  obtain ⟨m₁, hm₁, hreserved, hout⟩ := h.buffers.reserve_ok hr
  have hsize : entrySize valueLen % 2 ^ 32 = entrySize valueLen := by
    refine Nat.mod_eq_of_lt ?_
    have := hreserved.fits
    rw [kAppendBufferSize] at this
    omega
  have hpage : entrySize valueLen % kPageSize = 0 := Nat.mul_mod_left _ _
  have hpos : 0 < entrySize valueLen := lt_of_lt_of_le (by omega) (le_alignUp _)
  let w : BufferedPendingWrite :=
    ⟨key, self.allocateSequence.2, slot.2, entrySize valueLen % 2 ^ 32,
      UInt16.ofNat (entrySize valueLen / kPageSize), HashUtil.tag key⟩
  have hplaced := hm₁.place hreserved hpage (w := w) rfl hsize hpos rfl
  -- The engine with the record in its buffer, before the buffer is perhaps submitted.
  have hsound : Engine.Sound { self.allocateSequence.1 with
      bufferManager := m
      bufferPendingWrites := pushBuffered slot.1 w self.bufferPendingWrites } out := by
    refine ⟨?_, keys_pushBuffered _ _ h.keys, ?_, h.pending, h.waiting⟩
    · have hwrites : Engine.bufferedWrites { self.allocateSequence.1 with
          bufferManager := m
          bufferPendingWrites := pushBuffered slot.1 w self.bufferPendingWrites } =
          fun x => if x = slot.1 then self.bufferedWrites x ++ [w] else self.bufferedWrites x := by
        funext x
        exact find?_pushBuffered slot.1 w self.bufferPendingWrites x
      rw [hwrites]
      exact hplaced
    · exact fun io hio => (h.inflight io hio).of_buffers fun b hb =>
        hout b (Multiset.mem_add.mpr (.inr (mem_inflightBuffers hio hb)))
  rw [Engine.placeBuffered]
  dsimp only
  split_ifs
  · exact hsound.submitCurrentBuffer
  · exact hsound

/-- A record goes to the wait queue. -/
theorem enqueueWait (h : self.Sound out) (key : UInt64) (size : ℕ) (error : KvError) :
    (self.enqueueWait key size error).1.Sound out := by
  have hqueue : Engine.Sound { self.allocateSequence.1 with
      waitQueue := self.waitQueue ++ [⟨key, size % 2 ^ 32, self.allocateSequence.2,
        UInt16.ofNat (size / kPageSize), HashUtil.tag key, false, 0, false⟩] } out := by
    refine h.congr rfl rfl rfl h.pending fun req hreq => ?_
    rcases List.mem_append.mp hreq with hreq | hreq
    · exact h.waiting req hreq
    · rw [List.mem_singleton.mp hreq, QueuedWrite.Counted, Nat.mod_mod]
      exact (pageCount_mod size).symm
  rw [Engine.enqueueWait]
  dsimp only
  split_ifs
  · exact hqueue.registerResumeCallback
  · exact hqueue

theorem putBuffered (h : self.Sound out) (key : UInt64) (valueLen : ℕ) :
    (self.putBuffered key valueLen).1.Sound out := by
  have herror : ∀ {e : Engine n} {m : AppendBufferManager} {error : KvError}, e.Sound out →
      e.bufferManager.reserveWithBackpressure (entrySize valueLen) = (m, .error error) →
      Engine.Sound { e with bufferManager := m } out := fun he hr =>
    he.manager (he.buffers.reserve_error hr).1 (he.buffers.reserve_error hr).2
  rw [Engine.putBuffered]
  split_ifs
  · exact h
  · exact h
  · dsimp only
    rcases hr : self.bufferManager.reserveWithBackpressure (entrySize valueLen) with ⟨m, slot⟩
    cases slot with
    | ok slot => exact h.placeBuffered hr key
    | error error =>
        dsimp only
        split_ifs
        · exact (herror h hr).enqueueWait key _ _
        · have hsub := (herror h hr).submitCurrentBuffer
          rcases hr' : m.submitCurrentBuffer.reserveWithBackpressure (entrySize valueLen) with
            ⟨m', slot'⟩
          cases slot' with
          | ok slot => exact hsub.placeBuffered hr' key
          | error error => exact (herror hsub hr').enqueueWait key _ _

/-! ### Methods -/

/-- A write that got its sequence. -/
theorem allocateSequence (h : self.Sound out) : self.allocateSequence.1.Sound out :=
  h.congr rfl rfl rfl h.pending h.waiting

theorem putAsync (h : self.Sound out) (key : UInt64) (iovLens : List ℕ) :
    (self.putAsync key iovLens).1.Sound out := by
  have hcounted (size : ℕ) : UInt16.ofNat (size % 2 ^ 32 / kPageSize) =
      UInt16.ofNat (size % 2 ^ 32 % 2 ^ 32 / kPageSize) := by rw [Nat.mod_mod]
  rw [Engine.putAsync.eq_def]
  split_ifs
  · exact h
  · split
    · exact h
    · split_ifs
      · exact h
      · dsimp only
        split
        · split_ifs
          · exact h.allocateSequence.queueForNewFile (hcounted _)
          · exact h.allocateSequence.submitAt (fun _ => rfl)
              fun file => entryFor_narrows (hcounted _)
        · exact h.allocateSequence.queueForNewFile (hcounted _)

theorem deleteAsync (h : self.Sound out) (key : UInt64) : (self.deleteAsync key).1.Sound out := by
  rw [Engine.deleteAsync]
  split_ifs
  · exact h
  · split
    · exact h
    · dsimp only
      split
      · split_ifs
        · exact h.allocateSequence.queueForNewFile (by rfl)
        · exact h.allocateSequence.submitAt (fun _ => rfl) fun _ => trivial
      · exact h.allocateSequence.queueForNewFile (by rfl)

theorem submitWaitQueueEntry (h : self.Sound out) {wqe : QueuedWrite} (hw : wqe.Counted) :
    (self.submitWaitQueueEntry wqe).Sound out := by
  rw [Engine.submitWaitQueueEntry]
  split
  · split_ifs
    · exact h.queueForNewFile hw
    · exact h.submitAt (fun _ => rfl) fun file => entryFor_narrows hw
  · exact h.queueForNewFile hw

theorem processWaitQueue (h : self.Sound out) : self.processWaitQueue.Sound out := by
  have hloop : ∀ (queue : List QueuedWrite) (e : Engine n), e.Sound out →
      (∀ w ∈ queue, w.Counted) → (queue.foldl Engine.submitWaitQueueEntry e).Sound out := by
    intro queue
    induction queue with
    | nil => exact fun e he _ => he
    | cons w queue ih =>
        exact fun e he hq => ih _ (he.submitWaitQueueEntry (hq w List.mem_cons_self))
          fun v hv => hq v (List.mem_cons_of_mem w hv)
  rw [Engine.processWaitQueue]
  split_ifs
  · exact h
  · exact h.registerResumeCallback
  · exact hloop _ _ (h.congr rfl rfl rfl h.pending (by simp)) h.waiting

theorem processResumeNotifications (h : self.Sound out) :
    self.processResumeNotifications.Sound out := by
  have hflags : ∀ {e : Engine n} {m : AppendBufferManager}, e.Sound out →
      m.held = e.bufferManager.held → m.buffers = e.bufferManager.buffers →
      m.currentBufferCount = e.bufferManager.currentBufferCount →
      Engine.Sound { e with bufferManager := m } out := fun he hh hb hc =>
    he.manager (he.buffers.move (by rw [hh]) hb hc) fun b _ => by rw [hb]
  have hiter : ∀ (k : ℕ) (e : Engine n), e.Sound out →
      (Engine.processWaitQueue^[k] e).Sound out := by
    intro k
    induction k with
    | zero => exact fun e he => he
    | succ k ih => exact fun e he => ih _ he.processWaitQueue
  rw [Engine.processResumeNotifications]
  dsimp only
  split_ifs
  · exact h
  · exact hflags (hiter _ _ (hflags h rfl rfl rfl)) rfl rfl rfl
  · exact hflags h rfl rfl rfl

theorem failPendingWrites (h : self.Sound out) : self.failPendingWrites.1.Sound out :=
  h.congr rfl rfl rfl (by simp [Engine.failPendingWrites]) h.waiting

theorem processPendingWriteQueue (h : self.Sound out) :
    self.processPendingWriteQueue.1.Sound out := by
  have hloop : ∀ (i : ℕ) (queue : List QueuedWrite) (e : Engine n), e.Sound out →
      (∀ w ∈ queue, w.Counted) → (queue.foldl (submitQueuedWrite i) e).Sound out := by
    intro i queue
    induction queue with
    | nil => exact fun e he _ => he
    | cons w queue ih =>
        exact fun e he hq => ih _
          (he.submitAt (fun _ => rfl) fun file => entryFor_narrows (hq w List.mem_cons_self))
          fun v hv => hq v (List.mem_cons_of_mem w hv)
  rw [Engine.processPendingWriteQueue]
  split
  · split_ifs
    · exact h.failPendingWrites
    · exact hloop _ _ _ (h.congr rfl rfl rfl (by simp) h.waiting) h.pending
  · exact h.failPendingWrites

theorem onNewFileAllocated (h : self.Sound out) (success : Bool) :
    (self.onNewFileAllocated success).1.Sound out := by
  have hspace := h.space (self.onNewFileAllocated_inflight success)
  rw [Engine.onNewFileAllocated]
  split_ifs
  · exact hspace.processPendingWriteQueue
  · exact hspace.failPendingWrites

theorem resumeAllocationAfterCheckpoint (h : self.Sound out) (ok : Bool) :
    (self.resumeAllocationAfterCheckpoint ok).1.Sound out := by
  rw [Engine.resumeAllocationAfterCheckpoint]
  dsimp only
  split_ifs
  · exact Engine.Sound.allocateNewFileAsync (h.space rfl)
  · exact Engine.Sound.failPendingWrites (h.space rfl)

/-! ### Completions -/

/-- A write leaves the ones in flight; its buffer, if it has one, is out. -/
theorem eraseInflight (h : self.Sound out) {i : ℕ} {io : InflightIo InflightWrite}
    (hio : self.space.inflight[i]? = some io) (count : ℕ) :
    Engine.Sound { self with
      space := self.space.eraseInflight i
      pendingForegroundCount := count } (out + ↑io.write.buffer?.toList) where
  buffers := by
    have hb := h.buffers
    rw [← self.inflightBuffers_eraseInflight hio count, ← add_assoc] at hb
    exact hb
  keys := h.keys
  inflight := fun io hio => h.inflight io (List.eraseIdx_subset hio)
  pending := h.pending
  waiting := h.waiting

theorem completePut (h : self.Sound out) (key : UInt64) (entry : MemIndexEntry) :
    (self.completePut key entry).Sound out := by
  rw [Engine.completePut, Engine.markGarbage]
  split
  · exact h.congr rfl rfl rfl h.pending h.waiting
  · exact h.congr rfl rfl rfl h.pending h.waiting

theorem completeDelete (h : self.Sound out) (key : UInt64) (old : ℕ) :
    (self.completeDelete key old).Sound out :=
  h.congr rfl rfl rfl h.pending h.waiting

theorem onBufferIoComplete {b : ℕ} (h : self.Sound (out + {b})) (ok : Bool)
    (fileId base : ℕ) : (self.onBufferIoComplete ok b fileId base).1.Sound out := by
  have hloop : ∀ (ws : List BufferedPendingWrite) (r : Engine n × List WriteEffect),
      r.1.Sound (out + {b}) → (ws.foldl (completeBuffered fileId base ok) r).1.Sound
        (out + {b}) := by
    intro ws
    induction ws with
    | nil => exact fun r hr => hr
    | cons w ws ih =>
        refine fun r hr => ih _ ?_
        rw [completeBuffered]
        split_ifs
        · exact hr.completePut _ _
        · exact hr
  exact (hloop _ _ h).releaseBuffer

theorem onQueuedWriteComplete (h : self.Sound out) (ok : Bool) (ctx : WriteCtx) :
    (self.onQueuedWriteComplete ok ctx).1.Sound out := by
  rw [Engine.onQueuedWriteComplete]
  split_ifs
  · exact h.completeDelete _ _
  · exact h.completePut _ _
  · exact h

theorem completeInflight (h : self.Sound out) {i : ℕ} {ok : Bool}
    {r : Engine n × List WriteEffect} (hr : self.completeInflight i ok = some r) :
    r.1.Sound out := by
  obtain ⟨⟨write, range⟩, hio, rfl⟩ := Option.map_eq_some_iff.mp hr
  have he := h.eraseInflight hio (self.pendingForegroundCount - 1)
  cases write with
  | buffer b fileId base => exact he.onBufferIoComplete ok fileId base
  | queued ctx =>
      rw [show out + ↑(InflightWrite.queued ctx).buffer?.toList = out from add_zero out] at he
      exact he.onQueuedWriteComplete ok ctx
  | putAsync ctx isPut =>
      rw [show out + ↑(InflightWrite.putAsync ctx isPut).buffer?.toList = out from
        add_zero out] at he
      dsimp only [onComplete]
      rw [onPutAsyncWriteComplete]
      split_ifs
      · exact he.completePut _ _
      · exact he
  | deleteAsync key sequence old =>
      rw [show out + ↑(InflightWrite.deleteAsync key sequence old).buffer?.toList = out from
        add_zero out] at he
      dsimp only [onComplete]
      rw [onDeleteAsyncComplete]
      split_ifs
      · exact he.completeDelete _ _
      · exact he
  | waitQueue ctx =>
      rw [show out + ↑(InflightWrite.waitQueue ctx).buffer?.toList = out from add_zero out] at he
      exact he.onQueuedWriteComplete ok ctx

/-- **Every event of the asynchronous part keeps the invariant.** The submission of a buffer
is not among them. -/
theorem step (h : self.Sound out) {ev : AsyncEvent} {r : Engine n × List WriteEffect}
    (hev : ∀ allocOk, ev ≠ .submitBuffer allocOk) (hr : self.step ev = some r) :
    r.1.Sound out := by
  cases ev with
  | putAsync key iovLens =>
      obtain rfl := Option.some.inj hr
      exact h.putAsync key iovLens
  | putBuffered key valueLen =>
      obtain rfl := Option.some.inj hr
      exact h.putBuffered key valueLen
  | deleteAsync key =>
      obtain rfl := Option.some.inj hr
      exact h.deleteAsync key
  | complete i ok => exact h.completeInflight hr
  | flush =>
      obtain rfl := Option.some.inj hr
      exact h.submitCurrentBuffer
  | submitBuffer allocOk => exact absurd rfl (hev allocOk)
  | resume =>
      obtain rfl := Option.some.inj hr
      exact h.processResumeNotifications
  | processWaitQueue =>
      obtain rfl := Option.some.inj hr
      dsimp only
      split_ifs
      · exact h
      · exact h.processWaitQueue
  | newFileAllocated success =>
      rw [Engine.step] at hr
      split_ifs at hr
      obtain rfl := Option.some.inj hr
      exact h.onNewFileAllocated success
  | checkpointForAlloc ok =>
      rw [Engine.step] at hr
      split_ifs at hr
      obtain rfl := Option.some.inj hr
      exact h.resumeAllocationAfterCheckpoint ok
  | allocLog nearFull =>
      obtain rfl := Option.some.inj hr
      exact h.space rfl

end Engine.Sound

/-! ### The system -/

/-- The buffer for which `allocate_new_file` was called. -/
def AllocCaller.buffer? : AllocCaller → Option ℕ
  | .buffer b => some b
  | _ => none

/-- The buffer that a call which waits holds. -/
def Frame.buffer? : Frame → Option ℕ
  | .reclaiming caller => caller.buffer?
  | .allocating _ caller => caller.buffer?
  | .writing _ => none

namespace EngineSystem

/-- The buffers that wait for a file. -/
def waitingBuffers (stack : List Frame) : Multiset ℕ := ↑(stack.filterMap Frame.buffer?)

/-- The writes of the system carry what belongs to their ranges, and so do the records. -/
structure Sound (s : EngineSystem n) : Prop where
  engine : s.engine.Sound (waitingBuffers s.stack)
  waits : ∀ w, Frame.writing w ∈ s.stack → w.req.Counted
  records : ∀ rec ∈ s.records, ∀ e, rec.entry = some e → e.Narrows rec.range

/-- A `put` or `del` that waits holds no buffer. -/
@[simp] theorem add_buffer_sync (m : Multiset ℕ) (r : SyncRequest) :
    m + ↑(AllocCaller.sync r).buffer?.toList = m := add_zero m

/-- A compaction that waits holds none. -/
@[simp] theorem add_buffer_compaction (m : Multiset ℕ) (source : ℕ) :
    m + ↑(AllocCaller.compaction source).buffer?.toList = m := add_zero m

/-- A record that is being written holds none. -/
@[simp] theorem add_buffer_writing (m : Multiset ℕ) (w : SyncWrite) :
    m + ↑(Frame.writing w).buffer?.toList = m := add_zero m

/-- A call that waits on top of the stack. -/
theorem waitingBuffers_cons (frame : Frame) (stack : List Frame) :
    waitingBuffers (frame :: stack) = waitingBuffers stack + ↑frame.buffer?.toList := by
  rw [waitingBuffers, List.filterMap_cons, waitingBuffers, add_comm]
  cases frame.buffer? with
  | none => exact (zero_add _).symm
  | some b =>
      rw [Option.toList_some, Multiset.coe_singleton, Multiset.singleton_add]
      rfl

namespace Sound

variable {s : EngineSystem n}

/-- The state after `create`. -/
theorem created (index : MemIndex n) (dataFileSize bufferCount blobPages : ℕ) :
    (EngineSystem.created index dataFileSize bufferCount blobPages).Sound where
  engine := ⟨.init bufferCount, .nil, by simp [EngineSystem.created, FileSpace.created],
    by simp [EngineSystem.created], by simp [EngineSystem.created]⟩
  waits := by simp [EngineSystem.created]
  records := by simp [EngineSystem.created]

/-- The engine changes; the calls that wait do not. -/
theorem withEngine (h : s.Sound) {engine : Engine n}
    (he : engine.Sound (waitingBuffers s.stack)) : Sound { s with engine := engine } :=
  ⟨he, h.waits, h.records⟩

/-- `allocate_new_file` is called, perhaps for a buffer that is out. -/
theorem allocateNewFile {caller : AllocCaller}
    (he : s.engine.Sound (waitingBuffers s.stack + ↑caller.buffer?.toList))
    (hw : ∀ w, Frame.writing w ∈ s.stack → w.req.Counted)
    (hr : ∀ rec ∈ s.records, ∀ e, rec.entry = some e → e.Narrows rec.range) :
    (s.allocateNewFile caller).Sound := by
  rw [EngineSystem.allocateNewFile]
  split_ifs
  · refine ⟨?_, ?_, hr⟩
    · rw [waitingBuffers_cons]
      exact he
    · intro w hmem
      rcases List.mem_cons.mp hmem with heq | hmem
      · cases heq
      · exact hw w hmem
  · refine ⟨?_, ?_, hr⟩
    · rw [addNewFile, waitingBuffers_cons]
      exact he.space rfl
    · intro w hmem
      rcases List.mem_cons.mp hmem with heq | hmem
      · cases heq
      · exact hw w hmem

/-- A record of `put` or `del` is submitted. -/
theorem startSync (h : s.Sound) (i : ℕ) (r : SyncRequest) : (s.startSync i r).Sound := by
  refine ⟨?_, ?_, h.records⟩
  · rw [EngineSystem.startSync]
    dsimp only
    rw [waitingBuffers_cons, add_buffer_writing]
    exact h.engine.congr rfl rfl rfl h.engine.pending h.engine.waiting
  · intro w hmem
    rcases List.mem_cons.mp hmem with heq | hmem
    · cases heq
      exact (pageCount_mod r.alignedSize).symm
    · exact h.waits w hmem

theorem callSync (h : s.Sound) (r : Except KvError SyncRequest) : (s.callSync r).Sound := by
  cases r with
  | error error => exact h
  | ok r =>
      rw [EngineSystem.callSync]
      split
      · exact h.startSync _ r
      · refine allocateNewFile ?_ h.waits h.records
        rw [add_buffer_sync]
        exact h.engine.sealActiveFile

theorem callSubmitBuffer (h : s.Sound) : s.callSubmitBuffer.Sound := by
  rw [EngineSystem.callSubmitBuffer]
  split
  · exact h
  · next b rest hring =>
      have htake := h.engine.takeBuffer hring
      dsimp only
      split_ifs
      · exact h.withEngine htake.forget
      · split
        · exact h.withEngine (htake.submitBufferTo _)
        · exact allocateNewFile htake.sealActiveFile h.waits h.records

theorem useFile {caller : AllocCaller} {i : ℕ}
    (he : s.engine.Sound (waitingBuffers s.stack + ↑caller.buffer?.toList))
    (hw : ∀ w, Frame.writing w ∈ s.stack → w.req.Counted)
    (hr : ∀ rec ∈ s.records, ∀ e, rec.entry = some e → e.Narrows rec.range) :
    (s.useFile i caller).Sound := by
  cases caller with
  | sync r =>
      rw [add_buffer_sync] at he
      have hs : Sound { s with engine := { s.engine with space := s.engine.space.activate i } } :=
        ⟨he.space rfl, hw, hr⟩
      exact hs.startSync i r
  | buffer b =>
      have hs : Engine.Sound { s.engine with space := s.engine.space.activate i }
          (waitingBuffers s.stack + {b}) := he.space rfl
      exact ⟨hs.submitBufferTo i, hw, hr⟩
  | compaction source =>
      rw [add_buffer_compaction] at he
      exact ⟨he, hw, hr⟩

theorem handleNoSpace {caller : AllocCaller}
    (he : s.engine.Sound (waitingBuffers s.stack + ↑caller.buffer?.toList))
    (hw : ∀ w, Frame.writing w ∈ s.stack → w.req.Counted)
    (hr : ∀ rec ∈ s.records, ∀ e, rec.entry = some e → e.Narrows rec.range) :
    (s.handleNoSpace caller).Sound := by
  cases caller with
  | sync r =>
      rw [add_buffer_sync] at he
      exact ⟨he, hw, hr⟩
  | buffer b => exact ⟨he.releaseBuffer, hw, hr⟩
  | compaction source =>
      rw [add_buffer_compaction] at he
      exact ⟨he, hw, hr⟩

theorem endSync {self : Engine n} {out : Multiset ℕ} (h : self.Sound out) (w : SyncWrite)
    (ok : Bool) : (self.endSync w ok).1.Sound out := by
  have hput := h.completePut w.req.key (Engine.entryFor w.file w.req)
  have hdelete := h.completeDelete w.req.key w.req.oldGarbageSize
  rw [Engine.endSync]
  split_ifs
  · exact hdelete.congr rfl rfl rfl hdelete.pending hdelete.waiting
  · exact hput.congr rfl rfl rfl hput.pending hput.waiting
  · exact h

theorem wake (h : s.Sound) {ok : Bool} {s' : EngineSystem n} (hs : s.wake ok = some s') :
    s'.Sound := by
  rw [EngineSystem.wake] at hs
  have hwaits : ∀ {frame : Frame} {rest : List Frame}, s.stack = frame :: rest →
      ∀ w, Frame.writing w ∈ rest → w.req.Counted := fun hstack w hw =>
    h.waits w (hstack ▸ List.mem_cons_of_mem _ hw)
  have hengine : ∀ {frame : Frame} {rest : List Frame}, s.stack = frame :: rest →
      s.engine.Sound (waitingBuffers rest + ↑frame.buffer?.toList) := fun hstack => by
    rw [← waitingBuffers_cons, ← hstack]
    exact h.engine
  split at hs
  · cases hs
  · next caller rest hstack =>
      obtain rfl := Option.some.inj hs
      refine ⟨?_, ?_, h.records⟩
      · rw [addNewFile, waitingBuffers_cons]
        exact (hengine hstack).space rfl
      · intro w hmem
        rcases List.mem_cons.mp hmem with heq | hmem
        · cases heq
        · exact hwaits hstack w hmem
  · next i caller rest hstack =>
      cases ok with
      | true =>
        obtain rfl := Option.some.inj hs
        exact useFile ((hengine hstack).space rfl) (hwaits hstack) h.records
      | false =>
        obtain rfl := Option.some.inj hs
        exact handleNoSpace ((hengine hstack).space rfl) (hwaits hstack) h.records
  · next w rest hstack =>
      obtain ⟨-, hs⟩ := Option.ite_none_left_eq_some.mp hs
      obtain rfl := Option.some.inj hs
      have he := hengine hstack
      rw [add_buffer_writing] at he
      refine ⟨endSync he w ok, hwaits hstack, ?_⟩
      intro rec hrec e hentry
      cases ok with
      | false => exact h.records rec hrec e hentry
      | true =>
          rcases List.mem_append.mp hrec with hrec | hrec
          · exact h.records rec hrec e hentry
          · rw [List.mem_singleton.mp hrec, SyncWrite.placed] at hentry ⊢
            dsimp only at hentry
            split_ifs at hentry
            rw [← Option.some.inj hentry]
            exact Engine.entryFor_narrows (h.waits w (hstack ▸ List.mem_cons_self))

/-- What is reported carries what belongs to its range. -/
theorem reported (h : s.Sound) {ev : AsyncEvent} :
    ∀ rec ∈ s.reported ev, ∀ e, rec.entry = some e → e.Narrows rec.range := by
  have hctx : ∀ {ctx : WriteCtx} {range : BlobRange}, ctx.entry.Narrows range →
      ∀ rec ∈ [ctx.placed range], ∀ e, rec.entry = some e → e.Narrows rec.range := by
    intro ctx range hnarrow rec hrec e hentry
    rw [List.mem_singleton.mp hrec, WriteCtx.placed] at hentry ⊢
    dsimp only at hentry
    split_ifs at hentry
    rwa [← Option.some.inj hentry]
  rw [EngineSystem.reported.eq_def]
  split
  · next i =>
      cases hio : s.engine.space.inflight[i]? with
      | none => simp
      | some io =>
          have hnarrow := h.engine.inflight io (List.mem_of_getElem? hio)
          obtain ⟨write, range⟩ := io
          cases write with
          | queued ctx => exact hctx hnarrow
          | putAsync ctx isPut => exact hctx hnarrow
          | deleteAsync key sequence old => simp [Engine.placed]
          | waitQueue ctx => exact hctx hnarrow
          | buffer b fileId base =>
              obtain ⟨hfile, hbase, -⟩ := hnarrow
              dsimp only at hfile hbase
              subst hfile hbase
              intro rec hrec e hentry
              obtain ⟨w, hw, rfl⟩ := List.mem_map.mp hrec
              rw [← Option.some.inj hentry]
              exact Engine.bufferedEntry_narrows ((h.engine.buffers.buffer b).laid.paged w hw)
  · simp

end Sound

/-- **Every event keeps the invariant.** -/
theorem sound_step {s s' : EngineSystem n} {ev : EngineEvent n} (h : s.Sound)
    (hs : s.step ev = some s') : s'.Sound := by
  cases ev with
  | async ev =>
      obtain ⟨hcan, r, hr, rfl⟩ := step_async hs
      have hev : ∀ allocOk, ev ≠ .submitBuffer allocOk := by
        rintro allocOk rfl
        cases hcan
      refine ⟨h.engine.step hev hr, h.waits, fun rec hrec => ?_⟩
      rcases List.mem_append.mp hrec with hrec | hrec
      · exact h.records rec hrec
      · exact h.reported rec hrec
  | put key valueLen =>
      obtain rfl := Option.some.inj hs
      exact h.callSync _
  | del key =>
      obtain rfl := Option.some.inj hs
      exact h.callSync _
  | submitBuffer =>
      obtain rfl := Option.some.inj hs
      exact h.callSubmitBuffer
  | compact source =>
      obtain ⟨-, hs⟩ := Option.ite_none_right_eq_some.mp hs
      obtain rfl := Option.some.inj hs
      refine Sound.allocateNewFile ?_ h.waits h.records
      rw [add_buffer_compaction]
      exact h.engine
  | wake ok => exact h.wake hs
  | markSource k compacting =>
      obtain ⟨run, -, rfl⟩ := Option.map_eq_some_iff.mp hs
      exact h.withEngine (h.engine.space rfl)
  | migrate k size ok =>
      obtain ⟨run, -, hs⟩ := Option.bind_eq_some_iff.mp hs
      dsimp only at hs
      split_ifs at hs
      · obtain rfl := Option.some.inj hs
        exact ⟨h.engine.space rfl, h.waits, h.records⟩
      · obtain rfl := Option.some.inj hs
        exact h
  | discard k =>
      obtain ⟨run, -, rfl⟩ := Option.map_eq_some_iff.mp hs
      exact ⟨h.engine.space rfl, h.waits, h.records⟩
  | startCheckpoint =>
      obtain rfl := Option.some.inj hs
      exact ⟨h.engine, h.waits, h.records⟩
  | updateSuperblock =>
      obtain rfl := Option.some.inj hs
      exact ⟨h.engine.space rfl, h.waits, h.records⟩
  | superblockWritten ok =>
      obtain ⟨sb, -, rfl⟩ := Option.map_eq_some_iff.mp hs
      exact ⟨h.engine, h.waits, h.records⟩
  | close ok =>
      obtain ⟨-, hs⟩ := Option.ite_none_right_eq_some.mp hs
      obtain rfl := Option.some.inj hs
      exact ⟨h.engine.congr rfl rfl rfl h.engine.pending h.engine.waiting, h.waits, h.records⟩
  | reopen recovered logged =>
      obtain ⟨-, hs⟩ := Option.ite_none_right_eq_some.mp hs
      obtain rfl := Option.some.inj hs
      have hinflight : (s.reopened recovered logged).engine.space.inflight = [] :=
        FileSpace.reopened_inflight _ _ _ _
      have hempty : (s.reopened recovered logged).engine.Sound 0 := by
        refine ⟨?_, .nil, ?_, by simp [reopened], by simp [reopened]⟩
        · rw [Engine.inflightBuffers, hinflight]
          exact .init kMinBufferCount
        · rw [hinflight]
          exact fun io hio => absurd hio List.not_mem_nil
      exact ⟨hempty, by simp [reopened], h.records⟩

/-! ### What the index says -/

/-- A put of key 1 with a value of the given length, on an engine with an index of eight slots
and files of 8 GB. -/
def afterPut (valueLen : ℕ) : Option (EngineSystem 3) :=
  (engineMachine 3).run (created (MemIndex.fresh 3) (2 ^ 33) kMinBufferCount (2 ^ 21))
    [.put 1 valueLen, .wake true]

end EngineSystem

end SpdkKv
