import SpdkKv.AsyncSettle
import SpdkKv.RdmaBuffers
import SpdkKv.RecordPlaces

/-!
# Writes by RDMA

`put_rdma` completes a record whose value a client has written into a slot, and books it in
`buffer_pending_writes_` like a record of `put_buffered`: under the buffer that is active when
it is called, at the distance of the slot from the start of that buffer. The slot itself lies in
the buffer that was active when it was allocated.

The system is the engine of the slots with the records booked, the index that completions
enter them into, and an account of the calls of `put_rdma`, of their callbacks and of where the
bytes of a slot were written. Which file and which place in it a buffer is written to is the
choice of the label.

## Main results

* `RdmaWriter.Honoured`: every call is answered once, and a success means that the index denotes
  the range to which the bytes of the slot were written.
* `RdmaWriter.honoured_of_inPlace`: **this holds in every run** in which `put_rdma` is called while
  the buffer of its slot is still the active one.
* `RdmaWriter.misbooked_put`, `RdmaWriter.lost_put`: what happens otherwise.
-/

namespace SpdkKv

variable {n : ℕ}

/-! ### Data -/

/-- A call of `put_rdma` on a slot, the `number`-th one. -/
structure RdmaPut where
  number : ℕ
  slot : AppendSlot
  key : UInt64
  len : ℕ
  deriving DecidableEq, Repr

/-- A `BufferedPendingWrite` under its buffer, with the call of `put_rdma`, if any, to which its
callback belongs. -/
structure BookedWrite where
  buffer : ℕ
  write : BufferedPendingWrite
  put : Option RdmaPut
  deriving DecidableEq, Repr

/-- A callback of `put_rdma` ran: with success or without, what the index said about the key, and
where the bytes of the slot had been written. -/
structure RdmaAnswer where
  put : RdmaPut
  ok : Bool
  entry : Option MemIndexEntry
  written : Option BlobRange
  deriving DecidableEq, Repr

/-- The members of `Engine` that records in slots pass through, and the account of them. -/
structure RdmaWriter (n : ℕ) where
  engine : RdmaEngine
  memIndex : MemIndex n
  /-- `buffer_pending_writes_`; the records of a buffer are in the order of their booking. -/
  bufferPendingWrites : List BookedWrite
  /-- The addresses of the buffers. -/
  data : ℕ → ℕ
  /-- The ranges that the `BufferIoContext` of a buffer being written stands for. -/
  ioRange : ℕ → BlobRange
  /-- The slots that `alloc_rdma_slot` returned. -/
  returned : List AppendSlot
  /-- The calls of `put_rdma` whose value fits the slot. -/
  puts : List RdmaPut
  answers : List RdmaAnswer
  /-- Where the bytes of a slot were written. -/
  slotRange : AppendSlot → Option BlobRange

/-- `max_value_len`. -/
def AppendSlot.maxValueLen (slot : AppendSlot) : ℕ := slot.len - recordHeaderSize - 4

/-- The range of a slot in a buffer that is written to a range. -/
def AppendSlot.range (slot : AppendSlot) (range : BlobRange) : BlobRange :=
  { range with offset := range.offset + slot.offset, length := slot.len }

/-- The `BufferedPendingWrite` of a record at an offset. -/
def bufferedRecord (key : UInt64) (seq : UInt32) (offset len : ℕ) : BufferedPendingWrite :=
  ⟨key, seq, offset, entrySize len % 2 ^ 32, UInt16.ofNat (entrySize len / kPageSize),
    HashUtil.tag key⟩

/-- The entry that `on_buffer_io_complete` makes of a record. -/
def BookedWrite.entry (w : BookedWrite) (range : BlobRange) : MemIndexEntry :=
  Engine.bufferedEntry range.fileId (range.offset / kPageSize) w.write

namespace RdmaWriter

/-- The engine with its buffers at the given addresses, right after `create`. -/
def start (n bufferCount : ℕ) (data : ℕ → ℕ) : RdmaWriter n where
  engine := .start bufferCount
  memIndex := .fresh n
  bufferPendingWrites := []
  data := data
  ioRange := fun _ => ⟨0, 0, 0, 0⟩
  returned := []
  puts := []
  answers := []
  slotRange := fun _ => none

/-! ### Operations -/

/-- `alloc_rdma_slot`. -/
def allocRdmaSlot (self : RdmaWriter n) (valueLen : ℕ) : RdmaWriter n :=
  match self.engine.allocRdmaSlot valueLen with
  | (engine, .error _) => { self with engine := engine }
  | (engine, .ok slot) => { self with engine := engine, returned := self.returned ++ [slot] }

/-- `get_offset` of a buffer for the address of a slot: 32 bits of the difference. -/
def getOffset (self : RdmaWriter n) (b : ℕ) (slot : AppendSlot) : ℕ :=
  (UInt32.ofNat (self.data slot.buffer + slot.offset) - UInt32.ofNat (self.data b)).toNat

/-- The callback of a call of `put_rdma`, if it is one, runs. -/
def answer (self : RdmaWriter n) (ok : Bool) (put : Option RdmaPut) : RdmaWriter n :=
  { self with answers := self.answers ++ put.toList.map fun put =>
      ⟨put, ok, self.memIndex.findEntry put.key, self.slotRange put.slot⟩ }

/-- `buffer_pending_writes_[buffer].push_back`. -/
def book (self : RdmaWriter n) (w : BookedWrite) : RdmaWriter n :=
  { self with bufferPendingWrites := self.bufferPendingWrites ++ [w] }

/-- `put_rdma`; a call whose value does not fit its slot is not accounted for. -/
def putRdma (self : RdmaWriter n) (slot : AppendSlot) (valueOffset : ℕ) (key : UInt64) (len : ℕ)
    (seq : UInt32) : RdmaWriter n :=
  let put : Option RdmaPut :=
    if len ≤ slot.maxValueLen then some ⟨self.puts.length, slot, key, len⟩ else none
  let self := { self with puts := self.puts ++ put.toList }
  if valueOffset ≠ recordHeaderSize then self.answer false put
  else
    match self.engine.manager.activeBuffer with
    | none => self
    | some active =>
        let write := bufferedRecord key seq (self.getOffset active slot) len
        book { self with engine := self.engine.putRdma valueOffset } ⟨active, write, put⟩

/-- `put_buffered`; without room the record waits outside of the buffers. -/
def putBuffered (self : RdmaWriter n) (key : UInt64) (valueLen : ℕ) : RdmaWriter n :=
  if valueLen = 0 then self
  else
    let (memIndex, seq) := self.memIndex.allocateSequence
    let engine := self.engine.putBuffered valueLen
    match self.engine.manager.reserveWithBackpressure (entrySize valueLen) with
    | (_, .error _) => { self with memIndex := memIndex, engine := engine }
    | (_, .ok slot) =>
        book { self with memIndex := memIndex, engine := engine }
          ⟨slot.1, bufferedRecord key seq slot.2 valueLen, none⟩

/-- The records booked under a buffer. -/
def pendingOf (self : RdmaWriter n) (b : ℕ) : List BookedWrite :=
  self.bufferPendingWrites.filter fun w => w.buffer = b

/-- One turn of the loop of `on_buffer_io_complete`. -/
def completeRecord (range : BlobRange) (ok : Bool) (self : RdmaWriter n) (w : BookedWrite) :
    RdmaWriter n :=
  let memIndex :=
    if ok then (self.memIndex.upsert w.write.key (w.entry range)).1 else self.memIndex
  answer { self with memIndex := memIndex } ok w.put

/-- The loop over the records of a buffer, and the `erase` behind it. -/
def completeRecords (self : RdmaWriter n) (b : ℕ) (ok : Bool) : RdmaWriter n :=
  let self := (self.pendingOf b).foldl (completeRecord (self.ioRange b) ok) self
  { self with bufferPendingWrites := self.bufferPendingWrites.filter fun w => ¬ w.buffer = b }

/-- `submit_buffer_io` for the next submitted buffer, to the given place, or without a file. -/
def submitBuffer (self : RdmaWriter n) (place : Option (ℕ × ℕ)) : RdmaWriter n :=
  let engine := self.engine.submitBuffer place.isSome
  match self.engine.nextBuffer, place with
  | none, _ => { self with engine := engine }
  | some b, none => { self.completeRecords b false with engine := engine }
  | some b, some (fileId, offset) =>
      let range : BlobRange := ⟨0, fileId, offset, (self.engine.manager.buffers b).used⟩
      { self with
        engine := engine
        ioRange := Function.update self.ioRange b range
        slotRange := fun slot =>
          if slot.buffer = b ∧ self.engine.Unreset slot then some (slot.range range)
          else self.slotRange slot }

/-- `on_buffer_io_complete`. -/
def complete (self : RdmaWriter n) (b : ℕ) (ok : Bool) : RdmaWriter n :=
  { self.completeRecords b ok with
    engine := RdmaEngine.returnBuffer
      { self.engine with writing := self.engine.writing.erase b } b }

end RdmaWriter

/-- What can happen. -/
inductive RdmaWriteEvent
  /-- `alloc_rdma_slot`. -/
  | allocRdmaSlot (valueLen : ℕ)
  /-- `put_rdma` on the slot that the `i`-th successful `alloc_rdma_slot` returned. -/
  | putRdma (i valueOffset : ℕ) (key : UInt64) (len : ℕ) (seq : UInt32)
  /-- `commit_rdma_slot`. -/
  | commitRdmaSlot (slotId epoch : UInt32)
  /-- `put_buffered`. -/
  | putBuffered (key : UInt64) (valueLen : ℕ)
  /-- The flush trigger of `poll` fires, or `close` flushes. -/
  | flush
  /-- `poll` or `close` goes on with the next submitted buffer: it is written to an offset of a
  file, or there is no file. -/
  | submitBuffer (place : Option (ℕ × ℕ))
  /-- The write of a buffer completes. -/
  | complete (b : ℕ) (ok : Bool)
  /-- `poll` looks at the buffers that wait for a reset. -/
  | checkPendingReset
  /-- A write that went another way completes, and calls the index. -/
  | otherComplete (op : IndexOp)

namespace RdmaWriter

/-- The step of an event, if it can happen. -/
def step (self : RdmaWriter n) : RdmaWriteEvent → Option (RdmaWriter n)
  | .allocRdmaSlot valueLen => some (self.allocRdmaSlot valueLen)
  | .putRdma i valueOffset key len seq =>
      self.returned[i]?.map fun slot => self.putRdma slot valueOffset key len seq
  | .commitRdmaSlot slotId epoch =>
      some { self with engine := (self.engine.commitRdmaSlot slotId epoch).1 }
  | .putBuffered key valueLen => some (self.putBuffered key valueLen)
  | .flush => some { self with
      engine := { self.engine with manager := self.engine.manager.submitCurrentBuffer } }
  | .submitBuffer place => some (self.submitBuffer place)
  | .complete b ok => if b ∈ self.engine.writing then some (self.complete b ok) else none
  | .checkPendingReset => some { self with engine := self.engine.checkPendingReset }
  | .otherComplete op => some { self with memIndex := self.memIndex.applyOp op }

end RdmaWriter

/-- The writes by RDMA as a machine. -/
def rdmaWriteMachine (n : ℕ) : Machine (RdmaWriter n) RdmaWriteEvent where
  step := RdmaWriter.step

/-! ### The property -/

/-- **The index tells the truth**: a success means that the entry of the key denotes the pages of
the record, from the place on to which the bytes of the slot were written. -/
def RdmaAnswer.Truthful (a : RdmaAnswer) : Prop :=
  a.ok = true → ∃ e r, a.entry = some e ∧ a.written = some r ∧
    e.Denotes { r with length := entrySize a.put.len }

namespace RdmaWriter

/-- The calls whose callbacks have not run, but wait under a buffer. -/
def outstanding (self : RdmaWriter n) : List RdmaPut :=
  self.bufferPendingWrites.filterMap BookedWrite.put

/-- No buffer is being written or waits for it, and the active one is empty. -/
def Idle (self : RdmaWriter n) : Prop :=
  self.engine.writing = [] ∧ self.engine.manager.submitRing = [] ∧
    ∀ b ∈ self.engine.manager.activeBuffer, (self.engine.manager.buffers b).isEmpty = true

/-- **The writes are honoured.** -/
structure Honoured (s : RdmaWriter n) : Prop where
  /-- The calls are told apart, ... -/
  distinct : s.puts.Nodup
  /-- each is outstanding or answered, once, ... -/
  accounted : (s.puts : Multiset RdmaPut) =
    ↑s.outstanding + ↑(s.answers.map RdmaAnswer.put)
  /-- an outstanding one waits under a buffer that is active, submitted or being written, ... -/
  waiting : ∀ w ∈ s.bufferPendingWrites, w.put.isSome →
    w.buffer ∈ s.engine.manager.filling + ↑s.engine.writing
  /-- so that all are answered once nothing is left to do, ... -/
  settled : s.Idle → s.puts.Perm (s.answers.map RdmaAnswer.put)
  /-- and the index tells the truth at every success. -/
  truthful : ∀ a ∈ s.answers, a.Truthful

/-! ### The condition -/

/-- The buffer of the slot is the active one, and has not been reset since the slot was
allocated. -/
def InPlace (self : RdmaWriter n) (slot : AppendSlot) : Prop :=
  self.engine.manager.activeBuffer = some slot.buffer ∧ self.engine.Unreset slot

/-- The index takes every record of a buffer, in their order; those of `put_rdma` are newer than
what the index has of their keys, and their ranges fit an entry. -/
def TakesRecords (range : BlobRange) : MemIndex n → List BookedWrite → Prop
  | _, [] => True
  | m, w :: ws =>
      m.AcceptedOp (.upsert (w.entry range)) ∧
        (w.put.isSome → (w.write.range range).FitsEntry ∧
          ∀ o ∈ m.stored w.write.key, MemIndex.sequenceNewer w.write.sequence o.sequence = true) ∧
        TakesRecords range (m.upsert w.write.key (w.entry range)).1 ws

/-- The condition: `put_rdma` is called while the buffer of its slot is the active one, and the
index takes what completes. -/
def CallsInPlace (self : RdmaWriter n) : RdmaWriteEvent → Prop
  | .putRdma i valueOffset _ len _ => ∀ slot ∈ self.returned[i]?,
      valueOffset = recordHeaderSize → len ≤ slot.maxValueLen → self.InPlace slot
  | .complete b true => TakesRecords (self.ioRange b) self.memIndex (self.pendingOf b)
  | .otherComplete op => self.memIndex.AcceptedOp op
  | _ => True

/-- Whether the index takes the records of a buffer can be computed. -/
instance decidableTakesRecords (range : BlobRange) :
    ∀ (m : MemIndex n) (ws : List BookedWrite), Decidable (TakesRecords range m ws)
  | _, [] => .isTrue trivial
  | m, w :: ws =>
      have : Decidable (TakesRecords range (m.upsert w.write.key (w.entry range)).1 ws) :=
        decidableTakesRecords range _ ws
      inferInstanceAs (Decidable (_ ∧ _ ∧ _))

instance (self : RdmaWriter n) (slot : AppendSlot) : Decidable (self.InPlace slot) :=
  inferInstanceAs (Decidable (_ ∧ _))

instance (self : RdmaWriter n) : ∀ ev, Decidable (self.CallsInPlace ev)
  | .allocRdmaSlot _ => .isTrue trivial
  | .putRdma i valueOffset _ len _ => inferInstanceAs (Decidable (∀ slot ∈ self.returned[i]?,
      valueOffset = recordHeaderSize → len ≤ slot.maxValueLen → self.InPlace slot))
  | .commitRdmaSlot _ _ => .isTrue trivial
  | .putBuffered _ _ => .isTrue trivial
  | .flush => .isTrue trivial
  | .submitBuffer _ => .isTrue trivial
  | .complete b true =>
      inferInstanceAs (Decidable (TakesRecords (self.ioRange b) self.memIndex (self.pendingOf b)))
  | .complete _ false => .isTrue trivial
  | .checkPendingReset => .isTrue trivial
  | .otherComplete op => inferInstanceAs (Decidable (self.memIndex.AcceptedOp op))

end RdmaWriter

/-! ### One record -/

@[simp] theorem BookedWrite.entry_key (w : BookedWrite) (range : BlobRange) :
    (w.entry range).key = w.write.key := rfl

@[simp] theorem BookedWrite.entry_sequence (w : BookedWrite) (range : BlobRange) :
    (w.entry range).sequence = w.write.sequence := rfl

/-- The record of a call of `put_rdma`, booked under the buffer of its slot. -/
structure BookedWrite.Records (w : BookedWrite) (put : RdmaPut) : Prop where
  buffer : put.slot.buffer = w.buffer
  key : w.write.key = put.key
  offset : w.write.bufferOffset = put.slot.offset
  size : w.write.alignedSize = entrySize put.len
  tag : w.write.tag = HashUtil.tag w.write.key
  paged : w.write.Paged

/-- **A record in its slot**: the entry denotes the pages of the record in the range of the
slot. -/
theorem BookedWrite.Records.denotes {w : BookedWrite} {put : RdmaPut} (h : w.Records put)
    {range : BlobRange} (hfits : (w.write.range range).FitsEntry) :
    (w.entry range).Denotes { put.slot.range range with length := entrySize put.len } := by
  have hrange : w.write.range range =
      { put.slot.range range with length := entrySize put.len } := by
    rw [BufferedPendingWrite.range, AppendSlot.range, h.offset, h.size]
  rw [← hrange]
  exact (Engine.bufferedEntry_narrows h.paged).denotes_iff.mpr hfits

/-- The fingerprint of its entry is that of its key. -/
theorem BookedWrite.Records.tagged_entry {w : BookedWrite} {put : RdmaPut} (h : w.Records put)
    (range : BlobRange) : MemIndex.tagged w.write.key (w.entry range) = w.entry range := by
  rw [MemIndex.tagged, BookedWrite.entry, Engine.bufferedEntry, h.tag]

namespace RdmaWriter

variable {s : RdmaWriter n}

/-- The address of a slot in its own buffer. -/
theorem getOffset_self {slot : AppendSlot} (h : slot.offset ≤ kAppendBufferSize) :
    s.getOffset slot.buffer slot = slot.offset := by
  have hsub : UInt32.ofNat (s.data slot.buffer + slot.offset) - UInt32.ofNat (s.data slot.buffer) =
      UInt32.ofNat slot.offset := by
    rw [UInt32.ofNat_add]
    grind
  rw [kAppendBufferSize] at h
  rw [getOffset, hsub, UInt32.toNat_ofNat_of_lt' (lt_of_le_of_lt h (by decide))]

/-- **`put_rdma` in place** books the record of its call. -/
theorem records_bufferedRecord {slot : AppendSlot} {number len : ℕ} {key : UInt64} {seq : UInt32}
    (hpage : slot.offset % kPageSize = 0) (hlen : slot.offset + slot.len ≤ kAppendBufferSize)
    (hfits : len ≤ slot.maxValueLen) (hslot : recordHeaderSize + 4 ≤ slot.len)
    (put : Option RdmaPut) :
    BookedWrite.Records
      ⟨slot.buffer, bufferedRecord key seq (s.getOffset slot.buffer slot) len, put⟩
      ⟨number, slot, key, len⟩ := by
  have hoffset : s.getOffset slot.buffer slot = slot.offset :=
    getOffset_self ((Nat.le_add_right _ _).trans hlen)
  have hsize : entrySize len % 2 ^ 32 = entrySize len := by
    refine Nat.mod_eq_of_lt ?_
    have hlt : entrySize len < recordHeaderSize + len + 4 + kPageSize := alignUp_lt _
    rw [AppendSlot.maxValueLen] at hfits
    rw [kPageSize] at hlt
    rw [kAppendBufferSize] at hlen
    omega
  refine ⟨rfl, rfl, hoffset, hsize, rfl, ?_, ?_, ?_⟩
  · rw [bufferedRecord, hoffset, hpage]
  · rw [bufferedRecord, hsize]
    have := entrySize_ge len
    dsimp only
    omega
  · rw [bufferedRecord, hsize]

theorem takesRecords_cons {range : BlobRange} {m : MemIndex n} {w : BookedWrite}
    {ws : List BookedWrite} : TakesRecords range m (w :: ws) ↔
      m.AcceptedOp (.upsert (w.entry range)) ∧
        (w.put.isSome → (w.write.range range).FitsEntry ∧
          ∀ o ∈ m.stored w.write.key, MemIndex.sequenceNewer w.write.sequence o.sequence = true) ∧
        TakesRecords range (m.upsert w.write.key (w.entry range)).1 ws := Iff.rfl

/-- **The loop over the records of a buffer**: each callback of `put_rdma` runs once, and tells
the truth about a record that is in its slot. -/
theorem foldl_completeRecord {range : BlobRange} {ok : Bool} (ws : List BookedWrite)
    {s : RdmaWriter n} (hindex : s.memIndex.Wf)
    (hok : ok = true → TakesRecords range s.memIndex ws ∧ ∀ w ∈ ws, ∀ put ∈ w.put,
      w.Records put ∧ s.slotRange put.slot = some (put.slot.range range)) :
    ∃ m as, ws.foldl (completeRecord range ok) s =
        { s with memIndex := m, answers := s.answers ++ as } ∧
      m.Wf ∧ as.map RdmaAnswer.put = ws.filterMap BookedWrite.put ∧
      ∀ a ∈ as, a.Truthful := by
  induction ws generalizing s with
  | nil => exact ⟨s.memIndex, [], by rw [List.append_nil]; rfl, hindex, rfl, nofun⟩
  | cons w ws ih =>
      obtain ⟨m, hm⟩ : ∃ m, m = if ok then (s.memIndex.upsert w.write.key (w.entry range)).1
        else s.memIndex := ⟨_, rfl⟩
      obtain ⟨as, has⟩ : ∃ as, as = w.put.toList.map fun put =>
        (⟨put, ok, m.findEntry put.key, s.slotRange put.slot⟩ : RdmaAnswer) := ⟨_, rfl⟩
      have hhead : completeRecord range ok s w =
          { s with memIndex := m, answers := s.answers ++ as } := by
        rw [completeRecord, ← hm, has]
        rfl
      have hwf : m.Wf := by
        cases ok with
        | false => exact hm ▸ hindex
        | true =>
            obtain ⟨hacc, -, -⟩ := takesRecords_cons.mp (hok rfl).1
            rw [hm, if_pos rfl]
            exact hindex.applyOp hacc.orderly
      have htrue : ∀ a ∈ as, a.Truthful := by
        rw [has]
        intro a ha
        obtain ⟨put, hput, rfl⟩ := List.mem_map.mp ha
        rw [Option.mem_toList] at hput
        intro hok'
        dsimp only at hok'
        rw [if_pos hok'] at hm
        obtain ⟨htakes, hrec⟩ := hok hok'
        obtain ⟨hacc, hnew, -⟩ := takesRecords_cons.mp htakes
        obtain ⟨hr, hslot⟩ := hrec w List.mem_cons_self put hput
        obtain ⟨hfits, hnewer⟩ := hnew (Option.isSome_iff_exists.mpr ⟨put, hput⟩)
        refine ⟨_, _, ?_, hslot, hr.denotes hfits⟩
        have hfound := hindex.findEntry_upsert hacc rfl (by
          rw [BookedWrite.entry_key, BookedWrite.entry_sequence]
          exact hnewer)
        rw [BookedWrite.entry_key, hr.tagged_entry] at hfound
        rw [hm, ← hr.key, hfound]
      have htail : ok = true → TakesRecords range m ws ∧ ∀ w ∈ ws, ∀ put ∈ w.put,
          w.Records put ∧ s.slotRange put.slot = some (put.slot.range range) := by
        intro hok'
        rw [if_pos hok'] at hm
        obtain ⟨htakes, hrec⟩ := hok hok'
        obtain ⟨-, -, hrest⟩ := takesRecords_cons.mp htakes
        exact ⟨hm ▸ hrest, fun w' hw' => hrec w' (List.mem_cons_of_mem _ hw')⟩
      obtain ⟨m', as', heq, hwf', hmap, htrue'⟩ :=
        ih (s := { s with memIndex := m, answers := s.answers ++ as }) hwf htail
      refine ⟨m', as ++ as', ?_, hwf', ?_, ?_⟩
      · rw [List.foldl_cons, hhead, heq, List.append_assoc]
      · rw [List.map_append, hmap, has, List.filterMap_cons]
        cases w.put <;> rfl
      · intro a ha
        exact (List.mem_append.mp ha).elim (htrue a) (htrue' a)

/-! ### The invariant -/

/-- A record of `put_rdma` waits under the buffer. -/
def Holds (s : RdmaWriter n) (b : ℕ) : Prop :=
  ∃ w ∈ s.bufferPendingWrites, w.buffer = b ∧ w.put.isSome

/-- The invariant: the records of `put_rdma` are in their slots, and those of a buffer that is
being written are where the bytes of their slots went. -/
structure Inv (s : RdmaWriter n) : Prop where
  slots : s.engine.Inv
  keeps : s.engine.Keeps s.Holds
  returned : ∀ slot ∈ s.returned, slot.offset % kPageSize = 0 ∧
    slot.offset + slot.len ≤ kAppendBufferSize ∧ recordHeaderSize + 4 ≤ slot.len
  records : ∀ w ∈ s.bufferPendingWrites, ∀ put ∈ w.put,
    w.Records put ∧ s.engine.Unreset put.slot
  written : ∀ w ∈ s.bufferPendingWrites, w.buffer ∈ s.engine.writing → ∀ put ∈ w.put,
    s.slotRange put.slot = some (put.slot.range (s.ioRange w.buffer))
  index : s.memIndex.Wf
  numbered : s.puts.map RdmaPut.number = List.range s.puts.length
  accounted : (s.puts : Multiset RdmaPut) =
    ↑s.outstanding + ↑(s.answers.map RdmaAnswer.put)
  truthful : ∀ a ∈ s.answers, a.Truthful

theorem inv_start (bufferCount : ℕ) (data : ℕ → ℕ) : (start n bufferCount data).Inv where
  slots := RdmaEngine.inv_start bufferCount
  keeps := (RdmaEngine.keeps_start bufferCount).mono fun _ hb => by
    obtain ⟨w, hw, -⟩ := hb
    cases hw
  returned := nofun
  records := nofun
  written := nofun
  index := MemIndex.fresh_wf n
  numbered := rfl
  accounted := rfl
  truthful := nofun

/-- **The invariant says that the writes are honoured.** -/
theorem Inv.honoured (h : s.Inv) : s.Honoured where
  distinct := List.Nodup.of_map RdmaPut.number (h.numbered ▸ List.nodup_range)
  accounted := h.accounted
  waiting := fun w hw hput => h.keeps.mem ⟨w, hw, rfl, hput⟩
  settled := by
    rintro ⟨hwriting, hring, hactive⟩
    have hnone : s.outstanding = [] := by
      refine List.filterMap_eq_nil_iff.mpr fun w hw => ?_
      by_contra hput
      have hholds : s.Holds w.buffer := ⟨w, hw, rfl, Option.isSome_iff_ne_none.mpr hput⟩
      have hmem := h.keeps.mem hholds
      rw [AppendBufferManager.filling, hring, hwriting] at hmem
      have hb : s.engine.manager.activeBuffer = some w.buffer := by simpa using hmem
      exact h.keeps.not_of_isEmpty (hactive _ hb) hholds
    have hsum := h.accounted
    rw [hnone, Multiset.coe_nil, zero_add] at hsum
    exact Multiset.coe_eq_coe.mp hsum
  truthful := h.truthful

/-- Buffers change their places. -/
theorem Inv.withEngine (h : s.Inv) {engine : RdmaEngine} (hi : engine.Inv)
    (hk : engine.Keeps s.Holds) (hunreset : ∀ slot, s.engine.Unreset slot → engine.Unreset slot)
    (hwriting : engine.writing = s.engine.writing) : Inv { s with engine := engine } where
  slots := hi
  keeps := hk
  returned := h.returned
  records := fun w hw put hput =>
    ⟨(h.records w hw put hput).1, hunreset _ (h.records w hw put hput).2⟩
  written := fun w hw hb => h.written w hw (hwriting ▸ hb)
  index := h.index
  numbered := h.numbered
  accounted := h.accounted
  truthful := h.truthful

/-- The index changes. -/
theorem Inv.withIndex (h : s.Inv) {m : MemIndex n} (hm : m.Wf) : Inv { s with memIndex := m } :=
  ⟨h.slots, h.keeps, h.returned, h.records, h.written, hm, h.numbered, h.accounted, h.truthful⟩

/-! ### Operations -/

theorem Inv.allocRdmaSlot (h : s.Inv) (valueLen : ℕ) : (s.allocRdmaSlot valueLen).Inv := by
  have hengine : Inv { s with engine := (s.engine.allocRdmaSlot valueLen).1 } :=
    h.withEngine (h.slots.allocRdmaSlot valueLen) (h.keeps.allocRdmaSlot valueLen)
      (fun _ hu => hu.allocRdmaSlot valueLen) (RdmaEngine.writing_allocRdmaSlot valueLen)
  rw [RdmaWriter.allocRdmaSlot]
  split
  · next engine e heq => rwa [heq] at hengine
  · next engine slot heq =>
      rw [heq] at hengine
      obtain ⟨hpage, hlen, hsize⟩ := RdmaEngine.allocRdmaSlot_ok h.slots heq
      refine ⟨hengine.slots, hengine.keeps, fun other hother => ?_, hengine.records,
        hengine.written, hengine.index, hengine.numbered, hengine.accounted, hengine.truthful⟩
      rcases List.mem_append.mp hother with hother | hother
      · exact hengine.returned other hother
      · rw [List.mem_singleton.mp hother]
        refine ⟨hpage, hlen, ?_⟩
        have := entrySize_ge valueLen
        omega

/-- The next number goes to the put of a call that makes one. -/
theorem Inv.numbered_append (h : s.Inv) {put : Option RdmaPut}
    (hnumber : ∀ p ∈ put, p.number = s.puts.length) :
    (s.puts ++ put.toList).map (·.number) = List.range (s.puts ++ put.toList).length := by
  cases put with
  | none => simpa using h.numbered
  | some p =>
      simp only [Option.toList_some, List.map_append, List.map_cons, List.map_nil,
        List.length_append, List.length_singleton, List.range_succ, h.numbered, hnumber p rfl]

/-- **A record is booked**, under a buffer that is not being written. -/
theorem Inv.book (h : s.Inv) {w : BookedWrite}
    (hkeeps : s.engine.Keeps fun b => s.Holds b ∨ w.put.isSome ∧ b = w.buffer)
    (hw : w.buffer ∉ s.engine.writing)
    (hrec : ∀ put ∈ w.put, w.Records put ∧ s.engine.Unreset put.slot) {puts : List RdmaPut}
    (hputs : puts = s.puts ++ w.put.toList)
    (hnumber : ∀ put ∈ w.put, put.number = s.puts.length) :
    (RdmaWriter.book { s with puts := puts } w).Inv where
  slots := h.slots
  keeps := hkeeps.mono fun b hb => by
    obtain ⟨v, hv, rfl, hput⟩ := hb
    rcases List.mem_append.mp hv with hv | hv
    · exact .inl ⟨v, hv, rfl, hput⟩
    · obtain rfl := List.mem_singleton.mp hv
      exact .inr ⟨hput, rfl⟩
  returned := h.returned
  records := by
    intro v hv put hput
    rcases List.mem_append.mp hv with hv | hv
    · exact h.records v hv put hput
    · obtain rfl := List.mem_singleton.mp hv
      exact hrec put hput
  written := by
    intro v hv hb
    rcases List.mem_append.mp hv with hv | hv
    · exact h.written v hv hb
    · obtain rfl := List.mem_singleton.mp hv
      exact absurd hb hw
  index := h.index
  numbered := by
    rw [RdmaWriter.book, hputs]
    exact h.numbered_append hnumber
  accounted := by
    have hout : (RdmaWriter.book { s with puts := puts } w).outstanding =
        s.outstanding ++ w.put.toList := by
      rw [outstanding, RdmaWriter.book, List.filterMap_append, outstanding]
      cases hput : w.put <;> simp [hput]
    rw [hout]
    simp only [RdmaWriter.book]
    rw [hputs, ← Multiset.coe_add, ← Multiset.coe_add, h.accounted]
    exact add_right_comm _ _ _
  truthful := h.truthful

/-- A call is refused: its callback runs at once. -/
theorem Inv.refuse (h : s.Inv) {put : Option RdmaPut}
    (hnumber : ∀ p ∈ put, p.number = s.puts.length) :
    (RdmaWriter.answer { s with puts := s.puts ++ put.toList } false put).Inv where
  slots := h.slots
  keeps := h.keeps
  returned := h.returned
  records := h.records
  written := h.written
  index := h.index
  numbered := h.numbered_append hnumber
  accounted := by
    simp only [RdmaWriter.answer, List.map_append, List.map_map, Function.comp_def, List.map_id']
    rw [← Multiset.coe_add, ← Multiset.coe_add, h.accounted, add_assoc]
    rfl
  truthful := by
    intro a ha
    rcases List.mem_append.mp ha with ha | ha
    · exact h.truthful a ha
    · obtain ⟨p, -, rfl⟩ := List.mem_map.mp ha
      exact nofun

/-- **`put_rdma`**: a call whose value fits its slot is booked in place. -/
theorem Inv.putRdma (h : s.Inv) {slot : AppendSlot} (hslot : slot ∈ s.returned)
    {valueOffset len : ℕ} (hplace : valueOffset = recordHeaderSize → len ≤ slot.maxValueLen →
      s.InPlace slot) (key : UInt64) (seq : UInt32) :
    (s.putRdma slot valueOffset key len seq).Inv := by
  obtain ⟨put, hput⟩ : ∃ put : Option RdmaPut, put = if len ≤ slot.maxValueLen then
    some ⟨s.puts.length, slot, key, len⟩ else none := ⟨_, rfl⟩
  have hnumber : ∀ p ∈ put, p.number = s.puts.length := by
    intro p hp
    rw [hput] at hp
    split_ifs at hp
    · rw [← Option.some.inj hp]
    · cases hp
  rw [RdmaWriter.putRdma, ← hput]
  dsimp only
  split_ifs with hoffset
  · exact h.refuse hnumber
  · rw [not_not] at hoffset
    have hin (p : RdmaPut) (hp : p ∈ put) :
        p = ⟨s.puts.length, slot, key, len⟩ ∧ len ≤ slot.maxValueLen ∧ s.InPlace slot := by
      rw [hput] at hp
      split_ifs at hp with hfits
      · exact ⟨(Option.some.inj hp).symm, hfits, hplace hoffset hfits⟩
      · cases hp
    split
    · next hnone =>
        have hputnone : put = none := by
          refine Option.eq_none_iff_forall_not_mem.mpr fun p hp => ?_
          obtain ⟨-, -, hactive, -⟩ := hin p hp
          exact nomatch hnone.symm.trans hactive
        rw [hputnone, Option.toList_none, List.append_nil]
        exact h
    · next active hactive =>
        have hengine := h.withEngine (h.slots.putRdma valueOffset) (h.keeps.putRdma valueOffset)
          (fun _ hu => hu.of_eq (RdmaEngine.reservations_putRdma valueOffset))
          (RdmaEngine.writing_putRdma valueOffset)
        refine hengine.book ?_ ?_ ?_ rfl hnumber
        · cases hp : put with
          | none => exact hengine.keeps.mono fun b hb => hb.elim id fun hb => nomatch hb.1
          | some p =>
              obtain ⟨-, -, hslotActive, r, hr, -⟩ := hin p hp
              obtain rfl := Option.some.inj (hactive.symm.trans hslotActive)
              refine (hengine.keeps.of_reservation (b := slot.buffer) ?_).mono
                fun b hb => hb.imp_right And.right
              rw [RdmaEngine.reservations_putRdma]
              exact List.ne_nil_of_mem hr
        · rw [RdmaEngine.writing_putRdma]
          exact h.keeps.active_notMem hactive
        · intro p hp
          obtain ⟨rfl, hfits, hslotActive, hunreset⟩ := hin p hp
          obtain rfl := Option.some.inj (hactive.symm.trans hslotActive)
          obtain ⟨hpage, hlen, hsize⟩ := h.returned slot hslot
          exact ⟨records_bufferedRecord hpage hlen hfits hsize put,
            hunreset.of_eq (RdmaEngine.reservations_putRdma valueOffset)⟩

theorem Inv.putBuffered (h : s.Inv) (key : UInt64) (valueLen : ℕ) :
    (s.putBuffered key valueLen).Inv := by
  rw [RdmaWriter.putBuffered]
  split_ifs
  · exact h
  · dsimp only
    have hunreset (slot : AppendSlot) (hu : s.engine.Unreset slot) :
        (s.engine.putBuffered valueLen).Unreset slot :=
      hu.of_eq (RdmaEngine.reservations_putBuffered valueLen)
    have hwriting := RdmaEngine.writing_putBuffered (s := s.engine) valueLen
    split
    · next manager e hr =>
        exact (h.withEngine (h.slots.putBuffered valueLen) (h.keeps.putBuffered_error hr) hunreset
          hwriting).withIndex h.index.allocateSequence
    · next manager slot hr =>
        have hkeeps := h.keeps.putBuffered hr
        have hengine := (h.withEngine (h.slots.putBuffered valueLen)
          (hkeeps.mono fun _ hb => .inl hb) hunreset hwriting).withIndex h.index.allocateSequence
        refine hengine.book ?_ ?_ (by simp) (List.append_nil _).symm (by simp)
        · exact hengine.keeps.mono fun b hb => hb.elim id fun hb => nomatch hb.1
        · dsimp only
          rw [hwriting]
          exact (h.slots.reserve_ok hr).2

/-- **The records of a buffer complete**, and the buffer leaves those that are being written. -/
theorem Inv.completeRecords (h : s.Inv) {b : ℕ} {ok : Bool}
    (hok : ok = true → b ∈ s.engine.writing ∧
      TakesRecords (s.ioRange b) s.memIndex (s.pendingOf b)) {engine : RdmaEngine}
    (hi : engine.Inv) (hk : engine.Keeps fun x => s.Holds x ∧ x ≠ b)
    (hunreset : ∀ slot, slot.buffer ≠ b → s.engine.Unreset slot → engine.Unreset slot)
    (hwriting : ∀ x ∈ engine.writing, x ∈ s.engine.writing) :
    Inv { s.completeRecords b ok with engine := engine } := by
  have hmem {w : BookedWrite} (hw : w ∈ s.pendingOf b) : w ∈ s.bufferPendingWrites ∧ w.buffer = b := by
    simpa [pendingOf] using hw
  obtain ⟨m, as, heq, hm, hmap, htrue⟩ := foldl_completeRecord (s.pendingOf b) h.index
    fun hok' => ⟨(hok hok').2, fun w hw put hput => by
      obtain ⟨hpending, rfl⟩ := hmem hw
      exact ⟨(h.records w hpending put hput).1, h.written w hpending (hok hok').1 put hput⟩⟩
  have hrest {w : BookedWrite}
      (hw : w ∈ s.bufferPendingWrites.filter fun w => ¬ w.buffer = b) :
      w ∈ s.bufferPendingWrites ∧ w.buffer ≠ b := by
    simpa using hw
  rw [RdmaWriter.completeRecords, heq]
  refine ⟨hi, hk.mono ?_, h.returned, ?_, ?_, hm, h.numbered, ?_, ?_⟩
  · rintro x ⟨w, hw, rfl, hput⟩
    obtain ⟨hw, hne⟩ := hrest hw
    exact ⟨⟨w, hw, rfl, hput⟩, hne⟩
  · intro w hw put hput
    obtain ⟨hw, hne⟩ := hrest hw
    obtain ⟨hrec, hu⟩ := h.records w hw put hput
    exact ⟨hrec, hunreset _ (hrec.buffer ▸ hne) hu⟩
  · intro w hw hb
    exact h.written w (hrest hw).1 (hwriting _ hb)
  · have hsplit : (↑s.outstanding : Multiset RdmaPut) =
        ↑((s.pendingOf b).filterMap BookedWrite.put) +
          ↑((s.bufferPendingWrites.filter fun w => ¬ w.buffer = b).filterMap BookedWrite.put) := by
      rw [Multiset.coe_add, ← List.filterMap_append, outstanding, pendingOf]
      refine Multiset.coe_eq_coe.mpr (List.Perm.filterMap _ ?_)
      simpa using (List.filter_append_perm (fun w => decide (w.buffer = b))
        s.bufferPendingWrites).symm
    have hsum := h.accounted
    rw [hsplit] at hsum
    simp only [outstanding, List.map_append, hmap]
    rw [hsum, ← Multiset.coe_add]
    abel
  · intro a ha
    exact (List.mem_append.mp ha).elim (h.truthful a) (htrue a)

/-- **Going on with a submitted buffer**: it is written, with the slots in it, or given up. -/
theorem Inv.submitBuffer (h : s.Inv) (place : Option (ℕ × ℕ)) : (s.submitBuffer place).Inv := by
  rw [RdmaWriter.submitBuffer.eq_def]
  cases hb : s.engine.nextBuffer with
  | none =>
      have heq := RdmaEngine.submitBuffer_of_none hb place.isSome
      exact h.withEngine (h.slots.submitBuffer _) (h.keeps.submitBuffer_of_none hb _)
        (fun _ hu => hu.of_eq (by rw [heq])) (by rw [heq])
  | some b =>
      obtain ⟨ring, hring, -⟩ := RdmaEngine.nextBuffer_eq_some_iff.mp hb
      have hnot : b ∉ s.engine.writing :=
        h.keeps.ring_notMem (hring ▸ List.mem_cons_self)
      cases place with
      | none =>
          have heq := h.slots.submitBuffer_of_noFile hb
          refine h.completeRecords (fun hok => absurd hok Bool.false_ne_true)
            (h.slots.submitBuffer _) (h.keeps.submitBuffer_of_noFile h.slots hb) ?_ ?_
          · intro slot hne hu
            have hkeep : RdmaEngine.Unreset { s.engine with
              manager := { s.engine.manager with
                submitRing := s.engine.manager.submitRing.tail } } slot := hu
            rw [Option.isSome_none, heq]
            exact hkeep.resetBuffer hne _
          · intro x hx
            rw [Option.isSome_none, heq] at hx
            exact hx
      | some place =>
          obtain ⟨fileId, offset⟩ := place
          have heq := RdmaEngine.submitBuffer_of_file hb
          have hunreset (slot : AppendSlot) (hu : s.engine.Unreset slot) :
              (s.engine.submitBuffer true).Unreset slot := hu.of_eq (by rw [heq])
          refine ⟨h.slots.submitBuffer _, h.keeps.submitBuffer_of_file hb, h.returned,
            fun w hw put hput => ⟨(h.records w hw put hput).1,
              hunreset _ (h.records w hw put hput).2⟩,
            fun w hw hmem put hput => ?_, h.index, h.numbered, h.accounted, h.truthful⟩
          obtain ⟨hrec, hu⟩ := h.records w hw put hput
          dsimp only at hmem ⊢
          rw [Option.isSome_some, heq] at hmem
          rcases List.mem_append.mp hmem with hmem | hmem
          · have hne : w.buffer ≠ b := fun heq => hnot (heq ▸ hmem)
            rw [if_neg fun hand => hne (hrec.buffer ▸ hand.1), Function.update_of_ne hne]
            exact h.written w hw hmem put hput
          · obtain rfl := List.mem_singleton.mp hmem
            rw [if_pos ⟨hrec.buffer, hu⟩, Function.update_self]

/-- **The write of a buffer completes.** -/
theorem Inv.complete (h : s.Inv) {b : ℕ} (hb : b ∈ s.engine.writing) {ok : Bool}
    (hok : ok = true → TakesRecords (s.ioRange b) s.memIndex (s.pendingOf b)) :
    (s.complete b ok).Inv := by
  have heq := (h.slots.erase b).returnBuffer_eq b
  refine h.completeRecords (fun hok' => ⟨hb, hok hok'⟩) (h.slots.complete hb)
    (h.keeps.complete h.slots hb) ?_ ?_
  · intro slot hne hu
    have hkeep : RdmaEngine.Unreset { s.engine with writing := s.engine.writing.erase b } slot := hu
    rw [heq]
    exact hkeep.resetBuffer hne _
  · intro x hx
    rw [heq] at hx
    exact List.mem_of_mem_erase hx

/-- **What one step keeps**, under the condition. -/
theorem Inv.step (h : s.Inv) {s' : RdmaWriter n} {ev : RdmaWriteEvent} (hcond : s.CallsInPlace ev)
    (hstep : s.step ev = some s') : s'.Inv := by
  cases ev with
  | allocRdmaSlot valueLen =>
      obtain rfl := Option.some.inj hstep
      exact h.allocRdmaSlot valueLen
  | putRdma i valueOffset key len seq =>
      obtain ⟨slot, hslot, rfl⟩ := Option.map_eq_some_iff.mp hstep
      exact h.putRdma (List.mem_of_getElem? hslot) (hcond slot hslot) key seq
  | commitRdmaSlot slotId epoch =>
      obtain rfl := Option.some.inj hstep
      exact h.withEngine (h.slots.commitRdmaSlot slotId epoch)
        (h.keeps.commitRdmaSlot slotId epoch) (fun _ hu => hu.commitRdmaSlot slotId epoch)
        (RdmaEngine.writing_commitRdmaSlot slotId epoch)
  | putBuffered key valueLen =>
      obtain rfl := Option.some.inj hstep
      exact h.putBuffered key valueLen
  | flush =>
      obtain rfl := Option.some.inj hstep
      exact h.withEngine h.slots.submitCurrentBuffer h.keeps.submitCurrentBuffer
        (fun _ hu => hu.of_eq rfl) rfl
  | submitBuffer place =>
      obtain rfl := Option.some.inj hstep
      exact h.submitBuffer place
  | complete b ok =>
      obtain ⟨hb, heq⟩ := Option.ite_none_right_eq_some.mp hstep
      obtain rfl := Option.some.inj heq
      refine h.complete hb fun hok => ?_
      obtain rfl := hok
      exact hcond
  | checkPendingReset =>
      obtain rfl := Option.some.inj hstep
      have heq := h.slots.checkPendingReset_eq
      rwa [heq]
  | otherComplete op =>
      obtain rfl := Option.some.inj hstep
      exact h.withIndex (h.index.applyOp hcond.orderly)

/-! ### Runs -/

/-- **In every run in which `put_rdma` is called while the buffer of its slot is the active one**
and the index takes what completes, every call whose value fits its slot is answered once, and
the index tells the truth at every success. -/
theorem honoured_of_inPlace {bufferCount : ℕ} {data : ℕ → ℕ} {events : List RdmaWriteEvent}
    {s : RdmaWriter n}
    (hin : (rdmaWriteMachine n).Meets CallsInPlace (start n bufferCount data) events)
    (hrun : (rdmaWriteMachine n).run (start n bufferCount data) events = some s) : s.Honoured :=
  ((rdmaWriteMachine n).run_invariant Inv (fun _ _ _ h hcond hstep => h.step hcond hstep)
    (inv_start bufferCount data) hin hrun).honoured

/-- The buffers lie one behind the other in memory. -/
def sampleData (b : ℕ) : ℕ := b * kAppendBufferSize

/-- A client commits its slot in time, and the buffer is written. -/
def commitInTime : List RdmaWriteEvent :=
  [.allocRdmaSlot 100, .putBuffered 2 50, .putRdma 0 28 1 100 7, .flush,
    .submitBuffer (some (1, 4096)), .complete 0 true]

/-- A commit in time is honoured. -/
theorem honoured_commitInTime :
    ∃ s, (rdmaWriteMachine 3).run (start 3 4 sampleData) commitInTime = some s ∧ s.Honoured ∧
      s.answers.map (fun a => (a.put.key, a.ok)) = [(1, true)] := by
  have hrun : ((rdmaWriteMachine 3).run (start 3 4 sampleData) commitInTime).map
      (fun s => s.answers.map fun a => (a.put.key, a.ok)) = some [(1, true)] := by
    decide +kernel
  obtain ⟨s, hs, hanswers⟩ := Option.map_eq_some_iff.mp hrun
  exact ⟨s, hs, honoured_of_inPlace (by decide +kernel) hs, hanswers⟩

/-- **A call that is booked under another buffer**: between the two phases the buffer is flushed.
The callback reports success when the next buffer has been written, and the index says that the
record is on page 1048066, while the bytes of the slot were written to page 1. -/
theorem misbooked_put :
    ∃ s, (rdmaWriteMachine 3).run (start 3 4 sampleData)
        [.allocRdmaSlot 100, .flush, .putRdma 0 28 1 100 7, .putBuffered 2 100, .flush,
          .submitBuffer (some (1, 4096)), .submitBuffer (some (1, 8192)), .complete 0 true,
          .complete 1 true] = some s ∧
      s.answers.map (fun a => (a.ok, a.entry.map fun e => e.offsetIndex.toNat, a.written)) =
        [(true, some 1048066, some ⟨0, 1, 4096, 4096⟩)] ∧ ¬ s.Honoured := by
  have hrun : ((rdmaWriteMachine 3).run (start 3 4 sampleData)
      [.allocRdmaSlot 100, .flush, .putRdma 0 28 1 100 7, .putBuffered 2 100, .flush,
        .submitBuffer (some (1, 4096)), .submitBuffer (some (1, 8192)), .complete 0 true,
        .complete 1 true]).map (fun s => s.answers.map fun a =>
          (a.ok, a.entry.map fun e => e.offsetIndex.toNat, a.written)) =
      some [(true, some 1048066, some ⟨0, 1, 4096, 4096⟩)] := by
    decide +kernel
  obtain ⟨s, hs, hanswers⟩ := Option.map_eq_some_iff.mp hrun
  refine ⟨s, hs, hanswers, fun h => ?_⟩
  obtain ⟨a, ha, heq⟩ := List.mem_map.mp (hanswers ▸ List.mem_singleton_self _)
  obtain ⟨hok, heq⟩ := Prod.mk.inj heq
  obtain ⟨hentry, hwritten⟩ := Prod.mk.inj heq
  obtain ⟨e, r, he, hr, hdenotes⟩ := h.truthful a ha hok
  rw [he, Option.map_some] at hentry
  obtain rfl := Option.some.inj (hwritten.symm.trans hr)
  have hoffset := hdenotes.2.1
  rw [Option.some.inj hentry, kPageSize] at hoffset
  dsimp only at hoffset
  omega

/-- **A call that is not booked at all**: all buffers are submitted when `put_rdma` is called. Its
callback is neither run nor kept. -/
theorem lost_put :
    ∃ s, (rdmaWriteMachine 3).run (start 3 4 sampleData)
        [.allocRdmaSlot 100, .flush, .allocRdmaSlot 100, .flush, .allocRdmaSlot 100, .flush,
          .allocRdmaSlot 100, .flush, .putRdma 3 28 1 100 7] = some s ∧
      s.puts.length = 1 ∧ s.outstanding = [] ∧ s.answers = [] ∧ ¬ s.Honoured := by
  have hrun : ((rdmaWriteMachine 3).run (start 3 4 sampleData)
      [.allocRdmaSlot 100, .flush, .allocRdmaSlot 100, .flush, .allocRdmaSlot 100, .flush,
        .allocRdmaSlot 100, .flush, .putRdma 3 28 1 100 7]).map
        (fun s => (s.puts.length, s.outstanding, s.answers)) = some (1, [], []) := by
    decide +kernel
  obtain ⟨s, hs, hview⟩ := Option.map_eq_some_iff.mp hrun
  obtain ⟨hputs, hview⟩ := Prod.mk.inj hview
  obtain ⟨hout, hanswers⟩ := Prod.mk.inj hview
  refine ⟨s, hs, hputs, hout, hanswers, fun h => ?_⟩
  have hcard := congrArg Multiset.card h.accounted
  simp only [hout, hanswers, Multiset.coe_card, Multiset.card_add, hputs, List.length_nil,
    List.map_nil] at hcard
  omega

end RdmaWriter

end SpdkKv
