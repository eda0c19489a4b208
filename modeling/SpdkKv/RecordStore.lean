import SpdkKv.Lib.ByteStore
import SpdkKv.SyncEngine

/-!
# Records on Disk and Their Readers

The engine together with the contents of its data files. Two layouts of records coexist:
`put` and `put_buffered` put the header into the first bytes and the value behind it,
`put_async` leaves the first 256 bytes to the user, puts its metadata behind them and the
value from byte 512 on. `get` reads the first layout, `get_async` and the C function
`spdk_kv_get_async` read the second one.

A reader gets the memory that its buffer lies in: what a read of the disk does not fill
keeps its contents, and the copy of a value can run past the end of the buffer.

## Main results

* `KvStore.get_success_iff`, `KvStore.getAsync_success_iff`: when a read reports success.
* `KvStore.completePut_wrote`, `KvStore.endSync_wrote`: a record ends on the disk and its
  entry in the index.
-/

namespace SpdkKv

/-- The engine and its data files. -/
structure KvStore (n : ℕ) where
  engine : Engine n
  disk : ByteStore ℕ

/-- A page of a data file. -/
structure Place where
  fileId : ℕ
  page : ℕ
  deriving DecidableEq, Repr

/-- The offset of a page in its file. -/
def Place.offset (p : Place) : ℕ := p.page * kPageSize

/-! ### Records -/

/-- A record that is ready to be written. -/
structure RecordWrite where
  key : UInt64
  sequence : UInt32
  pageCount : UInt16
  bytes : List UInt8

/-- The index entry of a record that was written to a place. -/
def RecordWrite.entry (w : RecordWrite) (p : Place) : MemIndexEntry where
  key := w.key
  fileId := BitVec.ofNat 10 p.fileId
  offsetIndex := BitVec.ofNat 21 p.page
  deleted := false
  sequence := w.sequence
  pageCount := w.pageCount
  tag := HashUtil.tag w.key

/-- The record of `put` and `put_buffered`. The length of the IO is a `uint32_t`. -/
def builtWrite (key : UInt64) (value : List UInt8) (seq : UInt32) : RecordWrite where
  key := key
  sequence := seq
  pageCount := UInt16.ofNat (entrySize value.length / kPageSize)
  bytes := (buildEntryInplace key value seq false).take (entrySize value.length % 2 ^ 32)

/-- The checksum that `put_async` computes, over everything but the metadata area. -/
def segmentCrc (first : List UInt8) (rest : List (List UInt8)) : UInt32 :=
  let crc := Crc32.calculate (first.take kSegmentMetaOffset)
  let crc :=
    if kSegmentDataOffset < first.length then
      Crc32.combine crc (first.drop kSegmentDataOffset)
    else crc
  rest.foldl Crc32.combine crc

/-- It is the checksum of these bytes, however they are split into segments. -/
theorem segmentCrc_eq_calculate (first : List UInt8) (rest : List (List UInt8)) :
    segmentCrc first rest = Crc32.calculate (first.take kSegmentMetaOffset ++
      first.drop kSegmentDataOffset ++ rest.flatten) := by
  rw [segmentCrc]
  split_ifs with hlong
  · rw [Crc32.combine_calculate, Crc32.foldl_combine]
  · rw [List.drop_of_length_le (not_lt.mp hlong), List.append_nil, Crc32.foldl_combine]

/-- The metadata of a segment-format record. -/
def segmentMetadata (key : UInt64) (totalSize : ℕ) (seq crc : UInt32) : List UInt8 :=
  EntryHeader.bytes ⟨kEntryMagic, 1, kFlagSegmentBuf, 0, seq, 0⟩ ++ leBytes 8 key.toNat ++
    leBytes 4 totalSize ++ leBytes 4 crc.toNat

/-- Size of the metadata of a segment-format record. -/
def segmentMetadataSize : ℕ := sizeofEntryHeader + 8 + 4 + 4

/-- The first segment with the metadata in it. -/
def stampSegment (first metadata : List UInt8) : List UInt8 :=
  first.take kSegmentMetaOffset ++ metadata ++
    first.drop (kSegmentMetaOffset + segmentMetadataSize)

/-- The record of `put_async`. -/
def segmentWrite (key : UInt64) (first : List UInt8) (rest : List (List UInt8))
    (seq : UInt32) : RecordWrite where
  key := key
  sequence := seq
  pageCount := UInt16.ofNat ((first ++ rest.flatten).length % 2 ^ 32 / kPageSize)
  bytes :=
    let totalSize := (first ++ rest.flatten).length % 2 ^ 32
    let metadata := segmentMetadata key totalSize seq (segmentCrc first rest)
    (stampSegment first metadata ++ rest.flatten).take totalSize

/-! ### Readers -/

/-- What a read reports: its status, the length and the contents of the buffer. -/
structure ReadResult where
  status : KvError
  actualLen : ℕ
  buffer : List UInt8
  deriving DecidableEq, Repr

namespace KvStore

variable {n : ℕ}

/-- The entry of a key, if its file can be read. -/
def fetch (s : KvStore n) (key : UInt64) : Except KvError MemIndexEntry :=
  match s.engine.memIndex.findEntry key with
  | none => .error .kKeyNotFound
  | some entry =>
      if entry.deleted then .error .kKeyNotFound
      else
        match s.engine.space.getFile entry.fileId.toNat with
        | none => .error .kIoError
        | some file =>
            if !file.isReadable || !file.blobOpened then .error .kIoError else .ok entry

/-- The bytes that are read for an entry. -/
def readSize (entry : MemIndexEntry) : ℕ := entry.pageCount.toNat * kPageSize

/-- The contents of the pages of an entry. -/
def pages (s : KvStore n) (entry : MemIndexEntry) : List UInt8 :=
  (s.disk entry.fileId.toNat).read (entry.offsetIndex.toNat * kPageSize) (readSize entry)

/-- `get`. The DMA buffer lies at address 0 of the memory. -/
def get (s : KvStore n) (key : UInt64) (mem : ByteMemory) (bufLen : ℕ) (ioOk : Bool) :
    ReadResult :=
  if s.engine.state ≠ .kReady then ⟨.kEngineNotReady, 0, []⟩
  else if bufLen = 0 then ⟨.kInvalidArgument, 0, []⟩
  else
    match s.fetch key with
    | .error e => ⟨e, 0, []⟩
    | .ok entry =>
        if !ioOk then ⟨.kIoError, 0, []⟩
        else
          let dma := mem.write 0 (s.pages entry)
          let front := dma.read 0 recordHeaderSize
          if (readHeader front 0).magic ≠ kEntryMagic then ⟨.kCorruption, 0, []⟩
          else
            let valueLen := (readValueLen front 0).toNat
            if bufLen < valueLen then ⟨.kValueTooLarge, valueLen, []⟩
            else ⟨.kSuccess, valueLen, dma.read recordHeaderSize valueLen⟩

/-- `get_async` into segments, with `handle_get_read_completion`; the buffer of the result
is what the segments hold afterwards. -/
def getAsync (s : KvStore n) (key : UInt64) (output : List (List UInt8)) (ioOk : Bool) :
    ReadResult :=
  if s.engine.state ≠ .kReady then ⟨.kEngineNotReady, 0, output.flatten⟩
  else if output = [] then ⟨.kInvalidArgument, 0, output.flatten⟩
  else
    match s.fetch key with
    | .error e => ⟨e, 0, output.flatten⟩
    | .ok entry =>
        if output.flatten.length < readSize entry then
          ⟨.kInvalidArgument, readSize entry, output.flatten⟩
        else if !ioOk then ⟨.kIoError, 0, output.flatten⟩
        else
          let buffer := s.pages entry ++ output.flatten.drop (readSize entry)
          if (readHeader buffer kSegmentMetaOffset).magic ≠ kEntryMagic then
            ⟨.kCorruption, 0, buffer⟩
          else ⟨.kSuccess, (readValueLen buffer kSegmentMetaOffset).toNat, buffer⟩

/-- `spdk_kv_get_async` with `c_api_get_async_callback`. The DMA buffer lies at address 0 of
the memory. -/
def cGetAsync (s : KvStore n) (key : UInt64) (mem : ByteMemory) (bufLen : ℕ) (ioOk : Bool) :
    ReadResult :=
  let requiredSize := alignUp (bufLen + kSegmentDataOffset) kPageSize % 2 ^ 32
  let allocSize := min requiredSize (16 * kPageSize)
  let r := s.getAsync key [mem.read 0 allocSize] ioOk
  if r.status = .kSuccess then
    if bufLen < r.actualLen then ⟨.kValueTooLarge, r.actualLen, []⟩
    else ⟨.kSuccess, r.actualLen,
      (mem.write 0 r.buffer).read kSegmentDataOffset r.actualLen⟩
  else ⟨r.status, r.actualLen, []⟩

/-! ### When reads succeed -/

section Success

variable {s : KvStore n} {key : UInt64} {entry : MemIndexEntry} {mem : ByteMemory}
  {bufLen : ℕ} {output : List (List UInt8)} {ioOk : Bool}

/-- A record that cannot be fetched is reported as an error. -/
theorem fetch_ne_success (s : KvStore n) (key : UInt64) :
    s.fetch key ≠ .error .kSuccess := by
  intro h
  rw [KvStore.fetch] at h
  split at h
  · cases h
  · split_ifs at h
    · cases h
    · split at h
      · cases h
      · split_ifs at h
        cases h

/-- A read of the key gets as far as the pages of the entry. -/
def Reads (s : KvStore n) (key : UInt64) (entry : MemIndexEntry) : Prop :=
  s.engine.state = .kReady ∧ s.fetch key = .ok entry

/-- The memory of the DMA buffer of `get` after its read. -/
def dmaBuffer (s : KvStore n) (entry : MemIndexEntry) (mem : ByteMemory) : ByteMemory :=
  mem.write 0 (s.pages entry)

/-- The contents of the segments of `get_async` after its read. -/
def segmentBuffer (s : KvStore n) (entry : MemIndexEntry) (output : List (List UInt8)) :
    List UInt8 :=
  s.pages entry ++ output.flatten.drop (readSize entry)

/-- The front of a record in the first layout. -/
def recordFront (dma : ByteMemory) : List UInt8 := dma.read 0 recordHeaderSize

/-- The length that `get` finds. -/
def storedLen (dma : ByteMemory) : ℕ := (readValueLen (recordFront dma) 0).toNat

/-- The length that `get_async` finds. -/
def segmentLen (buffer : List UInt8) : ℕ := (readValueLen buffer kSegmentMetaOffset).toNat

/-- What `get` checks. -/
structure GetAccepts (dma : ByteMemory) (bufLen : ℕ) : Prop where
  buffer : bufLen ≠ 0
  magic : (readHeader (recordFront dma) 0).magic = kEntryMagic
  length : storedLen dma ≤ bufLen

/-- What `get_async` checks. -/
structure GetAsyncAccepts (s : KvStore n) (entry : MemIndexEntry)
    (output : List (List UInt8)) : Prop where
  segments : output ≠ []
  room : readSize entry ≤ output.flatten.length
  magic : (readHeader (s.segmentBuffer entry output) kSegmentMetaOffset).magic = kEntryMagic

/-- Only one entry is read for a key. -/
theorem Reads.unique {entry' : MemIndexEntry} (h : s.Reads key entry)
    (h' : s.Reads key entry') : entry = entry' :=
  Except.ok.inj (h.2.symm.trans h'.2)

/-- A `get` whose checks are passed. -/
theorem get_of_accepts (hr : s.Reads key entry)
    (ha : GetAccepts (s.dmaBuffer entry mem) bufLen) :
    s.get key mem bufLen true = ⟨.kSuccess, storedLen (s.dmaBuffer entry mem),
      (s.dmaBuffer entry mem).read recordHeaderSize (storedLen (s.dmaBuffer entry mem))⟩ := by
  obtain ⟨hready, hfetch⟩ := hr
  obtain ⟨hbuf, hmagic, hlen⟩ := ha
  simp only [get, hfetch]
  rw [if_neg (not_not.mpr hready), if_neg hbuf, if_neg (by simp)]
  exact (if_neg (not_not.mpr hmagic)).trans (if_neg (not_lt.mpr hlen))

/-- **When `get` reports success.** -/
theorem get_success_iff : (s.get key mem bufLen ioOk).status = .kSuccess ↔
    ∃ entry, s.Reads key entry ∧ ioOk = true ∧ GetAccepts (s.dmaBuffer entry mem) bufLen := by
  constructor
  · intro h
    cases hf : s.fetch key with
    | error e =>
        simp only [get, hf] at h
        split_ifs at h
        obtain rfl : e = .kSuccess := h
        exact absurd hf (fetch_ne_success s key)
    | ok entry =>
        simp only [get, hf] at h
        split_ifs at h with hready hbuf hio hmagic hlen
        exact ⟨entry, ⟨not_not.mp hready, hf⟩, by simpa using hio, hbuf, not_not.mp hmagic,
          not_lt.mp hlen⟩
  · rintro ⟨entry, hr, rfl, ha⟩
    rw [get_of_accepts hr ha]

/-- A `get_async` whose checks are passed. -/
theorem getAsync_of_accepts (hr : s.Reads key entry) (ha : s.GetAsyncAccepts entry output) :
    s.getAsync key output true = ⟨.kSuccess, segmentLen (s.segmentBuffer entry output),
      s.segmentBuffer entry output⟩ := by
  obtain ⟨hready, hfetch⟩ := hr
  obtain ⟨hsegments, hroom, hmagic⟩ := ha
  simp only [getAsync, hfetch]
  rw [if_neg (not_not.mpr hready), if_neg hsegments, if_neg (not_lt.mpr hroom),
    if_neg (by simp)]
  exact if_neg (not_not.mpr hmagic)

/-- **When `get_async` reports success.** -/
theorem getAsync_success_iff : (s.getAsync key output ioOk).status = .kSuccess ↔
    ∃ entry, s.Reads key entry ∧ ioOk = true ∧ s.GetAsyncAccepts entry output := by
  constructor
  · intro h
    cases hf : s.fetch key with
    | error e =>
        simp only [getAsync, hf] at h
        split_ifs at h
        obtain rfl : e = .kSuccess := h
        exact absurd hf (fetch_ne_success s key)
    | ok entry =>
        simp only [getAsync, hf] at h
        split_ifs at h with hready hsegments hroom hio hmagic
        exact ⟨entry, ⟨not_not.mp hready, hf⟩, by simpa using hio, hsegments,
          not_lt.mp hroom, not_not.mp hmagic⟩
  · rintro ⟨entry, hr, rfl, ha⟩
    rw [getAsync_of_accepts hr ha]

end Success

/-! ### Records that were written -/

/-- The store after a record was written to a place: it is on the disk, the index was called
with its entry, and its file can be read. -/
structure Wrote (s : KvStore n) (w : RecordWrite) (p : Place) (s' : KvStore n) : Prop where
  ready : s'.engine.state = .kReady
  file : ∃ file, s'.engine.space.getFile p.fileId = some file ∧ file.isReadable = true ∧
    file.blobOpened = true
  memIndex : s'.engine.memIndex = (s.engine.memIndex.upsert w.key (w.entry p)).1
  disk : s'.disk = s.disk.write p.fileId p.offset w.bytes

/-- The handlers of completions, which all end in `completePut`. -/
theorem completePut_wrote (s : KvStore n) (w : RecordWrite) (p : Place)
    (hready : s.engine.state = .kReady) {file : FileInfo}
    (hfile : s.engine.space.getFile p.fileId = some file) (hr : file.isReadable = true)
    (ho : file.blobOpened = true) :
    s.Wrote w p ⟨s.engine.completePut w.key (w.entry p),
      s.disk.write p.fileId p.offset w.bytes⟩ where
  ready := by rw [← hready, Engine.completePut, Engine.markGarbage]; split <;> rfl
  file := by
    refine ⟨file, ?_, hr, ho⟩
    rw [← hfile, Engine.completePut, Engine.markGarbage]
    split <;> rfl
  memIndex := by rw [Engine.completePut, Engine.markGarbage]; split <;> rfl
  disk := rfl

/-- The end of a synchronous `put`. -/
theorem endSync_wrote (s : KvStore n) {sync : SyncWrite} (w : RecordWrite) {p : Place}
    (hput : sync.req.isDelete = false)
    (hkey : sync.req.key = w.key) (hentry : Engine.entryFor sync.file sync.req = w.entry p)
    (hready : s.engine.state = .kReady) {file : FileInfo}
    (hfile : s.engine.space.getFile p.fileId = some file) (hr : file.isReadable = true)
    (ho : file.blobOpened = true) :
    s.Wrote w p ⟨(s.engine.endSync sync true).1, s.disk.write p.fileId p.offset w.bytes⟩ := by
  have h := s.completePut_wrote w p hready hfile hr ho
  obtain ⟨f, hf, hfr, hfo⟩ := h.file
  rw [Engine.endSync]
  simp only [hput, hkey, hentry, if_true, Bool.false_eq_true, if_false]
  obtain ⟨f', hf', hor⟩ := FileSpace.getFile_modifyFile (i := sync.place)
    (f := fun file => file.grow sync.req.alignedSize) (fun _ => rfl) hf
  refine ⟨h.ready, ⟨f', hf', ?_⟩, h.memIndex, rfl⟩
  rcases hor with rfl | rfl
  · exact ⟨hfr, hfo⟩
  · exact ⟨hfr, hfo⟩

end KvStore

/-! ### The records of the engine -/

/-- A write at the end of a file gets the entry of its record. -/
theorem Engine.entryFor_eq {file : FileInfo} {req : QueuedWrite} {w : RecordWrite}
    (hd : req.isDelete = false) (htag : req.tag = HashUtil.tag req.key)
    (hk : req.key = w.key) (hs : req.sequence = w.sequence) (hp : req.pageCount = w.pageCount) :
    entryFor file req = w.entry ⟨file.fileId, file.writeOffset / kPageSize⟩ := by
  rw [entryFor, RecordWrite.entry, hd, htag, hk, hs, hp]

/-- A record in an append buffer gets the entry of its record. -/
theorem Engine.bufferedEntry_eq {fileId basePageOffset : ℕ} {b : BufferedPendingWrite}
    {w : RecordWrite} (htag : b.tag = HashUtil.tag b.key) (hk : b.key = w.key)
    (hs : b.sequence = w.sequence) (hp : b.pageCount = w.pageCount) :
    bufferedEntry fileId basePageOffset b =
      w.entry ⟨fileId, basePageOffset + b.bufferOffset / kPageSize⟩ := by
  rw [bufferedEntry, RecordWrite.entry, htag, hk, hs, hp]

end SpdkKv
