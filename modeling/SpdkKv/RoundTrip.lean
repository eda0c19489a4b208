import SpdkKv.AsyncSettle
import SpdkKv.RecordParse
import SpdkKv.RecordStore

/-!
# Reading What Was Written

Every write entry point against every read entry point. A value makes the round trip when
every read of its key, right after the write was reported successful and with a buffer that
is large enough, reports success, delivers exactly the value and reports exactly its
length.

## Main results

* `round_trip_iff`: **the round trip works for a record in the first layout that `get`
  reads**, if its page count and its place fit the index entry, and in no other case.
-/

namespace SpdkKv

open KvStore

/-! ### Entry points -/

/-- The write entry points; the C function `spdk_kv_put_async` is `put_buffered`. -/
inductive Writer
  | put
  | putBuffered
  | putAsync
  deriving DecidableEq, Repr

/-- The read entry points. -/
inductive Reader
  | get
  | getAsync
  | cGetAsync
  deriving DecidableEq, Repr

/-- Number of segments of a `SegmentBuf`. -/
def kMaxSegmentCount : ℕ := 16

/-- The lengths of values that a writer takes. -/
def Writer.Accepts (len : ℕ) : Writer → Prop
  | .put => 0 < len ∧ len < 2 ^ 32
  | .putBuffered => 0 < len ∧ len < 2 ^ 32
  | .putAsync => (len + kSegmentDataOffset) % kPageSize = 0

/-- The size of the record of a value. -/
def Writer.recordSize (len : ℕ) : Writer → ℕ
  | .put => entrySize len
  | .putBuffered => entrySize len
  | .putAsync => len + kSegmentDataOffset

/-- The record that a writer makes of a value. -/
inductive Writer.Writes : Writer → RecordWrite → List UInt8 → Prop
  | put (key : UInt64) (value : List UInt8) (seq : UInt32) :
      Writes .put (builtWrite key value seq) value
  | putBuffered (key : UInt64) (value : List UInt8) (seq : UInt32) :
      Writes .putBuffered (builtWrite key value seq) value
  | putAsync (key : UInt64) (first : List UInt8) (rest : List (List UInt8)) (seq : UInt32)
      (hfirst : kPageSize ≤ first.length) (hcount : rest.length < kMaxSegmentCount)
      (haligned : ∀ segment ∈ first :: rest, segment.length % kPageSize = 0) :
      Writes .putAsync (segmentWrite key first rest seq)
        ((first ++ rest.flatten).drop kSegmentDataOffset)

/-- A call of a read entry point: the memory of the buffer and its length, or the segments
that the data is read into. -/
inductive ReadCall
  | get (mem : ByteMemory) (bufLen : ℕ)
  | getAsync (output : List (List UInt8))
  | cGetAsync (mem : ByteMemory) (bufLen : ℕ)

/-- The entry point of a call. -/
def ReadCall.reader : ReadCall → Reader
  | get _ _ => .get
  | getAsync _ => .getAsync
  | cGetAsync _ _ => .cGetAsync

/-- The buffer of a call is large enough for a value of the given length, which `get_async`
reads together with its record. -/
def ReadCall.Large (recordSize len : ℕ) : ReadCall → Prop
  | get _ bufLen => len ≤ bufLen
  | getAsync output => recordSize ≤ output.flatten.length ∧
      ∀ segment ∈ output, kPageSize ≤ segment.length
  | cGetAsync _ bufLen => len ≤ bufLen

/-- A result of a read is a success with this length. -/
def ReadResult.Reports (r : ReadResult) (len : ℕ) : Prop :=
  r.status = .kSuccess ∧ r.actualLen = len

/-- The call reports success, delivers the value and reports its length. The value of
`get_async` begins at byte 512 of its segments. -/
def ReadCall.Delivers {n : ℕ} (s : KvStore n) (key : UInt64) (value : List UInt8) :
    ReadCall → Prop
  | get mem bufLen =>
      let r := s.get key mem bufLen true
      r.Reports value.length ∧ r.buffer = value
  | getAsync output =>
      let r := s.getAsync key output true
      r.Reports value.length ∧ slice r.buffer kSegmentDataOffset value.length = value
  | cGetAsync mem bufLen =>
      let r := s.cGetAsync key mem bufLen true
      r.Reports value.length ∧ r.buffer = value

/-! ### The index and the place -/

/-- The index takes an entry: the call is orderly, finds room, and what is stored for the key
is older. -/
structure MemIndex.Takes {n : ℕ} (m : MemIndex n) (e : MemIndexEntry) : Prop where
  wf : m.Wf
  accepted : m.AcceptedOp (.upsert e)
  newer : ∀ o, m.stored e.key = some o → MemIndex.sequenceNewer e.sequence o.sequence = true

/-- The file and the page of a place fit the bit fields of an index entry. -/
def Place.Fits (p : Place) : Prop := p.fileId < 2 ^ 10 ∧ p.page < 2 ^ 21

/-- The pages of the record of a value fit the page count of an index entry. -/
def PagesFit (len : ℕ) : Prop := pagesFor (recordHeaderSize + len + 4) < 2 ^ 16

/-- The round trip for values of a length whose records are written to a place. -/
def RoundTrips (w : Writer) (r : Reader) (len : ℕ) (p : Place) : Prop :=
  ∀ (n : ℕ) (s s' : KvStore n) (record : RecordWrite) (value : List UInt8),
    value.length = len → w.Writes record value →
    s.engine.memIndex.Takes (record.entry p) → s.Wrote record p s' →
    ∀ call : ReadCall, call.reader = r → call.Large (w.recordSize len) len →
      call.Delivers s' record.key value

/-- An entry that the index takes is found. -/
theorem MemIndex.Takes.findEntry_upsert {n : ℕ} {m : MemIndex n} {e : MemIndexEntry}
    (h : m.Takes e) (hd : e.deleted = false) :
    (m.upsert e.key e).1.findEntry e.key = some (MemIndex.tagged e.key e) :=
  h.wf.findEntry_upsert h.accepted hd h.newer

/-- The fingerprint of the entry of a record is that of its key. -/
theorem RecordWrite.tagged_entry (w : RecordWrite) (p : Place) :
    MemIndex.tagged w.key (w.entry p) = w.entry p := by
  rw [MemIndex.tagged, RecordWrite.entry]

section Read

variable {n : ℕ} {s s' : KvStore n} {w : RecordWrite} {p : Place}

/-- The entry of a record that was written is found. -/
theorem KvStore.Wrote.findEntry (h : s.Wrote w p s')
    (ht : s.engine.memIndex.Takes (w.entry p)) :
    s'.engine.memIndex.findEntry w.key = some (w.entry p) := by
  have := ht.findEntry_upsert rfl
  rw [h.memIndex]
  exact this.trans (congrArg some (w.tagged_entry p))

theorem KvStore.fetch_eq_ok {key : UInt64} {e : MemIndexEntry} (h : s.fetch key = .ok e) :
    s.engine.memIndex.findEntry key = some e := by
  rw [KvStore.fetch] at h
  split at h
  · cases h
  · next entry hentry =>
      split_ifs at h
      split at h
      · cases h
      · split_ifs at h
        obtain rfl := Except.ok.inj h
        exact hentry

/-- The record that was written can be fetched, if its place fits the entry. -/
theorem KvStore.Wrote.fetch (h : s.Wrote w p s') (ht : s.engine.memIndex.Takes (w.entry p))
    (hp : p.Fits) : s'.fetch w.key = .ok (w.entry p) := by
  obtain ⟨file, hfile, hr, ho⟩ := h.file
  have hid : (w.entry p).fileId.toNat = p.fileId := by
    rw [RecordWrite.entry, BitVec.toNat_ofNat, Nat.mod_eq_of_lt hp.1]
  rw [KvStore.fetch, h.findEntry ht]
  simp only [hid, hfile, hr, ho]
  rfl

/-! ### The layout that `get` reads -/

/-- The size of the record that the readers assume. -/
theorem readSize_builtWrite (key : UInt64) (value : List UInt8) (seq : UInt32) (p : Place) :
    readSize ((builtWrite key value seq).entry p) =
      pagesFor (recordHeaderSize + value.length + 4) % 2 ^ 16 * kPageSize := by
  have hdiv : entrySize value.length / kPageSize =
      pagesFor (recordHeaderSize + value.length + 4) := by
    rw [entrySize_eq, Nat.mul_div_cancel _ (by decide)]
  simp only [readSize, RecordWrite.entry, builtWrite, hdiv, UInt16.toNat_ofNat']

/-- The pages of an entry whose place fits hold the bytes that were written. -/
theorem KvStore.Wrote.pages (h : s.Wrote w p s') (hp : p.Fits)
    (hlen : readSize (w.entry p) ≤ w.bytes.length) :
    s'.pages (w.entry p) = w.bytes.take (readSize (w.entry p)) := by
  have hid : (w.entry p).fileId.toNat = p.fileId := by
    rw [RecordWrite.entry, BitVec.toNat_ofNat, Nat.mod_eq_of_lt hp.1]
  have hoff : (w.entry p).offsetIndex.toNat * kPageSize = p.offset + 0 := by
    rw [RecordWrite.entry, BitVec.toNat_ofNat, Nat.mod_eq_of_lt hp.2, Nat.add_zero,
      Place.offset]
  rw [KvStore.pages, hid, hoff, h.disk, ByteStore.write_self,
    ByteMemory.read_write_within _ (by omega), List.drop_zero]

/-- **A record in the first layout is read by `get`**, if its page count and its place fit
the entry. -/
theorem delivers_get {key : UInt64} {value : List UInt8} {seq : UInt32}
    (h : s.Wrote (builtWrite key value seq) p s')
    (ht : s.engine.memIndex.Takes ((builtWrite key value seq).entry p)) (hp : p.Fits)
    (hpages : PagesFit value.length) (hpos : 0 < value.length) (mem : ByteMemory) {bufLen : ℕ}
    (hbuf : value.length ≤ bufLen) :
    (ReadCall.get mem bufLen).Delivers s' key value := by
  have hge := entrySize_ge value.length
  rw [PagesFit] at hpages
  have hsize : readSize ((builtWrite key value seq).entry p) = entrySize value.length := by
    rw [readSize_builtWrite, Nat.mod_eq_of_lt hpages, entrySize_eq]
  have hsmall : entrySize value.length < 2 ^ 32 := by
    rw [entrySize_eq, kPageSize]
    omega
  have hbytes : (builtWrite key value seq).bytes = buildEntryInplace key value seq false := by
    rw [builtWrite, Nat.mod_eq_of_lt hsmall, ← length_buildEntryInplace key value seq false,
      List.take_length]
  have hl := length_buildEntryInplace key value seq false
  have hpg : s'.pages ((builtWrite key value seq).entry p) =
      buildEntryInplace key value seq false := by
    rw [h.pages hp (by rw [hbytes, hl, hsize]), hsize, hbytes, ← hl, List.take_length]
  have hread : ∀ k len, k + len ≤ entrySize value.length →
      (mem.write 0 (buildEntryInplace key value seq false)).read k len =
        slice (buildEntryInplace key value seq false) k len := by
    intro k len hk
    have := @ByteMemory.read_write_within mem 0 k len
      (buildEntryInplace key value seq false) (by rwa [hl])
    rwa [Nat.zero_add] at this
  have hfront := hread 0 recordHeaderSize (by omega)
  rw [slice, List.drop_zero] at hfront
  obtain ⟨hh, -, hv⟩ := readers_take (buildEntryInplace key value seq false)
    (le_refl recordHeaderSize)
  have hvalue : value.length < 2 ^ 32 := by omega
  have hlen := readValueLen_buildEntryInplace key value seq false hvalue
  have hready : ¬ s'.engine.state ≠ .kReady := not_not.mpr h.ready
  have hget : s'.get key mem bufLen true = ⟨.kSuccess, value.length, value⟩ := by
    have hfetch : s'.fetch key = .ok ((builtWrite key value seq).entry p) := h.fetch ht hp
    simp only [KvStore.get, if_neg hready, if_neg (show ¬ bufLen = 0 by omega), hfetch, hpg,
      hfront, hh, hv, readHeader_buildEntryInplace, hlen]
    rw [if_neg (by decide), if_neg (by simp), if_neg (by omega),
      hread recordHeaderSize value.length (by omega), slice_buildEntryInplace]
  simp only [ReadCall.Delivers, hget]
  exact ⟨⟨rfl, rfl⟩, trivial⟩

end Read

/-! ### A store of zeros -/

namespace MemIndex

/-- The first slot that a call meets in a fresh table is free. -/
theorem fresh_vacant {n : ℕ} (i : Fin (2 ^ n)) : (fresh n).vacant i = true := rfl

/-- A fresh table takes every entry. -/
theorem fresh_takes (n : ℕ) (e : MemIndexEntry) : (fresh n).Takes e where
  wf := fresh_wf n
  accepted := by
    constructor
    · intro h
      have hrun : ((fresh n).displacesLoop e.key).run (home n e.key, 0) = false :=
        Loop.run_of_done _ (by simp only [displacesLoop, fresh_vacant, if_true])
      rw [Displaces, hrun] at h
      cases h
    · rw [upsert, Loop.run_of_done _ (upsertBody_of_vacant (fresh_vacant _))]
  newer := fun o ho => by
    rw [stored_fresh] at ho
    cases ho

end MemIndex

/-- A store whose only file is the one of a place, full of zeros. -/
def zeroStore (p : Place) : KvStore 3 where
  engine := { sampleEngine with space :=
    { sampleEngine.space with
      files := [(FileInfo.fresh p.fileId).opened 1]
      activeFileId := p.fileId
      nextFileId := p.fileId + 1 } }
  disk := fun _ => .zero

/-- The store after a record was written to the place. -/
def zeroStoreWith (w : RecordWrite) (p : Place) : KvStore 3 :=
  ⟨(zeroStore p).engine.completePut w.key (w.entry p),
    (zeroStore p).disk.write p.fileId p.offset w.bytes⟩

theorem zeroStore_wrote (w : RecordWrite) (p : Place) :
    (zeroStore p).Wrote w p (zeroStoreWith w p) := by
  have hget : (zeroStore p).engine.space.getFile p.fileId =
      some ((FileInfo.fresh p.fileId).opened 1) := by
    simp [zeroStore, FileSpace.getFile, FileInfo.fresh, FileInfo.opened]
  exact (zeroStore p).completePut_wrote w p rfl hget rfl rfl

theorem zeroStore_takes (w : RecordWrite) (p : Place) :
    (zeroStore p).engine.memIndex.Takes (w.entry p) := MemIndex.fresh_takes 3 _

/-- A page count has sixteen bits. -/
theorem readSize_lt (e : MemIndexEntry) : readSize e < 2 ^ 28 := by
  have := e.pageCount.toNat_lt
  rw [readSize, kPageSize]
  omega

/-- What the readers see of the pages of the entry: the record if its place fits, and zeros
otherwise. -/
theorem getD_pages (w : RecordWrite) (p : Place) [Decidable p.Fits] (i : ℕ) :
    ((zeroStoreWith w p).pages (w.entry p)).getD i 0 =
      if i < readSize (w.entry p) ∧ p.Fits then w.bytes.getD i 0 else 0 := by
  have hlt := readSize_lt (w.entry p)
  have hid : (w.entry p).fileId.toNat = p.fileId % 2 ^ 10 := BitVec.toNat_ofNat _ _
  have hoff : (w.entry p).offsetIndex.toNat = p.page % 2 ^ 21 := BitVec.toNat_ofNat _ _
  rw [KvStore.pages, hid, hoff, ByteMemory.getD_read]
  change (if i < _ then ((zeroStore p).disk.write p.fileId p.offset w.bytes) _ _ else 0) = _
  by_cases hi : i < readSize (w.entry p)
  · rw [if_pos hi]
    by_cases hp : p.Fits
    · rw [if_pos ⟨hi, hp⟩, Nat.mod_eq_of_lt hp.1, Nat.mod_eq_of_lt hp.2, ByteStore.write_self,
        ByteMemory.write, Place.offset, if_pos (Nat.le_add_right _ _), Nat.add_sub_cancel_left]
      rfl
    · rw [if_neg fun h => hp h.2]
      by_cases hf : p.fileId % 2 ^ 10 = p.fileId
      · have hpage : 2 ^ 21 ≤ p.page := by
          by_contra hpage
          exact hp ⟨by omega, by omega⟩
        rw [hf, ByteStore.write_self, ByteMemory.write_of_outside _ (Or.inl ?_)]
        · rfl
        · rw [Place.offset, kPageSize]
          omega
      · rw [ByteStore.write_of_ne _ hf]
        rfl
  · rw [if_neg hi, if_neg fun h => hi h.1]

/-- A header whose magic number is zero is not valid. -/
theorem magic_ne_of_zero {buf : List UInt8} {offset : ℕ}
    (h : ∀ i < 4, buf.getD (offset + i) 0 = 0) : (readHeader buf offset).magic ≠ kEntryMagic := by
  have hfield : (readHeader buf offset).magic = 0 := by
    rw [readHeader, readU32, fieldAt_eq_zero h]
    rfl
  rw [hfield]
  decide

/-- What a successful `get` found. -/
theorem get_success {n : ℕ} {s : KvStore n} {key : UInt64} {mem : ByteMemory} {bufLen : ℕ}
    (h : (s.get key mem bufLen true).status = .kSuccess) :
    ∃ e, s.engine.memIndex.findEntry key = some e ∧
      (readHeader ((mem.write 0 (s.pages e)).read 0 recordHeaderSize) 0).magic = kEntryMagic ∧
      (s.get key mem bufLen true).buffer = (mem.write 0 (s.pages e)).read recordHeaderSize
        (s.get key mem bufLen true).actualLen := by
  obtain ⟨e, hr, -, ha⟩ := get_success_iff.mp h
  refine ⟨e, fetch_eq_ok hr.2, ha.magic, ?_⟩
  rw [get_of_accepts hr ha, dmaBuffer]

/-- What a successful `get_async` found. -/
theorem getAsync_success {n : ℕ} {s : KvStore n} {key : UInt64} {output : List (List UInt8)}
    (h : (s.getAsync key output true).status = .kSuccess) :
    ∃ e, s.engine.memIndex.findEntry key = some e ∧
      (readHeader (s.pages e ++ output.flatten.drop (readSize e)) kSegmentMetaOffset).magic =
        kEntryMagic ∧
      (s.getAsync key output true).actualLen =
        (readValueLen (s.pages e ++ output.flatten.drop (readSize e))
          kSegmentMetaOffset).toNat := by
  obtain ⟨e, hr, -, ha⟩ := getAsync_success_iff.mp h
  refine ⟨e, fetch_eq_ok hr.2, ha.magic, ?_⟩
  rw [getAsync_of_accepts hr ha, segmentLen, segmentBuffer]

/-! ### Records of zeros -/

/-- The record that a writer makes of zeros. -/
def zeroRecord (len : ℕ) : Writer → RecordWrite
  | .put => builtWrite 1 (List.replicate len 0) 1
  | .putBuffered => builtWrite 1 (List.replicate len 0) 1
  | .putAsync => segmentWrite 1 (List.replicate (len + kSegmentDataOffset) 0) [] 1

theorem zeroRecord_writes {w : Writer} {len : ℕ} (h : w.Accepts len) :
    w.Writes (zeroRecord len w) (List.replicate len 0) := by
  cases w with
  | put => exact .put _ _ _
  | putBuffered => exact .putBuffered _ _ _
  | putAsync =>
      rw [Writer.Accepts, kSegmentDataOffset, kPageSize] at h
      have hw := Writer.Writes.putAsync 1 (List.replicate (len + kSegmentDataOffset) 0) [] 1
        (by rw [List.length_replicate, kSegmentDataOffset, kPageSize]; omega) (by decide)
        (by simpa [kSegmentDataOffset, kPageSize] using h)
      rwa [List.flatten_nil, List.append_nil, List.drop_replicate,
        Nat.add_sub_cancel] at hw

theorem getD_replicate_zero (len i : ℕ) : (List.replicate len (0 : UInt8)).getD i 0 = 0 := by
  rw [List.getD_eq_getElem?_getD, List.getElem?_replicate]
  split_ifs <;> rfl

/-- Bytes of a prefix. -/
theorem getD_take_zero {l : List UInt8} {len i : ℕ} (h : l.getD i 0 = 0) :
    (l.take len).getD i 0 = 0 := by
  by_cases hi : i < len
  · rwa [List.getD_eq_getElem?_getD, List.getElem?_take_of_lt hi, ← List.getD_eq_getElem?_getD]
  · exact List.getD_eq_default _ _ ((List.length_take_le _ _).trans (by omega))

/-- Between its front and its checksum a record of zeros is zero. -/
theorem getD_built_zero {len i : ℕ} (h1 : recordHeaderSize ≤ i) (h2 : i < entrySize len - 4)
    (key : UInt64) (seq : UInt32) :
    (buildEntryInplace key (List.replicate len 0) seq false).getD i 0 = 0 := by
  have hl := length_entryData key (List.replicate len 0) seq false
  rw [List.length_replicate] at hl
  rw [buildEntryInplace, List.getD_append _ _ _ _ (by omega), entryData, List.append_assoc,
    List.getD_append_right _ _ _ _ ?_]
  · rw [List.replicate_append_replicate, getD_replicate_zero]
  · simpa [length_header_bytes, recordHeaderSize] using h1

/-- In front of its metadata a segment-format record of zeros is zero. -/
theorem getD_segment_zero {len i : ℕ} (h : i < kSegmentMetaOffset)
    (hlen : kSegmentMetaOffset ≤ len) (key : UInt64) (seq : UInt32) :
    (segmentWrite key (List.replicate len 0) [] seq).bytes.getD i 0 = 0 := by
  refine getD_take_zero ?_
  rw [stampSegment, List.append_assoc, List.append_assoc,
    List.getD_append _ _ _ _ (by simpa using ⟨h, by omega⟩), List.take_replicate,
    getD_replicate_zero]

/-- The length field of a segment-format record holds the size of the whole record. -/
theorem valueLen_segment {len : ℕ} (h : kSegmentDataOffset ≤ len % 2 ^ 32) (key : UInt64)
    (seq : UInt32) :
    fieldAt (segmentWrite key (List.replicate len 0) [] seq).bytes
      (kSegmentMetaOffset + sizeofEntryHeader + 8) 4 = len % 2 ^ 32 := by
  have hlen : len % 2 ^ 32 ≤ len := Nat.mod_le _ _
  rw [kSegmentDataOffset] at h
  simp only [segmentWrite, List.flatten_nil, List.append_nil, List.length_replicate]
  rw [fieldAt_take (by simp only [kSegmentMetaOffset, sizeofEntryHeader]; omega), stampSegment,
    segmentMetadata]
  have hpre : ((List.replicate len (0 : UInt8)).take kSegmentMetaOffset ++
      (EntryHeader.bytes ⟨kEntryMagic, 1, kFlagSegmentBuf, 0, seq, 0⟩ ++
        leBytes 8 key.toNat)).length = kSegmentMetaOffset + sizeofEntryHeader + 8 := by
    simp only [List.length_append, List.length_take, List.length_replicate,
      length_header_bytes, length_leBytes, kSegmentMetaOffset, sizeofEntryHeader]
    omega
  have hfield := @fieldAt_append _ (leBytes 4 (len % 2 ^ 32))
    (leBytes 4 (segmentCrc (List.replicate len 0) []).toNat ++
      (List.replicate len (0 : UInt8)).drop (kSegmentMetaOffset + segmentMetadataSize)) _ 4
    hpre (length_leBytes _ _)
  rw [leNat_leBytes_of_lt (by omega)] at hfield
  simpa only [List.append_assoc] using hfield

section Negative

variable {w : Writer} {len : ℕ} {p : Place}

/-- The entry that a reader of the store of zeros finds. -/
theorem zeroStoreWith_findEntry (record : RecordWrite) (p : Place) {e : MemIndexEntry}
    (h : (zeroStoreWith record p).engine.memIndex.findEntry record.key = some e) :
    e = record.entry p :=
  Option.some.inj (h.symm.trans ((zeroStore_wrote record p).findEntry (zeroStore_takes _ _)))

/-- Reading into zeros adds nothing behind the pages. -/
theorem getD_append_zeros {l zeros : List UInt8} (h : ∀ i, zeros.getD i 0 = 0) (i : ℕ) :
    (l ++ zeros).getD i 0 = l.getD i 0 := by
  by_cases hi : i < l.length
  · rw [List.getD_append _ _ _ _ hi]
  · rw [List.getD_append_right _ _ _ _ (by omega), h, List.getD_eq_default _ _ (by omega)]

theorem entrySize_page (len : ℕ) : kPageSize ≤ entrySize len := by
  have hpos := pagesFor_pos (show 0 < recordHeaderSize + len + 4 by omega)
  rw [entrySize_eq]
  exact Nat.le_mul_of_pos_left _ hpos

/-- What `get_async` into zeros works on: the record, or zeros where it is not read. -/
theorem getAsync_sees [Decidable p.Fits] {record : RecordWrite} {output : List (List UInt8)}
    (hzero : ∀ i, output.flatten.getD i 0 = 0)
    (h : ((zeroStoreWith record p).getAsync record.key output true).Reports len) :
    ∃ buf, (∀ i, buf.getD i 0 = if i < readSize (record.entry p) ∧ p.Fits then
        record.bytes.getD i 0 else 0) ∧
      (readHeader buf kSegmentMetaOffset).magic = kEntryMagic ∧
      len = (readValueLen buf kSegmentMetaOffset).toNat := by
  obtain ⟨hs, hlen⟩ := h
  obtain ⟨e, hfind, hmagic, hact⟩ := getAsync_success hs
  obtain rfl := zeroStoreWith_findEntry record p hfind
  refine ⟨_, fun i => ?_, hmagic, hlen.symm.trans hact⟩
  have hdrop : ∀ i, (output.flatten.drop (readSize (record.entry p))).getD i 0 = 0 := by
    intro i
    rw [List.getD_eq_getElem?_getD, List.getElem?_drop, ← List.getD_eq_getElem?_getD, hzero]
  exact (getD_append_zeros hdrop i).trans (getD_pages record p i)

/-- `get_async` finds no header in a record of the first layout. -/
theorem getAsync_not_built {output : List (List UInt8)}
    (hzero : ∀ i, output.flatten.getD i 0 = 0) :
    ¬ ((zeroStoreWith (builtWrite 1 (List.replicate len 0) 1) p).getAsync 1 output
      true).Reports len := by
  classical
  intro h
  obtain ⟨buf, hbuf, hmagic, -⟩ := getAsync_sees hzero h
  refine magic_ne_of_zero (fun i hi => ?_) hmagic
  have hpage := entrySize_page len
  rw [kPageSize] at hpage
  rw [hbuf]
  split_ifs
  · exact getD_take_zero (getD_built_zero
      (by simp only [recordHeaderSize, sizeofEntryHeader, kSegmentMetaOffset]; omega)
      (by rw [kSegmentMetaOffset]; omega) _ _)
  · rfl

/-- `get_async` reports the size of a segment-format record, not that of its value. -/
theorem getAsync_not_segment (h : Writer.putAsync.Accepts len) {output : List (List UInt8)}
    (hzero : ∀ i, output.flatten.getD i 0 = 0) :
    ¬ ((zeroStoreWith (segmentWrite 1 (List.replicate (len + kSegmentDataOffset) 0) [] 1)
      p).getAsync 1 output true).Reports len := by
  classical
  intro hr
  obtain ⟨buf, hbuf, -, hlen⟩ := getAsync_sees hzero hr
  rw [Writer.Accepts] at h
  generalize htotal : len + kSegmentDataOffset = total at *
  have hsize : readSize ((segmentWrite 1 (List.replicate total 0) [] 1).entry p) =
      total % 2 ^ 32 / kPageSize % 2 ^ 16 * kPageSize := by
    simp only [readSize, RecordWrite.entry, segmentWrite, List.flatten_nil, List.append_nil,
      List.length_replicate, UInt16.toNat_ofNat']
  have hfield : fieldAt buf (kSegmentMetaOffset + sizeofEntryHeader + 8) 4 % kPageSize = 0 := by
    by_cases hin : 0 < readSize ((segmentWrite 1 (List.replicate total 0) [] 1).entry p) ∧ p.Fits
    · have hpos := hin.1
      have heq : fieldAt buf (kSegmentMetaOffset + sizeofEntryHeader + 8) 4 =
          total % 2 ^ 32 := by
        rw [← @valueLen_segment total ?_ 1 1]
        · refine fieldAt_congr fun i hi => ?_
          have hidx : kSegmentMetaOffset + sizeofEntryHeader + 8 + i <
              readSize ((segmentWrite 1 (List.replicate total 0) [] 1).entry p) := by
            rw [hsize, kPageSize] at hpos ⊢
            simp only [kSegmentMetaOffset, sizeofEntryHeader]
            omega
          rw [hbuf, if_pos ⟨hidx, hin.2⟩]
        · rw [hsize, kPageSize] at hpos
          rw [kSegmentDataOffset]
          omega
      rw [heq]
      rw [kPageSize] at h ⊢
      omega
    · have hz : fieldAt buf (kSegmentMetaOffset + sizeofEntryHeader + 8) 4 = 0 :=
        fieldAt_eq_zero fun i _ => by rw [hbuf, if_neg fun hi => hin ⟨by omega, hi.2⟩]
      rw [hz, Nat.zero_mod]
  rw [readValueLen, readU32, UInt32.toNat_ofNat'] at hlen
  rw [kPageSize] at hfield h
  rw [kSegmentDataOffset] at htotal
  omega

/-- `get_async` does not report the length of a value of zeros, whatever wrote it. -/
theorem getAsync_not_reports {w : Writer} (h : w.Accepts len) {output : List (List UInt8)}
    (hzero : ∀ i, output.flatten.getD i 0 = 0) :
    ¬ ((zeroStoreWith (zeroRecord len w) p).getAsync (zeroRecord len w).key output
      true).Reports len := by
  cases w with
  | put => exact getAsync_not_built hzero
  | putBuffered => exact getAsync_not_built hzero
  | putAsync => exact getAsync_not_segment h hzero

/-- `get` into zeros finds no header where the entry does not lead to one. -/
theorem get_not_reports [Decidable p.Fits] {record : RecordWrite} {bufLen : ℕ}
    (hzero : ∀ i < 4, p.Fits → record.bytes.getD i 0 = 0) :
    ¬ ((zeroStoreWith record p).get record.key .zero bufLen true).Reports len := by
  rintro ⟨hs, -⟩
  obtain ⟨e, hfind, hmagic, -⟩ := get_success hs
  obtain rfl := zeroStoreWith_findEntry record p hfind
  refine magic_ne_of_zero (fun i hi => ?_) hmagic
  rw [Nat.zero_add, ByteMemory.getD_read, Nat.zero_add]
  have hview := getD_pages record p i
  split_ifs
  · rw [ByteMemory.write, if_pos (Nat.zero_le i), Nat.sub_zero]
    refine hview.trans ?_
    split_ifs with hin
    · exact hzero i hi hin.2
    · rfl
  · rfl

/-- A record of zeros with too many pages is read together with what lies behind the
buffer. -/
theorem get_not_delivers {record : RecordWrite} {bufLen : ℕ} (hpos : 0 < len)
    (hsize : readSize (record.entry p) < recordHeaderSize + len) :
    ¬ (ReadCall.get (fun _ => 1) bufLen).Delivers (zeroStoreWith record p) record.key
      (List.replicate len 0) := by
  rintro ⟨⟨hs, hlen⟩, hbuf⟩
  obtain ⟨e, hfind, -, hread⟩ := get_success hs
  obtain rfl := zeroStoreWith_findEntry record p hfind
  rw [List.length_replicate] at hlen
  rw [hbuf, hlen] at hread
  have hlast := congrArg (fun l => l.getD (len - 1) 0) hread
  have hl : ((zeroStoreWith record p).pages (record.entry p)).length =
      readSize (record.entry p) := ByteMemory.length_read _ _ _
  simp only [getD_replicate_zero] at hlast
  rw [ByteMemory.getD_read, if_pos (by omega),
    ByteMemory.write_of_outside _ (Or.inr (by omega))] at hlast
  exact absurd hlast (by decide)

/-- The C function reports what `get_async` reports. -/
theorem getAsync_of_cGetAsync {n : ℕ} {s : KvStore n} {key : UInt64} {mem : ByteMemory}
    {bufLen : ℕ} (h : (s.cGetAsync key mem bufLen true).Reports len) :
    ∃ size, (s.getAsync key [mem.read 0 size] true).Reports len := by
  obtain ⟨hs, hlen⟩ := h
  rw [KvStore.cGetAsync] at hs hlen
  split_ifs at hs hlen with hok hbuf
  · exact ⟨_, hok, hlen⟩
  · exact absurd hs hok

end Negative

/-! ### The round trip -/

/-- Buffers of zeros that are large enough. -/
theorem zeros_large (recordSize len : ℕ) :
    (ReadCall.getAsync [List.replicate (recordSize + kPageSize) 0]).Large recordSize len := by
  constructor
  · simp
  · intro segment hsegment
    obtain rfl := List.mem_singleton.mp hsegment
    rw [List.length_replicate]
    exact Nat.le_add_left _ _

/-- **Which entry points agree.** A value makes the round trip from a write entry point to a
read entry point exactly when it is written in the first layout and read by `get`, and the
page count of its record and its place fit the index entry. -/
theorem round_trip_iff {w : Writer} {r : Reader} {len : ℕ} {p : Place} (h : w.Accepts len) :
    RoundTrips w r len p ↔ w ≠ .putAsync ∧ r = .get ∧ PagesFit len ∧ p.Fits := by
  classical
  have hwrites := zeroRecord_writes h
  have hinst := fun (hrt : RoundTrips w r len p) call hr hlarge =>
    hrt 3 (zeroStore p) (zeroStoreWith (zeroRecord len w) p) (zeroRecord len w) _
      (List.length_replicate) hwrites (zeroStore_takes _ _) (zeroStore_wrote _ _) call hr hlarge
  constructor
  · intro hrt
    have hzeros : (List.replicate len (0 : UInt8)).length = len := List.length_replicate
    cases r with
    | getAsync =>
        have := (hinst hrt (.getAsync [List.replicate (w.recordSize len + kPageSize) 0]) rfl
          (zeros_large _ _)).1
        rw [hzeros] at this
        exact absurd this (getAsync_not_reports h fun i => by
          rw [List.flatten_cons, List.flatten_nil, List.append_nil, getD_replicate_zero])
    | cGetAsync =>
        have := (hinst hrt (.cGetAsync .zero len) rfl (le_refl len)).1
        rw [hzeros] at this
        obtain ⟨size, hsize⟩ := getAsync_of_cGetAsync this
        exact absurd hsize (getAsync_not_reports h fun i => by
          rw [List.flatten_cons, List.flatten_nil, List.append_nil, ByteMemory.getD_read_zero])
    | get =>
        have hget := (hinst hrt (.get .zero len) rfl (le_refl len)).1
        have hbuilt : w ≠ .putAsync := by
          rintro rfl
          refine get_not_reports (fun i hi _ => ?_) hget
          exact getD_segment_zero (by rw [kSegmentMetaOffset]; omega)
            (by simp only [kSegmentMetaOffset, kSegmentDataOffset]; omega) _ _
        have hrec : zeroRecord len w = builtWrite 1 (List.replicate len 0) 1 ∧ 0 < len := by
          cases w with
          | put => exact ⟨rfl, h.1⟩
          | putBuffered => exact ⟨rfl, h.1⟩
          | putAsync => exact absurd rfl hbuilt
        refine ⟨hbuilt, rfl, ?_, ?_⟩
        · by_contra hpages
          refine get_not_delivers hrec.2 ?_ (hinst hrt (.get _ len) rfl (le_refl len))
          rw [hrec.1, readSize_builtWrite, hzeros]
          rw [PagesFit, pagesFor, kPageSize] at hpages
          rw [pagesFor, kPageSize]
          omega
        · by_contra hp
          exact get_not_reports (fun i _ hfits => absurd hfits hp) hget
  · rintro ⟨hw, rfl, hpages, hp⟩ n s s' record value hlen hwr ht hwrote call hcall hlarge
    cases call with
    | getAsync => cases hcall
    | cGetAsync => cases hcall
    | get mem bufLen =>
        subst hlen
        cases hwr with
        | put => exact delivers_get hwrote ht hp hpages h.1 mem hlarge
        | putBuffered => exact delivers_get hwrote ht hp hpages h.1 mem hlarge
        | putAsync => exact absurd rfl hw

/-- The round trip of a value of one byte. -/
theorem round_trip_put_get : RoundTrips .put .get 1 ⟨0, 1⟩ :=
  (round_trip_iff (show Writer.put.Accepts 1 from ⟨Nat.one_pos, by decide⟩)).mpr
    ⟨by decide, rfl, by rw [PagesFit]; decide, by decide, by decide⟩

set_option maxRecDepth 100000 in
/-- **The asynchronous functions of the C interface do not agree**: a value that
`spdk_kv_put_async` wrote is reported as corrupt by `spdk_kv_get_async`. -/
theorem c_put_async_not_read_by_c_get_async :
    (zeroStore ⟨0, 1⟩).Wrote (builtWrite 1 [7] 1) ⟨0, 1⟩
      (zeroStoreWith (builtWrite 1 [7] 1) ⟨0, 1⟩) ∧
    ((zeroStoreWith (builtWrite 1 [7] 1) ⟨0, 1⟩).cGetAsync 1 .zero 1 true).status =
      .kCorruption ∧
    ¬ RoundTrips .putBuffered .cGetAsync 1 ⟨0, 1⟩ := by
  have hstatus : ((zeroStoreWith (builtWrite 1 [7] 1) ⟨0, 1⟩).cGetAsync 1 .zero 1
      true).status = .kCorruption := by decide +kernel
  refine ⟨zeroStore_wrote _ _, hstatus, fun h => ?_⟩
  have hd := h 3 (zeroStore ⟨0, 1⟩) (zeroStoreWith (builtWrite 1 [7] 1) ⟨0, 1⟩)
    (builtWrite 1 [7] 1) [7] rfl (.putBuffered 1 [7] 1) (zeroStore_takes _ _)
    (zeroStore_wrote _ _) (.cGetAsync .zero 1) rfl (le_refl 1)
  exact absurd (hstatus.symm.trans hd.1.1) (by decide)

end SpdkKv
