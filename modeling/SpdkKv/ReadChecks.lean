import SpdkKv.RoundTrip

/-!
# What the Readers Check

A reader takes what lies on the pages of an index entry for the record of the key. It looks
at the magic number where its layout has the header, and compares the length behind it with
the buffer of the caller; the key and the checksum, which the recovery and the compaction
look at, it leaves alone.

## Main results

* `KvStore.cGetAsync_success_iff`: when the C function reports success.
* `copies_inside_iff`: **when the copy of a value stays inside its buffer**.
* `copies_outside`: copies of too many bytes.
-/

namespace SpdkKv

/-! ### Success -/

namespace KvStore

variable {n : ℕ} {s : KvStore n} {key : UInt64} {entry : MemIndexEntry} {mem : ByteMemory}
  {bufLen : ℕ} {output : List (List UInt8)} {ioOk : Bool}

/-- The size of the DMA buffer of `spdk_kv_get_async`. -/
def dmaBufSize (bufLen : ℕ) : ℕ :=
  min (alignUp (bufLen + kSegmentDataOffset) kPageSize % 2 ^ 32) (16 * kPageSize)

/-- A `spdk_kv_get_async` whose checks are passed. -/
theorem cGetAsync_of_accepts (hr : s.Reads key entry)
    (ha : s.GetAsyncAccepts entry [mem.read 0 (dmaBufSize bufLen)])
    (hlen : segmentLen (s.segmentBuffer entry [mem.read 0 (dmaBufSize bufLen)]) ≤ bufLen) :
    s.cGetAsync key mem bufLen true =
      ⟨.kSuccess, segmentLen (s.segmentBuffer entry [mem.read 0 (dmaBufSize bufLen)]),
        (mem.write 0 (s.segmentBuffer entry [mem.read 0 (dmaBufSize bufLen)])).read
          kSegmentDataOffset
            (segmentLen (s.segmentBuffer entry [mem.read 0 (dmaBufSize bufLen)]))⟩ := by
  have hget := getAsync_of_accepts hr ha
  rw [dmaBufSize] at hget hlen ⊢
  simp only [cGetAsync, hget]
  rw [if_pos trivial, if_neg (not_lt.mpr hlen)]

/-- **When `spdk_kv_get_async` reports success.** -/
theorem cGetAsync_success_iff : (s.cGetAsync key mem bufLen ioOk).status = .kSuccess ↔
    ∃ entry, s.Reads key entry ∧ ioOk = true ∧
      s.GetAsyncAccepts entry [mem.read 0 (dmaBufSize bufLen)] ∧
      segmentLen (s.segmentBuffer entry [mem.read 0 (dmaBufSize bufLen)]) ≤ bufLen := by
  constructor
  · intro h
    simp only [cGetAsync] at h
    split_ifs at h with hok hlen
    · obtain ⟨entry, hr, rfl, ha⟩ := getAsync_success_iff.mp hok
      have ha' : s.GetAsyncAccepts entry [mem.read 0 (dmaBufSize bufLen)] := ha
      have hle : (s.getAsync key [mem.read 0 (dmaBufSize bufLen)] true).actualLen ≤ bufLen :=
        not_lt.mp hlen
      rw [getAsync_of_accepts hr ha'] at hle
      exact ⟨entry, hr, rfl, ha', hle⟩
    · exact absurd h hok
  · rintro ⟨entry, hr, rfl, ha, hlen⟩
    rw [cGetAsync_of_accepts hr ha hlen]

/-! ### The copy of a value -/

/-- The `len` bytes from `start` on lie inside a buffer of the size. -/
def CopyInside (start len size : ℕ) : Prop := ∀ i < len, start + i < size

theorem copyInside_iff {start len size : ℕ} :
    CopyInside start len size ↔ len = 0 ∨ start + len ≤ size := by
  constructor
  · intro h
    rcases Nat.eq_zero_or_pos len with hzero | hpos
    · exact Or.inl hzero
    · have := h (len - 1) (by omega)
      omega
  · rintro (rfl | hle) i hi
    · exact absurd hi (Nat.not_lt_zero i)
    · omega

/-- The copy of `get` stays inside the bytes that were read. -/
def GetCopyInside (s : KvStore n) (key : UInt64) (mem : ByteMemory) (bufLen : ℕ) : Prop :=
  ∀ ioOk entry, s.Reads key entry →
    let r := s.get key mem bufLen ioOk
    r.status = .kSuccess → CopyInside recordHeaderSize r.actualLen (readSize entry)

/-- The copy of `spdk_kv_get_async` stays inside its DMA buffer. -/
def CCopyInside (s : KvStore n) (key : UInt64) (mem : ByteMemory) (bufLen : ℕ) : Prop :=
  ∀ ioOk,
    let r := s.cGetAsync key mem bufLen ioOk
    r.status = .kSuccess → CopyInside kSegmentDataOffset r.actualLen (dmaBufSize bufLen)

/-- With given contents the copy of `get` stays inside when the length that it accepts fits
the pages of the entry. -/
theorem getCopyInside_iff : s.GetCopyInside key mem bufLen ↔
    ∀ entry, s.Reads key entry → GetAccepts (s.dmaBuffer entry mem) bufLen →
      CopyInside recordHeaderSize (storedLen (s.dmaBuffer entry mem)) (readSize entry) := by
  constructor
  · intro h entry hr ha
    have hs := get_success_iff.mpr ⟨entry, hr, rfl, ha⟩
    have hin : CopyInside recordHeaderSize (s.get key mem bufLen true).actualLen _ :=
      h true entry hr hs
    rwa [get_of_accepts hr ha] at hin
  · intro h ioOk entry hr r hs
    obtain ⟨entry', hr', rfl, ha⟩ := get_success_iff.mp hs
    obtain rfl := hr.unique hr'
    have hlen : r.actualLen = storedLen (s.dmaBuffer entry mem) :=
      congrArg ReadResult.actualLen (get_of_accepts hr ha)
    rw [hlen]
    exact h entry hr ha

/-- With given contents the copy of `spdk_kv_get_async` stays inside when the length that it
accepts fits its DMA buffer. -/
theorem cCopyInside_iff : s.CCopyInside key mem bufLen ↔
    ∀ entry, s.Reads key entry → s.GetAsyncAccepts entry [mem.read 0 (dmaBufSize bufLen)] →
      segmentLen (s.segmentBuffer entry [mem.read 0 (dmaBufSize bufLen)]) ≤ bufLen →
        CopyInside kSegmentDataOffset
          (segmentLen (s.segmentBuffer entry [mem.read 0 (dmaBufSize bufLen)]))
          (dmaBufSize bufLen) := by
  constructor
  · intro h entry hr ha hlen
    have hs := cGetAsync_success_iff.mpr ⟨entry, hr, rfl, ha, hlen⟩
    have hin : CopyInside kSegmentDataOffset (s.cGetAsync key mem bufLen true).actualLen _ :=
      h true hs
    rwa [cGetAsync_of_accepts hr ha hlen] at hin
  · intro h ioOk r hs
    obtain ⟨entry, hr, rfl, ha, hlen⟩ := cGetAsync_success_iff.mp hs
    have hactual : r.actualLen =
        segmentLen (s.segmentBuffer entry [mem.read 0 (dmaBufSize bufLen)]) :=
      congrArg ReadResult.actualLen (cGetAsync_of_accepts hr ha hlen)
    rw [hactual]
    exact h entry hr ha hlen

end KvStore

/-! ### Any contents -/

/-- A record of a value of the length. -/
def plainRecord (key : UInt64) (len : ℕ) : List UInt8 :=
  buildEntryInplace key (List.replicate len 0) 0 false

/-- Where the bytes of the front of such a record are, a reader finds its header and its
length. -/
theorem readers_plainRecord {buf : List UInt8} {offset : ℕ} {key : UInt64} {len : ℕ}
    (hlen : len < 2 ^ 32)
    (h : ∀ i < recordHeaderSize, buf.getD (offset + i) 0 = (plainRecord key len).getD i 0) :
    (readHeader buf offset).magic = kEntryMagic ∧ readKey buf offset = key ∧
      (readValueLen buf offset).toNat = len := by
  have hfield : ∀ o w, o + w ≤ recordHeaderSize →
      fieldAt buf (offset + o) w = fieldAt (plainRecord key len) (0 + o) w := by
    intro o w how
    refine fieldAt_congr fun i hi => ?_
    rw [Nat.add_assoc, Nat.add_assoc, Nat.zero_add]
    exact h (o + i) (by omega)
  have hmagic := hfield 0 4 (by decide)
  have hkey := hfield sizeofEntryHeader 8 (by decide)
  have hvalue := hfield (sizeofEntryHeader + 8) 4 (by decide)
  have hheader := readHeader_buildEntryInplace key (List.replicate len 0) 0 false
  have hl : (List.replicate len (0 : UInt8)).length < 2 ^ 32 := by
    rwa [List.length_replicate]
  have hlength := readValueLen_buildEntryInplace key (List.replicate len 0) 0 false hl
  refine ⟨?_, ?_, ?_⟩
  · rw [Nat.add_zero, Nat.add_zero] at hmagic
    rw [readHeader, readU32, hmagic]
    exact congrArg EntryHeader.magic hheader
  · rw [readKey, readU64, hkey]
    exact readKey_buildEntryInplace key (List.replicate len 0) 0 false
  · rw [readValueLen, readU32, Nat.add_assoc, hvalue, ← Nat.add_assoc]
    exact hlength.trans List.length_replicate

/-- A disk on which every range at the offset of the entry begins with the bytes. -/
def diskWith (entry : MemIndexEntry) (bytes : List UInt8) : ByteStore ℕ :=
  fun _ => ByteMemory.zero.write (entry.offsetIndex.toNat * kPageSize) bytes

namespace KvStore

variable {n : ℕ} {s : KvStore n} {key : UInt64} {entry : MemIndexEntry} {bufLen : ℕ}

/-- The store with another disk. -/
def withDisk (s : KvStore n) (disk : ByteStore ℕ) : KvStore n := { s with disk := disk }

/-- Pages that hold the bytes and nothing else. -/
theorem pages_diskWith {bytes : List UInt8} (h : readSize entry = bytes.length) :
    (s.withDisk (diskWith entry bytes)).pages entry = bytes := by
  rw [pages, h]
  exact ByteMemory.read_write _ _ _

theorem getD_pages_diskWith (bytes : List UInt8) (i : ℕ) (d : UInt8) :
    ((s.withDisk (diskWith entry bytes)).pages entry).getD i d =
      if i < readSize entry then bytes.getD i 0 else d := by
  have hmem : (s.withDisk (diskWith entry bytes)).disk entry.fileId.toNat =
      ByteMemory.zero.write (entry.offsetIndex.toNat * kPageSize) bytes := rfl
  rw [pages, ByteMemory.getD_read, hmem, ByteMemory.write_add]
  rfl

/-- The DMA buffer of `get` can begin with any bytes. -/
theorem dmaBuffer_diskWith (bytes : List UInt8) (i : ℕ) :
    (s.withDisk (diskWith entry bytes)).dmaBuffer entry (ByteMemory.zero.write 0 bytes) i =
      bytes.getD i 0 := by
  have hzero : ByteMemory.zero.write 0 bytes i = bytes.getD i 0 := by
    have := ByteMemory.write_add ByteMemory.zero 0 i bytes
    rwa [Nat.zero_add] at this
  rw [dmaBuffer, ← Nat.zero_add i, ByteMemory.write_add, getD_pages_diskWith, Nat.zero_add,
    hzero, ite_self]

/-- `get` accepts pages that hold a record of another length. -/
theorem accepts_plainRecord (entry : MemIndexEntry) (key' : UInt64) {len : ℕ}
    (hlen : len < 2 ^ 32) (hbuf : bufLen ≠ 0) (hle : len ≤ bufLen) :
    let dma := (s.withDisk (diskWith entry (plainRecord key' len))).dmaBuffer entry
      (ByteMemory.zero.write 0 (plainRecord key' len))
    GetAccepts dma bufLen ∧ storedLen dma = len := by
  intro dma
  have hfront : ∀ i < recordHeaderSize,
      (recordFront dma).getD (0 + i) 0 = (plainRecord key' len).getD i 0 := by
    intro i hi
    rw [Nat.zero_add, recordFront, ByteMemory.getD_read, if_pos hi, Nat.zero_add]
    exact dmaBuffer_diskWith _ _
  obtain ⟨hmagic, -, hlength⟩ := readers_plainRecord hlen hfront
  exact ⟨⟨hbuf, hmagic, hlength.trans_le hle⟩, hlength⟩

/-- Bytes that have the front of a record where `put_async` puts its metadata. -/
def segmentRecord (key : UInt64) (len : ℕ) : List UInt8 :=
  List.replicate kSegmentMetaOffset 0 ++ plainRecord key len

theorem getD_segmentRecord (key : UInt64) (len i : ℕ) :
    (segmentRecord key len).getD (kSegmentMetaOffset + i) 0 = (plainRecord key len).getD i 0 := by
  rw [segmentRecord, List.getD_append_right _ _ _ _ (by simp), List.length_replicate,
    Nat.add_sub_cancel_left]

theorem getD_segmentBuffer (output : List (List UInt8)) (i : ℕ) :
    (s.segmentBuffer entry output).getD i 0 =
      if i < readSize entry then (s.pages entry).getD i 0 else output.flatten.getD i 0 := by
  have hlen : (s.pages entry).length = readSize entry := ByteMemory.length_read _ _ _
  rw [segmentBuffer]
  split_ifs with hi
  · exact List.getD_append _ _ _ _ (by rwa [hlen])
  · rw [List.getD_append_right _ _ _ _ (by rw [hlen]; omega), hlen,
      List.getD_eq_getElem?_getD, List.getElem?_drop, List.getD_eq_getElem?_getD]
    congr 2
    omega

/-- The segments of `get_async` can begin with any bytes. -/
theorem segmentBuffer_diskWith (bytes : List UInt8) {size i : ℕ} (hi : i < size) :
    ((s.withDisk (diskWith entry bytes)).segmentBuffer entry
      [(ByteMemory.zero.write 0 bytes).read 0 size]).getD i 0 = bytes.getD i 0 := by
  rw [getD_segmentBuffer, getD_pages_diskWith, List.flatten_cons, List.flatten_nil,
    List.append_nil, ByteMemory.getD_read, if_pos hi, ByteMemory.write_add]
  split_ifs
  · rfl
  · rw [Nat.zero_add]
    rfl

/-- `get_async` accepts segments that hold a record of another length. -/
theorem accepts_segmentRecord (entry : MemIndexEntry) (key' : UInt64) {len size : ℕ}
    (hlen : len < 2 ^ 32) (hsize : kSegmentDataOffset ≤ size) (hroom : readSize entry ≤ size) :
    let t := s.withDisk (diskWith entry (segmentRecord key' len))
    let output := [(ByteMemory.zero.write 0 (segmentRecord key' len)).read 0 size]
    t.GetAsyncAccepts entry output ∧ segmentLen (t.segmentBuffer entry output) = len := by
  intro t output
  have hfront : ∀ i < recordHeaderSize, (t.segmentBuffer entry output).getD
      (kSegmentMetaOffset + i) 0 = (plainRecord key' len).getD i 0 := by
    intro i hi
    rw [recordHeaderSize, sizeofEntryHeader] at hi
    rw [kSegmentDataOffset] at hsize
    exact (segmentBuffer_diskWith _ (by rw [kSegmentMetaOffset]; omega)).trans
      (getD_segmentRecord key' len i)
  obtain ⟨hmagic, -, hlength⟩ := readers_plainRecord hlen hfront
  have hroom' : readSize entry ≤ output.flatten.length := by
    simpa [output] using hroom
  exact ⟨⟨List.cons_ne_nil _ _, hroom', hmagic⟩, hlength⟩

/-! ### When copies stay inside -/

theorem dmaBufSize_le (bufLen : ℕ) : dmaBufSize bufLen ≤ 16 * kPageSize := min_le_right _ _

/-- The DMA buffer consists of pages. -/
theorem dmaBufSize_mod (bufLen : ℕ) : dmaBufSize bufLen % kPageSize = 0 := by
  rw [dmaBufSize, alignUp, kPageSize]
  omega

/-- A DMA buffer below the cap has room for the value. -/
theorem le_dmaBufSize (h : kSegmentDataOffset + bufLen ≤ 16 * kPageSize) :
    kSegmentDataOffset + bufLen ≤ dmaBufSize bufLen := by
  rw [dmaBufSize, alignUp]
  rw [kSegmentDataOffset, kPageSize] at h ⊢
  omega

/-- A length that is stored, no longer than the buffer, and as long unless the buffer has more
bytes than any record. -/
theorem exists_storable (bufLen : ℕ) :
    ∃ len < 2 ^ 32, len ≤ bufLen ∧ (len < 2 ^ 31 → len = bufLen) :=
  ⟨min bufLen (2 ^ 32 - 1), by omega, by omega, by omega⟩

/-- Whatever the disk and the memory hold, the copy of `get` stays inside when the pages are as
long as the buffer of the caller. -/
theorem forall_getCopyInside_iff :
    (∀ disk mem, (s.withDisk disk).GetCopyInside key mem bufLen) ↔
      ∀ entry, s.Reads key entry →
        bufLen = 0 ∨ recordHeaderSize + bufLen ≤ readSize entry := by
  constructor
  · intro h entry hr
    by_contra hnot
    obtain ⟨hbuf, hsize⟩ := not_or.mp hnot
    obtain ⟨len, hlt, hle, hbig⟩ := exists_storable bufLen
    obtain ⟨ha, hlen⟩ := @accepts_plainRecord n s bufLen entry key len hlt hbuf hle
    have hin := getCopyInside_iff.mp (h (diskWith entry (plainRecord key len))
      (ByteMemory.zero.write 0 (plainRecord key len))) entry hr ha
    have hread := readSize_lt entry
    rw [hlen, copyInside_iff] at hin
    omega
  · intro h disk mem
    refine getCopyInside_iff.mpr fun entry hr ha => copyInside_iff.mpr (Or.inr ?_)
    exact (Nat.add_le_add_left ha.length _).trans ((h entry hr).resolve_left ha.buffer)

/-- Whatever the disk and the memory hold, the copy of `spdk_kv_get_async` stays inside when
the buffer of the caller is below the cap of the DMA buffer, or the pages do not fit this. -/
theorem forall_cCopyInside_iff :
    (∀ disk mem, (s.withDisk disk).CCopyInside key mem bufLen) ↔
      ∀ entry, s.Reads key entry → kSegmentDataOffset + bufLen ≤ 16 * kPageSize ∨
        dmaBufSize bufLen < max 1 (readSize entry) := by
  constructor
  · intro h entry hr
    by_contra hnot
    obtain ⟨hcap, hroom⟩ := not_or.mp hnot
    obtain ⟨hone, hroom⟩ := max_le_iff.mp (not_lt.mp hroom)
    have hpages := dmaBufSize_mod bufLen
    have hle := dmaBufSize_le bufLen
    rw [kPageSize] at hpages hcap hle
    have hsize : kSegmentDataOffset ≤ dmaBufSize bufLen := by
      rw [kSegmentDataOffset]
      omega
    obtain ⟨len, hlt, hlen, hbig⟩ := exists_storable bufLen
    obtain ⟨ha, hstored⟩ := @accepts_segmentRecord n s entry key len _ hlt hsize hroom
    have hin := cCopyInside_iff.mp (h (diskWith entry (segmentRecord key len))
      (ByteMemory.zero.write 0 (segmentRecord key len))) entry hr ha (hstored.trans_le hlen)
    rw [hstored, copyInside_iff] at hin
    rw [kSegmentDataOffset] at hcap hin
    omega
  · intro h disk mem
    refine cCopyInside_iff.mpr fun entry hr ha hlen => copyInside_iff.mpr (Or.inr ?_)
    rcases h entry hr with hcap | hsmall
    · exact (Nat.add_le_add_left hlen _).trans (le_dmaBufSize hcap)
    · have hroom := ha.room
      rw [List.flatten_cons, List.flatten_nil, List.append_nil, ByteMemory.length_read] at hroom
      have hzero : dmaBufSize bufLen = 0 := by omega
      refine absurd ha.magic (magic_ne_of_zero fun i _ => ?_)
      rw [getD_segmentBuffer, if_neg (by omega), hzero]
      rfl

/-- **When the copy of a value stays inside its buffer.** Whatever the disk and the memory
hold, `get` needs pages as long as the buffer of the caller, and `spdk_kv_get_async` a buffer
of the caller below its cap, or pages that do not fit its own. With given contents the length
that passes the checks has to fit. -/
theorem copies_inside_iff (s : KvStore n) (key : UInt64) (bufLen : ℕ) :
    ((∀ disk mem, (s.withDisk disk).GetCopyInside key mem bufLen) ↔
      ∀ entry, s.Reads key entry →
        bufLen = 0 ∨ recordHeaderSize + bufLen ≤ readSize entry) ∧
    ((∀ disk mem, (s.withDisk disk).CCopyInside key mem bufLen) ↔
      ∀ entry, s.Reads key entry → kSegmentDataOffset + bufLen ≤ 16 * kPageSize ∨
        dmaBufSize bufLen < max 1 (readSize entry)) ∧
    (∀ mem, s.GetCopyInside key mem bufLen ↔
      ∀ entry, s.Reads key entry → GetAccepts (s.dmaBuffer entry mem) bufLen →
        CopyInside recordHeaderSize (storedLen (s.dmaBuffer entry mem)) (readSize entry)) ∧
    (∀ mem, s.CCopyInside key mem bufLen ↔
      ∀ entry, s.Reads key entry →
        s.GetAsyncAccepts entry [mem.read 0 (dmaBufSize bufLen)] →
        segmentLen (s.segmentBuffer entry [mem.read 0 (dmaBufSize bufLen)]) ≤ bufLen →
          CopyInside kSegmentDataOffset
            (segmentLen (s.segmentBuffer entry [mem.read 0 (dmaBufSize bufLen)]))
            (dmaBufSize bufLen)) :=
  ⟨forall_getCopyInside_iff, forall_cCopyInside_iff, fun _ => getCopyInside_iff,
    fun _ => cCopyInside_iff⟩

/-- What was written to the store of zeros can be read. -/
theorem reads_zeroStoreWith (w : RecordWrite) {p : Place} (hp : p.Fits) :
    (zeroStoreWith w p).Reads w.key (w.entry p) :=
  ⟨(zeroStore_wrote w p).ready, (zeroStore_wrote w p).fetch (zeroStore_takes w p) hp⟩

/-- **Copies of too many bytes.** An entry of one page whose record has 5000 bytes: `get`
copies 932 bytes from behind its buffer. An entry of 16 pages whose record fills them, as
`put_async` stores its length: `spdk_kv_get_async` copies 512 bytes from behind its own. -/
theorem copies_outside :
    let short : RecordWrite := ⟨1, 1, 1, []⟩
    let full : RecordWrite := ⟨1, 1, 16, []⟩
    let p : Place := ⟨0, 1⟩
    ¬ ((zeroStoreWith short p).withDisk (diskWith (short.entry p)
      (plainRecord 1 5000))).GetCopyInside 1 (ByteMemory.zero.write 0 (plainRecord 1 5000))
        5000 ∧
    ¬ ((zeroStoreWith full p).withDisk (diskWith (full.entry p)
      (segmentRecord 1 65536))).CCopyInside 1
        (ByteMemory.zero.write 0 (segmentRecord 1 65536)) 65536 := by
  intro short full p
  have hp : p.Fits := ⟨by decide, by decide⟩
  have hdma : dmaBufSize 65536 = 16 * kPageSize := by decide
  have hshort : readSize (short.entry p) = 4096 := by decide
  have hfull : readSize (full.entry p) = 16 * kPageSize := rfl
  constructor
  · intro h
    obtain ⟨ha, hlen⟩ := @accepts_plainRecord 3 (zeroStoreWith short p) 5000 (short.entry p) 1
      5000 (by decide) (by decide) le_rfl
    have hin := getCopyInside_iff.mp h _ (reads_zeroStoreWith short hp) ha
    rw [hlen, copyInside_iff, hshort, recordHeaderSize, sizeofEntryHeader] at hin
    omega
  · intro h
    obtain ⟨ha, hlen⟩ := @accepts_segmentRecord 3 (zeroStoreWith full p) (full.entry p) 1 65536
      (dmaBufSize 65536) (by decide) (by rw [hdma]; decide) (by rw [hdma, hfull])
    have hin := cCopyInside_iff.mp h _ (reads_zeroStoreWith full hp) ha (Nat.le_of_eq hlen)
    rw [hlen, copyInside_iff, hdma, kSegmentDataOffset, kPageSize] at hin
    omega

end KvStore

end SpdkKv
