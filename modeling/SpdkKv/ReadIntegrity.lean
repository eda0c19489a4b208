import SpdkKv.ReadChecks

/-!
# Records That Are Intact

A record is intact when its key is the one that is looked for and its checksum is that of its
contents. The recovery and the compaction take no other records; `get` and `get_async` compare
neither.

## Main results

* `intactPlain_iff`: the records that the recovery takes.
* `intactPlain_builtWrite`, `intactSegment_segmentWrite`: the records of the writers.
* `success_means_intact_iff`: **when a success means an intact record**.
* `get_delivers_other_key`: a `get` of key 1 that delivers the record of key 2.
-/

namespace SpdkKv

open KvStore

/-! ### Intact records -/

/-- The bytes begin with an intact record of the key in the first layout. -/
structure IntactPlain (buf : List UInt8) (key : UInt64) (value : List UInt8) : Prop where
  magic : (readHeader buf 0).magic = kEntryMagic
  key_eq : readKey buf 0 = key
  length_eq : (readValueLen buf 0).toNat = value.length
  fits : entrySize value.length ≤ buf.length
  value_eq : slice buf recordHeaderSize value.length = value
  /-- The checksum covers the record up to its last four bytes. -/
  checksum : readU32 buf (entrySize value.length - 4) =
    Crc32.calculate (slice buf 0 (entrySize value.length - 4))

/-- The bytes begin with an intact record of the key in the layout of `put_async`, whose
length field has the size of the record. -/
structure IntactSegment (buf : List UInt8) (key : UInt64) (value : List UInt8) : Prop where
  magic : (readHeader buf kSegmentMetaOffset).magic = kEntryMagic
  key_eq : readKey buf kSegmentMetaOffset = key
  length_eq : (readValueLen buf kSegmentMetaOffset).toNat = kSegmentDataOffset + value.length
  fits : kSegmentDataOffset + value.length ≤ buf.length
  value_eq : slice buf kSegmentDataOffset value.length = value
  /-- The checksum covers everything but the metadata area. -/
  checksum : readU32 buf (kSegmentMetaOffset + recordHeaderSize) =
    Crc32.calculate (buf.take kSegmentMetaOffset ++ value)

/-- **The records that the recovery takes** are the intact ones. -/
theorem intactPlain_iff {buf : List UInt8} {key : UInt64} {value : List UInt8} :
    IntactPlain buf key value ↔ (∃ r, parseAt buf 0 = .record r ∧ r.key = key) ∧
      value = slice buf recordHeaderSize (readValueLen buf 0).toNat := by
  constructor
  · rintro ⟨hmagic, hkey, hlen, hfits, hvalue, hcrc⟩
    have hge := entrySize_ge value.length
    refine ⟨⟨⟨0, entrySize value.length, key, (readHeader buf 0).sequence,
      (readHeader buf 0).isDeleted⟩, ?_, rfl⟩, by rw [hlen, hvalue]⟩
    rw [parseAt, if_pos (by omega)]
    simp only [hmagic, hkey, hlen, ne_eq, not_true_eq_false, if_false, Nat.zero_add]
    rw [if_neg (by omega), if_neg (not_not.mpr hcrc)]
  · rintro ⟨⟨r, hr, hkey⟩, rfl⟩
    simp only [parseAt, Nat.zero_add] at hr
    split_ifs at hr with hfront hmagic hnext hfits hcrc
    obtain rfl := ParseStep.record.inj hr
    have hge := entrySize_ge (readValueLen buf 0).toNat
    have hl : (slice buf recordHeaderSize (readValueLen buf 0).toNat).length =
        (readValueLen buf 0).toNat := by
      rw [slice, List.length_take, List.length_drop]
      omega
    exact ⟨not_not.mp hmagic, hkey, hl.symm, by rw [hl]; exact not_lt.mp hfits, by rw [hl],
      by rw [hl]; exact not_not.mp hcrc⟩

theorem length_builtWrite (key : UInt64) (value : List UInt8) (seq : UInt32)
    (hlen : entrySize value.length < 2 ^ 32) :
    (builtWrite key value seq).bytes.length = entrySize value.length := by
  rw [builtWrite, List.length_take, length_buildEntryInplace, Nat.mod_eq_of_lt hlen, min_self]

/-- A record of `put` and `put_buffered` is intact. -/
theorem intactPlain_builtWrite (key : UInt64) (value : List UInt8) (seq : UInt32)
    (hlen : entrySize value.length < 2 ^ 32) :
    IntactPlain (builtWrite key value seq).bytes key value := by
  have hv : value.length < 2 ^ 32 := by
    have := entrySize_ge value.length
    omega
  have hbytes : (builtWrite key value seq).bytes = buildEntryInplace key value seq false := by
    rw [builtWrite, Nat.mod_eq_of_lt hlen, ← length_buildEntryInplace key value seq false,
      List.take_length]
  have hparse := parseAt_buildEntryInplace_append key value seq false hv []
  rw [List.append_nil] at hparse
  rw [hbytes, intactPlain_iff, readValueLen_buildEntryInplace key value seq false hv,
    slice_buildEntryInplace]
  exact ⟨⟨_, hparse, rfl⟩, rfl⟩

section SegmentRecord

variable {key : UInt64} {first : List UInt8} {rest : List (List UInt8)} {seq : UInt32}

/-- The checksum of `put_async`, piece by piece, is that of the bytes around the metadata
area. -/
theorem segmentCrc_eq (hfirst : kSegmentDataOffset < first.length) :
    segmentCrc first rest = Crc32.calculate (first.take kSegmentMetaOffset ++
      (first ++ rest.flatten).drop kSegmentDataOffset) := by
  rw [segmentCrc_eq_calculate, List.append_assoc, List.drop_append_of_le_length hfirst.le]

/-- The header of a record of `put_async`. -/
def segmentEntryHeader (seq : UInt32) : EntryHeader :=
  ⟨kEntryMagic, 1, kFlagSegmentBuf, 0, seq, 0⟩

/-- A record of `put_async` in the order of its fields. -/
theorem bytes_segmentWrite (hfirst : kPageSize ≤ first.length)
    (hlen : (first ++ rest.flatten).length < 2 ^ 32) :
    (segmentWrite key first rest seq).bytes = first.take kSegmentMetaOffset ++
      ((segmentEntryHeader seq).bytes ++ (leBytes 8 key.toNat ++
        (leBytes 4 (first ++ rest.flatten).length ++
          (leBytes 4 (segmentCrc first rest).toNat ++
            (first.drop (kSegmentMetaOffset + segmentMetadataSize) ++ rest.flatten))))) := by
  have hmod := Nat.mod_eq_of_lt hlen
  rw [kPageSize] at hfirst
  rw [segmentWrite]
  simp only [hmod, stampSegment, segmentMetadata, segmentEntryHeader]
  rw [List.take_of_length_le]
  · simp only [List.append_assoc]
  · simp only [List.length_append, List.length_take, List.length_drop, length_header_bytes,
      length_leBytes, segmentMetadataSize, sizeofEntryHeader, kSegmentMetaOffset]
    omega

theorem length_segmentWrite (hfirst : kPageSize ≤ first.length)
    (hlen : (first ++ rest.flatten).length < 2 ^ 32) :
    (segmentWrite key first rest seq).bytes.length = (first ++ rest.flatten).length := by
  rw [bytes_segmentWrite hfirst hlen]
  rw [kPageSize] at hfirst
  simp only [List.length_append, List.length_take, List.length_drop, length_header_bytes,
    length_leBytes, segmentMetadataSize, sizeofEntryHeader, kSegmentMetaOffset]
  omega

/-- The value lies behind the metadata area. -/
theorem drop_segmentWrite (hfirst : kPageSize ≤ first.length)
    (hlen : (first ++ rest.flatten).length < 2 ^ 32) :
    (segmentWrite key first rest seq).bytes.drop kSegmentDataOffset =
      (first ++ rest.flatten).drop kSegmentDataOffset := by
  have hbytes := @bytes_segmentWrite key _ _ seq hfirst hlen
  rw [kPageSize] at hfirst
  obtain ⟨front, hfront, hsplit⟩ : ∃ front : List UInt8,
      front.length = kSegmentMetaOffset + segmentMetadataSize ∧
        (segmentWrite key first rest seq).bytes = front ++
          (first.drop (kSegmentMetaOffset + segmentMetadataSize) ++ rest.flatten) := by
    refine ⟨first.take kSegmentMetaOffset ++ ((segmentEntryHeader seq).bytes ++
      (leBytes 8 key.toNat ++ (leBytes 4 (first ++ rest.flatten).length ++
        leBytes 4 (segmentCrc first rest).toNat))), ?_, ?_⟩
    · simp only [List.length_append, List.length_take, length_header_bytes, length_leBytes,
        segmentMetadataSize, sizeofEntryHeader, kSegmentMetaOffset]
      omega
    · simp only [hbytes, List.append_assoc]
  rw [segmentMetadataSize, sizeofEntryHeader] at hfront hsplit
  have hgap : kSegmentDataOffset - front.length = 224 := by
    rw [hfront, kSegmentDataOffset, kSegmentMetaOffset]
  have hskip : 224 ≤ (first.drop (kSegmentMetaOffset + (16 + 8 + 4 + 4))).length := by
    rw [List.length_drop, kSegmentMetaOffset]
    omega
  have hdata : kSegmentDataOffset ≤ first.length := by
    rw [kSegmentDataOffset]
    omega
  rw [hsplit, List.drop_append, List.drop_eq_nil_of_le (by omega), List.nil_append, hgap,
    List.drop_append_of_le_length hskip, List.drop_drop, List.drop_append_of_le_length hdata,
    kSegmentMetaOffset, kSegmentDataOffset]

/-- A record of `put_async` is intact. -/
theorem intactSegment_segmentWrite (hfirst : kPageSize ≤ first.length)
    (hlen : (first ++ rest.flatten).length < 2 ^ 32) :
    IntactSegment (segmentWrite key first rest seq).bytes key
      ((first ++ rest.flatten).drop kSegmentDataOffset) := by
  have hdata : kSegmentDataOffset < first.length := lt_of_lt_of_le (by decide) hfirst
  have hvalue : kSegmentDataOffset + ((first ++ rest.flatten).drop kSegmentDataOffset).length =
      (first ++ rest.flatten).length := by
    rw [List.length_drop]
    rw [List.length_append] at *
    omega
  have hpre : (first.take kSegmentMetaOffset).length = kSegmentMetaOffset := by
    rw [List.length_take]
    exact min_eq_left (le_trans (by decide) hfirst)
  have hbytes := @bytes_segmentWrite key _ _ seq hfirst hlen
  have hl := length_header_bytes (segmentEntryHeader seq)
  have hkey : key.toNat < 256 ^ 8 := key.toNat_lt
  have htotal : (first ++ rest.flatten).length < 256 ^ 4 := by omega
  have hcrc : (segmentCrc first rest).toNat < 256 ^ 4 := (segmentCrc first rest).toNat_lt
  refine ⟨?_, ?_, ?_, ?_, ?_, ?_⟩
  · have hread := readHeader_append (first.take kSegmentMetaOffset)
      ((segmentEntryHeader seq).bytes ++ (leBytes 8 key.toNat ++
        (leBytes 4 (first ++ rest.flatten).length ++
          (leBytes 4 (segmentCrc first rest).toNat ++
            (first.drop (kSegmentMetaOffset + segmentMetadataSize) ++ rest.flatten))))) 0
    rw [hpre, Nat.add_zero, readHeader_bytes_append] at hread
    rw [hbytes, hread, segmentEntryHeader]
  · rw [hbytes, ← List.append_assoc, readKey, readU64,
      fieldAt_append (by rw [List.length_append, hpre, hl]) (length_leBytes 8 _),
      leNat_leBytes_of_lt hkey, UInt64.ofNat_toNat]
  · rw [hbytes, ← List.append_assoc, ← List.append_assoc, readValueLen, readU32,
      fieldAt_append (by rw [List.length_append, List.length_append, hpre, hl, length_leBytes])
        (length_leBytes 4 _), leNat_leBytes_of_lt htotal, hvalue]
    exact Nat.mod_eq_of_lt hlen
  · rw [hvalue, length_segmentWrite hfirst hlen]
  · rw [slice, drop_segmentWrite hfirst hlen, List.take_length]
  · have htake : (segmentWrite key first rest seq).bytes.take kSegmentMetaOffset =
        first.take kSegmentMetaOffset := by
      rw [hbytes, List.take_left' hpre]
    rw [htake, hbytes, ← List.append_assoc, ← List.append_assoc, ← List.append_assoc, readU32,
      fieldAt_append (by
        rw [List.length_append, List.length_append, List.length_append, hpre, hl,
          length_leBytes, length_leBytes, recordHeaderSize, Nat.add_assoc, Nat.add_assoc])
        (length_leBytes 4 _), leNat_leBytes_of_lt hcrc, UInt32.ofNat_toNat,
      segmentCrc_eq hdata]

end SegmentRecord

/-! ### What a success means -/

namespace KvStore

variable {n : ℕ} {s : KvStore n} {key : UInt64} {entry : MemIndexEntry} {mem : ByteMemory}
  {bufLen : ℕ} {output : List (List UInt8)}

/-- A successful `get` delivers the value of an intact record of the key. -/
def GetChecked (s : KvStore n) (key : UInt64) (mem : ByteMemory) (bufLen : ℕ) : Prop :=
  ∀ ioOk entry, s.Reads key entry →
    let r := s.get key mem bufLen ioOk
    r.status = .kSuccess → ∃ value, IntactPlain (s.pages entry) key value ∧ r.buffer = value

/-- The segments that a caller of `get_async` provides: whole pages. -/
def SegmentsOk (output : List (List UInt8)) : Prop :=
  ∀ segment ∈ output, kPageSize ≤ segment.length

/-- A successful `get_async` leaves the value of an intact record of the key behind the first
512 bytes of its segments. -/
def GetAsyncChecked (s : KvStore n) (key : UInt64) (output : List (List UInt8)) : Prop :=
  ∀ ioOk entry, SegmentsOk output → s.Reads key entry →
    let r := s.getAsync key output ioOk
    r.status = .kSuccess → ∃ value, IntactSegment (s.pages entry) key value ∧
      slice r.buffer kSegmentDataOffset value.length = value

theorem read_dmaBuffer {k len : ℕ} (h : k + len ≤ (s.pages entry).length) :
    (s.dmaBuffer entry mem).read k len = slice (s.pages entry) k len := by
  have := @ByteMemory.read_write_within mem 0 k len (s.pages entry) h
  rwa [Nat.zero_add] at this

/-- `get` finds the front of an intact record. -/
theorem recordFront_of_intact (mem : ByteMemory) {value : List UInt8}
    (h : IntactPlain (s.pages entry) key value) :
    (readHeader (recordFront (s.dmaBuffer entry mem)) 0).magic = kEntryMagic ∧
      storedLen (s.dmaBuffer entry mem) = value.length := by
  have hfits := h.fits
  have hge := entrySize_ge value.length
  have hfront : recordFront (s.dmaBuffer entry mem) = (s.pages entry).take recordHeaderSize :=
    read_dmaBuffer (by omega)
  obtain ⟨hh, -, hv⟩ := readers_take (s.pages entry) (le_refl recordHeaderSize)
  rw [storedLen, hfront, hh, hv]
  exact ⟨h.magic, h.length_eq⟩

/-- What it copies is the value. -/
theorem dmaBuffer_of_intact {value : List UInt8} (h : IntactPlain (s.pages entry) key value) :
    (s.dmaBuffer entry mem).read recordHeaderSize (storedLen (s.dmaBuffer entry mem)) =
      value := by
  have hfits := h.fits
  have hge := entrySize_ge value.length
  rw [(recordFront_of_intact mem h).2, read_dmaBuffer (by omega), h.value_eq]

/-- `get` delivers an intact record, whatever key it is of. -/
theorem get_of_intact {key' : UInt64} {value : List UInt8} (hr : s.Reads key entry)
    (h : IntactPlain (s.pages entry) key' value) (hbuf : bufLen ≠ 0)
    (hle : value.length ≤ bufLen) :
    s.get key mem bufLen true = ⟨.kSuccess, value.length, value⟩ := by
  obtain ⟨hmagic, hlen⟩ := recordFront_of_intact mem h
  rw [get_of_accepts hr ⟨hbuf, hmagic, hlen.trans_le hle⟩, dmaBuffer_of_intact h, hlen]

/-- With given contents a success of `get` means an intact record when the pages that it
accepts hold one. -/
theorem getChecked_iff : s.GetChecked key mem bufLen ↔
    ∀ entry, s.Reads key entry → GetAccepts (s.dmaBuffer entry mem) bufLen →
      ∃ value, IntactPlain (s.pages entry) key value := by
  constructor
  · intro h entry hr ha
    obtain ⟨value, hintact, -⟩ := h true entry hr (get_success_iff.mpr ⟨entry, hr, rfl, ha⟩)
    exact ⟨value, hintact⟩
  · intro h ioOk entry hr r hs
    obtain ⟨entry', hr', rfl, ha⟩ := get_success_iff.mp hs
    obtain rfl := hr.unique hr'
    obtain ⟨value, hintact⟩ := h entry hr ha
    refine ⟨value, hintact, ?_⟩
    exact (congrArg ReadResult.buffer (get_of_accepts hr ha)).trans (dmaBuffer_of_intact hintact)

/-- With given contents a success of `get_async` means an intact record when the pages that it
accepts hold one. -/
theorem getAsyncChecked_iff : s.GetAsyncChecked key output ↔
    ∀ entry, SegmentsOk output → s.Reads key entry → s.GetAsyncAccepts entry output →
      ∃ value, IntactSegment (s.pages entry) key value := by
  constructor
  · intro h entry hok hr ha
    obtain ⟨value, hintact, -⟩ := h true entry hok hr
      (getAsync_success_iff.mpr ⟨entry, hr, rfl, ha⟩)
    exact ⟨value, hintact⟩
  · intro h ioOk entry hok hr r hs
    obtain ⟨entry', hr', rfl, ha⟩ := getAsync_success_iff.mp hs
    obtain rfl := hr.unique hr'
    obtain ⟨value, hintact⟩ := h entry hok hr ha
    have hfits := hintact.fits
    have hbuffer : r.buffer = s.segmentBuffer entry output :=
      congrArg ReadResult.buffer (getAsync_of_accepts hr ha)
    refine ⟨value, hintact, ?_⟩
    rw [hbuffer, segmentBuffer, slice, List.drop_append_of_le_length (by omega),
      List.take_append_of_le_length (by rw [List.length_drop]; omega)]
    exact hintact.value_eq

/-! ### Records of other keys -/

/-- Pages with the front of a record of another key hold no intact record of the key. -/
theorem not_intactPlain {key' : UInt64} (hkey : key' ≠ key) {value : List UInt8} :
    ¬ IntactPlain ((s.withDisk (diskWith entry (plainRecord key' 0))).pages entry) key value := by
  intro h
  have hge := entrySize_ge value.length
  have hsize : entrySize value.length ≤ readSize entry :=
    h.fits.trans (ByteMemory.length_read _ _ _).le
  have hfront : ∀ i < recordHeaderSize,
      ((s.withDisk (diskWith entry (plainRecord key' 0))).pages entry).getD (0 + i) 0 =
        (plainRecord key' 0).getD i 0 := by
    intro i hi
    rw [Nat.zero_add, getD_pages_diskWith, if_pos (by omega)]
  obtain ⟨-, hread, -⟩ := readers_plainRecord (by decide) hfront
  exact hkey (hread.symm.trans h.key_eq)

theorem not_intactSegment {key' : UInt64} (hkey : key' ≠ key) {value : List UInt8} :
    ¬ IntactSegment ((s.withDisk (diskWith entry (segmentRecord key' 0))).pages entry) key
      value := by
  intro h
  have hsize : kSegmentDataOffset ≤ readSize entry :=
    (Nat.le_add_right _ _).trans (h.fits.trans (ByteMemory.length_read _ _ _).le)
  have hfront : ∀ i < recordHeaderSize,
      ((s.withDisk (diskWith entry (segmentRecord key' 0))).pages entry).getD
        (kSegmentMetaOffset + i) 0 = (plainRecord key' 0).getD i 0 := by
    intro i hi
    rw [recordHeaderSize, sizeofEntryHeader] at hi
    rw [kSegmentDataOffset] at hsize
    rw [getD_pages_diskWith, if_pos (by rw [kSegmentMetaOffset]; omega), getD_segmentRecord]
  obtain ⟨-, hread, -⟩ := readers_plainRecord (by decide) hfront
  exact hkey (hread.symm.trans h.key_eq)

theorem add_one_ne (key : UInt64) : key + 1 ≠ key := by
  intro h
  have hnat := congrArg UInt64.toNat h
  have hlt := key.toNat_lt
  rw [UInt64.toNat_add, UInt64.toNat_one] at hnat
  omega

/-- Whatever the disk and the memory hold, a success of `get` means an intact record only if
there is nothing to read. -/
theorem forall_getChecked_iff : (∀ disk mem, (s.withDisk disk).GetChecked key mem bufLen) ↔
    bufLen = 0 ∨ ∀ entry, ¬ s.Reads key entry := by
  constructor
  · intro h
    by_contra hnot
    obtain ⟨hbuf, hread⟩ := not_or.mp hnot
    obtain ⟨entry, hr⟩ := not_forall.mp hread
    obtain ⟨ha, -⟩ := @accepts_plainRecord n s bufLen entry (key + 1) 0 (by decide) hbuf
      (Nat.zero_le _)
    obtain ⟨value, hintact⟩ := getChecked_iff.mp (h (diskWith entry (plainRecord (key + 1) 0))
      (ByteMemory.zero.write 0 (plainRecord (key + 1) 0))) entry (not_not.mp hr) ha
    exact not_intactPlain (add_one_ne key) hintact
  · rintro (rfl | hnone) disk mem
    · exact getChecked_iff.mpr fun _ _ ha => absurd rfl ha.buffer
    · exact getChecked_iff.mpr fun entry hr _ => absurd hr (hnone entry)

/-- Whatever the disk and the segments hold, a success of `get_async` means an intact record
only if there is nothing to read. -/
theorem forall_getAsyncChecked_iff :
    (∀ disk output, (s.withDisk disk).GetAsyncChecked key output) ↔
      ∀ entry, ¬ s.Reads key entry := by
  constructor
  · intro h entry hr
    obtain ⟨ha, -⟩ := @accepts_segmentRecord n s entry (key + 1) 0
      (max kPageSize (readSize entry)) (by decide) (le_max_of_le_left (by decide))
      (le_max_right _ _)
    have hok : SegmentsOk [(ByteMemory.zero.write 0 (segmentRecord (key + 1) 0)).read 0
        (max kPageSize (readSize entry))] := by
      intro segment hsegment
      obtain rfl := List.mem_singleton.mp hsegment
      rw [ByteMemory.length_read]
      exact le_max_left _ _
    obtain ⟨value, hintact⟩ := getAsyncChecked_iff.mp
      (h (diskWith entry (segmentRecord (key + 1) 0)) _) entry hok hr ha
    exact not_intactSegment (add_one_ne key) hintact
  · intro hnone disk output
    exact getAsyncChecked_iff.mpr fun entry _ hr _ => absurd hr (hnone entry)

/-- **When a success means an intact record.** Whatever the disk holds, only if there is
nothing to read; with given contents, if the pages that pass the checks hold an intact record
of the key. -/
theorem success_means_intact_iff (s : KvStore n) (key : UInt64) (bufLen : ℕ) :
    ((∀ disk mem, (s.withDisk disk).GetChecked key mem bufLen) ↔
      bufLen = 0 ∨ ∀ entry, ¬ s.Reads key entry) ∧
    ((∀ disk output, (s.withDisk disk).GetAsyncChecked key output) ↔
      ∀ entry, ¬ s.Reads key entry) ∧
    (∀ mem, s.GetChecked key mem bufLen ↔
      ∀ entry, s.Reads key entry → GetAccepts (s.dmaBuffer entry mem) bufLen →
        ∃ value, IntactPlain (s.pages entry) key value) ∧
    (∀ output, s.GetAsyncChecked key output ↔
      ∀ entry, SegmentsOk output → s.Reads key entry → s.GetAsyncAccepts entry output →
        ∃ value, IntactSegment (s.pages entry) key value) :=
  ⟨forall_getChecked_iff, forall_getAsyncChecked_iff, fun _ => getChecked_iff,
    fun _ => getAsyncChecked_iff⟩

/-- **A record of another key**: the entry of key 1 leads to a page with an intact record of
key 2, and `get` delivers its value as that of key 1. -/
theorem get_delivers_other_key :
    let w : RecordWrite := ⟨1, 1, 1, []⟩
    let s := (zeroStoreWith w ⟨0, 1⟩).withDisk
      (diskWith (w.entry ⟨0, 1⟩) (builtWrite 2 [7] 1).bytes)
    IntactPlain (s.pages (w.entry ⟨0, 1⟩)) 2 [7] ∧ s.get 1 .zero 1 true = ⟨.kSuccess, 1, [7]⟩ ∧
      ¬ s.GetChecked 1 .zero 1 := by
  intro w s
  have hr : s.Reads 1 (w.entry ⟨0, 1⟩) := reads_zeroStoreWith w ⟨by decide, by decide⟩
  have hrecord : IntactPlain (builtWrite 2 [7] 1).bytes 2 [7] :=
    intactPlain_builtWrite 2 [7] 1 (by decide)
  have hpages : s.pages (w.entry ⟨0, 1⟩) = (builtWrite 2 [7] 1).bytes :=
    pages_diskWith ((length_builtWrite 2 [7] 1 (by decide)).symm ▸ rfl)
  have hintact : IntactPlain (s.pages (w.entry ⟨0, 1⟩)) 2 [7] := by
    rwa [hpages]
  have hget : s.get 1 .zero 1 true = ⟨.kSuccess, 1, [7]⟩ :=
    get_of_intact hr hintact (by decide) le_rfl
  refine ⟨hintact, hget, fun h => ?_⟩
  obtain ⟨value, hother, -⟩ := h true _ hr (congrArg ReadResult.status hget)
  exact absurd (hintact.key_eq.symm.trans hother.key_eq) (by decide)

end KvStore

end SpdkKv
