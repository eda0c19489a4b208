import SpdkKv.Crc32
import SpdkKv.Lib.Bytes

/-!
# Log Records and Index Entries

The on-disk log record that `Engine::build_entry_inplace` writes, and the 20-byte entry
that the memory index keeps for it. A record is an `EntryHeader`, the key, the value
length, the value, zero padding up to the last four bytes of its last page, and the
checksum of everything before it.

## Main results

* `length_buildEntryInplace`: a record fills whole pages.
* `readHeader_buildEntryInplace`, `readKey_buildEntryInplace`,
  `readValueLen_buildEntryInplace`: what a reader finds in the header of a record.
* `storedChecksum_buildEntryInplace`: the stored checksum is the one a reader computes.
-/

namespace SpdkKv

/-! ### Header and index entry -/

/-- The 16-byte header of a log record. -/
structure EntryHeader where
  magic : UInt32
  version : UInt16
  flags : UInt8
  reserved : UInt8
  sequence : UInt32
  padding : UInt32
  deriving DecidableEq, Repr

/-- Size of an `EntryHeader`. -/
def sizeofEntryHeader : ℕ := 16

/-- Bytes in front of the value of a record: header, key and value length. -/
def recordHeaderSize : ℕ := sizeofEntryHeader + 8 + 4

/-- The stored form of a header. -/
def EntryHeader.bytes (h : EntryHeader) : List UInt8 :=
  leBytes 4 h.magic.toNat ++ leBytes 2 h.version.toNat ++ leBytes 1 h.flags.toNat ++
    leBytes 1 h.reserved.toNat ++ leBytes 4 h.sequence.toNat ++ leBytes 4 h.padding.toNat

/-- An index entry: where the newest record of a key lies. The bit fields and the page
count have the widths of the source, so assigning to them truncates. -/
structure MemIndexEntry where
  key : UInt64
  fileId : BitVec 10
  offsetIndex : BitVec 21
  deleted : Bool
  sequence : UInt32
  pageCount : UInt16
  tag : UInt8
  deriving DecidableEq, Repr

namespace MemIndexEntry

/-- The contents of a slot after the table was zeroed. -/
def zero : MemIndexEntry := ⟨0, 0, 0, false, 0, 0, 0⟩

/-- `is_empty` of the source. -/
def isEmpty (e : MemIndexEntry) : Bool := e.key == 0 && e.sequence == 0

end MemIndexEntry

/-! ### Reading fields of a buffer -/

/-- A 32-bit load. -/
def readU32 (buf : List UInt8) (offset : ℕ) : UInt32 := UInt32.ofNat (fieldAt buf offset 4)

/-- A 64-bit load. -/
def readU64 (buf : List UInt8) (offset : ℕ) : UInt64 := UInt64.ofNat (fieldAt buf offset 8)

/-- The header a reader sees at `offset`. -/
def readHeader (buf : List UInt8) (offset : ℕ) : EntryHeader where
  magic := readU32 buf offset
  version := UInt16.ofNat (fieldAt buf (offset + 4) 2)
  flags := UInt8.ofNat (fieldAt buf (offset + 6) 1)
  reserved := UInt8.ofNat (fieldAt buf (offset + 7) 1)
  sequence := readU32 buf (offset + 8)
  padding := readU32 buf (offset + 12)

/-- The key behind the header at `offset`. -/
def readKey (buf : List UInt8) (offset : ℕ) : UInt64 :=
  readU64 buf (offset + sizeofEntryHeader)

/-- The value length behind the key at `offset`. -/
def readValueLen (buf : List UInt8) (offset : ℕ) : UInt32 :=
  readU32 buf (offset + sizeofEntryHeader + 8)

/-- The page-aligned size of a record whose value has `valueLen` bytes. -/
def entrySize (valueLen : ℕ) : ℕ := alignUp (recordHeaderSize + valueLen + 4) kPageSize

/-- The `len` bytes of a buffer from `offset` on. -/
def slice (buf : List UInt8) (offset len : ℕ) : List UInt8 := (buf.drop offset).take len

/-- `header.flags & kFlagDeleted`. -/
def EntryHeader.isDeleted (h : EntryHeader) : Bool := h.flags &&& kFlagDeleted != 0

/-! ### Building a record -/

/-- The header and everything else in front of the checksum. -/
def entryData (key : UInt64) (value : List UInt8) (seq : UInt32) (isTombstone : Bool) :
    List UInt8 :=
  let header : EntryHeader :=
    ⟨kEntryMagic, 1, if isTombstone then kFlagDeleted else 0, 0, seq, 0⟩
  let used := recordHeaderSize + value.length
  let aligned := alignUp (used + 4) kPageSize
  header.bytes ++ leBytes 8 key.toNat ++ leBytes 4 value.length ++ value ++
    List.replicate (aligned - used - 4) 0

/-- `Engine::build_entry_inplace`: the bytes of the record in its slot. -/
def buildEntryInplace (key : UInt64) (value : List UInt8) (seq : UInt32)
    (isTombstone : Bool) : List UInt8 :=
  let data := entryData key value seq isTombstone
  data ++ leBytes 4 (Crc32.calculate data).toNat

variable (key : UInt64) (value : List UInt8) (seq : UInt32) (tomb : Bool)

theorem length_entryData :
    (entryData key value seq tomb).length = entrySize value.length - 4 := by
  have := le_alignUp (recordHeaderSize + value.length + 4)
  simp only [entryData, EntryHeader.bytes, List.length_append, length_leBytes,
    List.length_replicate, entrySize, recordHeaderSize, sizeofEntryHeader] at *
  omega

theorem entrySize_ge (valueLen : ℕ) : recordHeaderSize + valueLen + 4 ≤ entrySize valueLen :=
  le_alignUp _

theorem entrySize_eq (valueLen : ℕ) :
    entrySize valueLen = pagesFor (recordHeaderSize + valueLen + 4) * kPageSize := rfl

/-- A record fills whole pages. -/
theorem length_buildEntryInplace :
    (buildEntryInplace key value seq tomb).length = entrySize value.length := by
  have := entrySize_ge value.length
  simp only [buildEntryInplace, List.length_append, length_entryData, length_leBytes]
  omega

/-- A record begins with its header, its key and its value length. -/
theorem buildEntryInplace_eq_append :
    ∃ rest, buildEntryInplace key value seq tomb =
      EntryHeader.bytes ⟨kEntryMagic, 1, if tomb then kFlagDeleted else 0, 0, seq, 0⟩ ++
        (leBytes 8 key.toNat ++ (leBytes 4 value.length ++ (value ++ rest))) := by
  simp only [buildEntryInplace, entryData, List.append_assoc]
  exact ⟨_, rfl⟩

/-- A header is read back as it was written. -/
theorem readHeader_bytes_append (h : EntryHeader) (rest : List UInt8) :
    readHeader (h.bytes ++ rest) 0 = h := by
  obtain ⟨magic, version, flags, reserved, sequence, padding⟩ := h
  have hf : ∀ pre mid post : List UInt8, ∀ o w, pre.length = o → mid.length = w →
      fieldAt (pre ++ (mid ++ post)) o w = leNat mid :=
    fun _ _ _ _ _ ho hw => fieldAt_append ho hw
  have h1 := hf [] (leBytes 4 magic.toNat) (leBytes 2 version.toNat ++
    (leBytes 1 flags.toNat ++ (leBytes 1 reserved.toNat ++ (leBytes 4 sequence.toNat ++
      (leBytes 4 padding.toNat ++ rest))))) 0 4 rfl (by simp)
  have h2 := hf (leBytes 4 magic.toNat) (leBytes 2 version.toNat)
    (leBytes 1 flags.toNat ++ (leBytes 1 reserved.toNat ++ (leBytes 4 sequence.toNat ++
      (leBytes 4 padding.toNat ++ rest)))) 4 2 (by simp) (by simp)
  have h3 := hf (leBytes 4 magic.toNat ++ leBytes 2 version.toNat) (leBytes 1 flags.toNat)
    (leBytes 1 reserved.toNat ++ (leBytes 4 sequence.toNat ++
      (leBytes 4 padding.toNat ++ rest))) 6 1 (by simp) (by simp)
  have h4 := hf (leBytes 4 magic.toNat ++ leBytes 2 version.toNat ++ leBytes 1 flags.toNat)
    (leBytes 1 reserved.toNat) (leBytes 4 sequence.toNat ++ (leBytes 4 padding.toNat ++ rest))
    7 1 (by simp) (by simp)
  have h5 := hf (leBytes 4 magic.toNat ++ leBytes 2 version.toNat ++ leBytes 1 flags.toNat ++
    leBytes 1 reserved.toNat) (leBytes 4 sequence.toNat) (leBytes 4 padding.toNat ++ rest)
    8 4 (by simp) (by simp)
  have h6 := hf (leBytes 4 magic.toNat ++ leBytes 2 version.toNat ++ leBytes 1 flags.toNat ++
    leBytes 1 reserved.toNat ++ leBytes 4 sequence.toNat) (leBytes 4 padding.toNat) rest
    12 4 (by simp) (by simp)
  simp only [List.nil_append, List.append_assoc] at h1 h2 h3 h4 h5 h6
  have hm : magic.toNat < 256 ^ 4 := magic.toNat_lt
  have hv : version.toNat < 256 ^ 2 := version.toNat_lt
  have hfl : flags.toNat < 256 ^ 1 := flags.toNat_lt
  have hr : reserved.toNat < 256 ^ 1 := reserved.toNat_lt
  have hs : sequence.toNat < 256 ^ 4 := sequence.toNat_lt
  have hp : padding.toNat < 256 ^ 4 := padding.toNat_lt
  simp only [readHeader, readU32, EntryHeader.bytes, List.append_assoc, h1, h2, h3, h4, h5,
    h6, leNat_leBytes_of_lt, hm, hv, hfl, hr, hs, hp, UInt32.ofNat_toNat,
    UInt16.ofNat_toNat, UInt8.ofNat_toNat]

theorem length_header_bytes (h : EntryHeader) : h.bytes.length = sizeofEntryHeader := by
  simp [EntryHeader.bytes, sizeofEntryHeader]

/-- The header a reader finds at the start of a record. -/
theorem readHeader_buildEntryInplace :
    readHeader (buildEntryInplace key value seq tomb) 0 =
      ⟨kEntryMagic, 1, if tomb then kFlagDeleted else 0, 0, seq, 0⟩ := by
  obtain ⟨rest, h⟩ := buildEntryInplace_eq_append key value seq tomb
  rw [h, readHeader_bytes_append]

/-- The key a reader finds in a record. -/
theorem readKey_buildEntryInplace :
    readKey (buildEntryInplace key value seq tomb) 0 = key := by
  obtain ⟨rest, h⟩ := buildEntryInplace_eq_append key value seq tomb
  have hk : key.toNat < 256 ^ 8 := key.toNat_lt
  rw [h, readKey, readU64, fieldAt_append (by simp [length_header_bytes]) (by simp),
    leNat_leBytes_of_lt hk, UInt64.ofNat_toNat]

/-- The value length a reader finds in a record, for a value that fits its field. -/
theorem readValueLen_buildEntryInplace (hv : value.length < 2 ^ 32) :
    (readValueLen (buildEntryInplace key value seq tomb) 0).toNat = value.length := by
  obtain ⟨rest, h⟩ := buildEntryInplace_eq_append key value seq tomb
  rw [h, ← List.append_assoc, readValueLen, readU32,
    fieldAt_append (by simp [length_header_bytes, sizeofEntryHeader]) (by simp),
    leNat_leBytes_of_lt (by simpa using hv)]
  simp only [UInt32.toNat_ofNat', Nat.mod_eq_of_lt hv]

/-- The value of a record lies behind its header. -/
theorem slice_buildEntryInplace :
    slice (buildEntryInplace key value seq tomb) recordHeaderSize value.length = value := by
  obtain ⟨rest, h⟩ := buildEntryInplace_eq_append key value seq tomb
  have hl : (EntryHeader.bytes
      ⟨kEntryMagic, 1, if tomb then kFlagDeleted else 0, 0, seq, 0⟩ ++
      (leBytes 8 key.toNat ++ leBytes 4 value.length)).length = recordHeaderSize := by
    simp [length_header_bytes, recordHeaderSize]
  rw [h, slice, ← List.append_assoc (leBytes 8 _), ← List.append_assoc (EntryHeader.bytes _),
    List.drop_append_of_le_length (by omega), ← hl, List.drop_length, List.nil_append,
    List.take_append_of_le_length (le_refl _), List.take_length]

/-- The checksum a reader finds in a record. -/
theorem storedChecksum_buildEntryInplace :
    readU32 (buildEntryInplace key value seq tomb) (entrySize value.length - 4) =
      Crc32.calculate
        ((buildEntryInplace key value seq tomb).take (entrySize value.length - 4)) := by
  have hl := length_entryData key value seq tomb
  have hc : (Crc32.calculate (entryData key value seq tomb)).toNat < 256 ^ 4 :=
    (Crc32.calculate (entryData key value seq tomb)).toNat_lt
  have ht : (buildEntryInplace key value seq tomb).take (entrySize value.length - 4) =
      entryData key value seq tomb := by
    rw [buildEntryInplace, List.take_append_of_le_length (by omega), ← hl, List.take_length]
  have hr : fieldAt (buildEntryInplace key value seq tomb) (entrySize value.length - 4) 4 =
      leNat (leBytes 4 (Crc32.calculate (entryData key value seq tomb)).toNat) := by
    have hmid := length_leBytes 4 (Crc32.calculate (entryData key value seq tomb)).toNat
    rw [← fieldAt_append hl hmid, List.append_nil]
    rfl
  rw [readU32, hr, ht, leNat_leBytes_of_lt hc, UInt32.ofNat_toNat]

end SpdkKv
