import SpdkKv.Lib.ByteStore
import SpdkKv.MemIndex

/-!
# The Image of the Index

The form in which the memory index is stored in an index area: a 64-byte header and the
20-byte entries of the occupied slots, one after the other. `MemIndex::serialize` writes it;
the recovery reads entries back from any memory.

## Main results

* `MemIndexEntry.ofBytes_bytes`: an entry is read back from its 20 bytes.
* `imageEntries_serialize`: **the image of a table yields the entries of its occupied slots**
  in slot order.
-/

namespace SpdkKv

/-- Magic number of an index image, "MIDX". -/
def kMemIndexMagic : UInt32 := 0x4D494458

/-- Size of a `MemIndexEntry`. -/
def sizeofMemIndexEntry : ℕ := 20

/-- Size of a `SerializedMemIndexHeader`. -/
def sizeofSerializedHeader : ℕ := 64

/-! ### Entries -/

namespace MemIndexEntry

/-- The bit fields of an entry, packed into 32 bits. -/
def word (e : MemIndexEntry) : ℕ :=
  e.fileId.toNat + 2 ^ 10 * (e.offsetIndex.toNat + 2 ^ 21 * e.deleted.toNat)

/-- The stored form of an entry. -/
def bytes (e : MemIndexEntry) : List UInt8 :=
  leBytes 8 e.key.toNat ++ (leBytes 4 e.word ++ (leBytes 4 e.sequence.toNat ++
    (leBytes 2 e.pageCount.toNat ++ (leBytes 1 e.tag.toNat ++ leBytes 1 0))))

/-- The entry that 20 bytes stand for. -/
def ofBytes (bs : List UInt8) : MemIndexEntry where
  key := UInt64.ofNat (fieldAt bs 0 8)
  fileId := BitVec.ofNat 10 (fieldAt bs 8 4)
  offsetIndex := BitVec.ofNat 21 (fieldAt bs 8 4 / 2 ^ 10)
  deleted := fieldAt bs 8 4 / 2 ^ 31 % 2 == 1
  sequence := UInt32.ofNat (fieldAt bs 12 4)
  pageCount := UInt16.ofNat (fieldAt bs 16 2)
  tag := UInt8.ofNat (fieldAt bs 18 1)

@[simp] theorem length_bytes (e : MemIndexEntry) : e.bytes.length = sizeofMemIndexEntry := by
  simp only [bytes, List.length_append, length_leBytes, sizeofMemIndexEntry]

theorem word_lt (e : MemIndexEntry) : e.word < 256 ^ 4 := by
  have hfile := e.fileId.isLt
  have hoffset := e.offsetIndex.isLt
  have hdeleted := e.deleted.toNat_le
  rw [word]
  omega

/-- **An entry is read back from its bytes.** -/
theorem ofBytes_bytes (e : MemIndexEntry) : ofBytes e.bytes = e := by
  have hkey : fieldAt e.bytes 0 8 = e.key.toNat := by
    rw [bytes, fieldAt_front (length_leBytes _ _), leNat_leBytes_of_lt e.key.toNat_lt]
  have hword : fieldAt e.bytes 8 4 = e.word := by
    rw [bytes, fieldAt_append (length_leBytes _ _) (length_leBytes _ _),
      leNat_leBytes_of_lt e.word_lt]
  have hsequence : fieldAt e.bytes 12 4 = e.sequence.toNat := by
    rw [bytes, ← List.append_assoc, fieldAt_append (by simp) (length_leBytes _ _),
      leNat_leBytes_of_lt e.sequence.toNat_lt]
  have hpages : fieldAt e.bytes 16 2 = e.pageCount.toNat := by
    rw [bytes, ← List.append_assoc, ← List.append_assoc,
      fieldAt_append (by simp) (length_leBytes _ _), leNat_leBytes_of_lt e.pageCount.toNat_lt]
  have htag : fieldAt e.bytes 18 1 = e.tag.toNat := by
    rw [bytes, ← List.append_assoc, ← List.append_assoc, ← List.append_assoc,
      fieldAt_append (by simp) (length_leBytes _ _), leNat_leBytes_of_lt e.tag.toNat_lt]
  have hfile := e.fileId.isLt
  have hoffset := e.offsetIndex.isLt
  have hdeleted := e.deleted.toNat_le
  have hdel : (e.word / 2 ^ 31 % 2 == 1) = e.deleted := by
    have : e.word / 2 ^ 31 % 2 = e.deleted.toNat := by
      rw [word]
      omega
    rw [this]
    cases e.deleted <;> rfl
  have hfileId : BitVec.ofNat 10 e.word = e.fileId := by
    refine BitVec.eq_of_toNat_eq ?_
    rw [BitVec.toNat_ofNat, word]
    omega
  have hoffsetIndex : BitVec.ofNat 21 (e.word / 2 ^ 10) = e.offsetIndex := by
    refine BitVec.eq_of_toNat_eq ?_
    rw [BitVec.toNat_ofNat, word]
    omega
  rw [ofBytes, hkey, hword, hsequence, hpages, htag, hdel, hfileId, hoffsetIndex,
    UInt64.ofNat_toNat, UInt32.ofNat_toNat, UInt16.ofNat_toNat, UInt8.ofNat_toNat]

end MemIndexEntry

/-- The entry at an address of a memory. -/
def readIndexEntry (m : ByteMemory) (offset : ℕ) : MemIndexEntry :=
  MemIndexEntry.ofBytes (m.read offset sizeofMemIndexEntry)

/-! ### The header -/

/-- The header of an index image; its padding is zero. -/
structure SerializedMemIndexHeader where
  magic : UInt32
  version : UInt32
  entryCount : UInt64
  capacity : UInt64
  globalSequence : UInt64
  checksum : UInt32
  deriving DecidableEq, Repr

namespace SerializedMemIndexHeader

/-- The stored form of a header. -/
def bytes (h : SerializedMemIndexHeader) : List UInt8 :=
  leBytes 4 h.magic.toNat ++ (leBytes 4 h.version.toNat ++ (leBytes 8 h.entryCount.toNat ++
    (leBytes 8 h.capacity.toNat ++ (leBytes 8 h.globalSequence.toNat ++
      (leBytes 4 h.checksum.toNat ++ List.replicate 28 0)))))

/-- The header that 64 bytes stand for. -/
def ofBytes (bs : List UInt8) : SerializedMemIndexHeader where
  magic := readU32 bs 0
  version := readU32 bs 4
  entryCount := readU64 bs 8
  capacity := readU64 bs 16
  globalSequence := readU64 bs 24
  checksum := readU32 bs 32

@[simp] theorem length_bytes (h : SerializedMemIndexHeader) :
    h.bytes.length = sizeofSerializedHeader := by
  simp only [bytes, List.length_append, length_leBytes, List.length_replicate,
    sizeofSerializedHeader]

/-- A header is read back from its bytes. -/
theorem ofBytes_bytes (h : SerializedMemIndexHeader) : ofBytes h.bytes = h := by
  have hmagic : readU32 h.bytes 0 = h.magic := by
    rw [readU32, bytes, fieldAt_front (length_leBytes _ _),
      leNat_leBytes_of_lt h.magic.toNat_lt, UInt32.ofNat_toNat]
  have hversion : readU32 h.bytes 4 = h.version := by
    rw [readU32, bytes, fieldAt_append (length_leBytes _ _) (length_leBytes _ _),
      leNat_leBytes_of_lt h.version.toNat_lt, UInt32.ofNat_toNat]
  have hcount : readU64 h.bytes 8 = h.entryCount := by
    rw [readU64, bytes, ← List.append_assoc, fieldAt_append (by simp) (length_leBytes _ _),
      leNat_leBytes_of_lt h.entryCount.toNat_lt, UInt64.ofNat_toNat]
  have hcapacity : readU64 h.bytes 16 = h.capacity := by
    rw [readU64, bytes, ← List.append_assoc, ← List.append_assoc,
      fieldAt_append (by simp) (length_leBytes _ _), leNat_leBytes_of_lt h.capacity.toNat_lt,
      UInt64.ofNat_toNat]
  have hsequence : readU64 h.bytes 24 = h.globalSequence := by
    rw [readU64, bytes, ← List.append_assoc, ← List.append_assoc, ← List.append_assoc,
      fieldAt_append (by simp) (length_leBytes _ _),
      leNat_leBytes_of_lt h.globalSequence.toNat_lt, UInt64.ofNat_toNat]
  have hchecksum : readU32 h.bytes 32 = h.checksum := by
    rw [readU32, bytes, ← List.append_assoc, ← List.append_assoc, ← List.append_assoc,
      ← List.append_assoc, fieldAt_append (by simp) (length_leBytes _ _),
      leNat_leBytes_of_lt h.checksum.toNat_lt, UInt32.ofNat_toNat]
  rw [ofBytes, hmagic, hversion, hcount, hcapacity, hsequence, hchecksum]

end SerializedMemIndexHeader

/-- The header at the front of a memory. -/
def imageHeader (m : ByteMemory) : SerializedMemIndexHeader :=
  SerializedMemIndexHeader.ofBytes (m.read 0 sizeofSerializedHeader)

/-- The entry `i` behind the header. -/
def imageEntry (m : ByteMemory) (i : ℕ) : MemIndexEntry :=
  readIndexEntry m (sizeofSerializedHeader + i * sizeofMemIndexEntry)

/-- The entries behind the header, as many as it says. -/
def imageEntries (m : ByteMemory) : List MemIndexEntry :=
  (List.range (imageHeader m).entryCount.toNat).map (imageEntry m)

/-! ### Serialising a table -/

namespace MemIndex

variable {n : ℕ}

/-- The entries that `serialize` copies to a buffer of the size, in slot order. -/
def serialized (m : MemIndex n) (bufSize : ℕ) : List MemIndexEntry :=
  (((List.finRange (2 ^ n)).filter fun i => 0 < m.psl i).take
    ((bufSize - sizeofSerializedHeader) / sizeofMemIndexEntry)).map m.entries

/-- The header that `serialize` writes. -/
def serializedHeader (m : MemIndex n) (bufSize : ℕ) : SerializedMemIndexHeader where
  magic := kMemIndexMagic
  version := 1
  entryCount := UInt64.ofNat (m.serialized bufSize).length
  capacity := UInt64.ofNat (2 ^ n)
  globalSequence := UInt64.ofNat m.globalSequence.toNat
  checksum := Crc32.calculate ((m.serialized bufSize).flatMap MemIndexEntry.bytes)

/-- `serialize` into a buffer that has room for the header. -/
def serialize (m : MemIndex n) (bufSize : ℕ) : List UInt8 :=
  (m.serializedHeader bufSize).bytes ++ (m.serialized bufSize).flatMap MemIndexEntry.bytes

end MemIndex

/-! ### Reading an image back -/

/-- The entries of a list, one after the other, are found at their places. -/
theorem readIndexEntry_write (m : ByteMemory) {pre : List UInt8} {es : List MemIndexEntry}
    {i : ℕ} {e : MemIndexEntry} (h : es[i]? = some e) :
    readIndexEntry (m.write 0 (pre ++ es.flatMap MemIndexEntry.bytes))
      (pre.length + i * sizeofMemIndexEntry) = e := by
  induction es generalizing pre i with
  | nil => cases h
  | cons x es ih =>
      cases i with
      | zero =>
          obtain rfl := Option.some.inj h
          have hread := @ByteMemory.read_write_within m 0 pre.length sizeofMemIndexEntry
            (pre ++ (x :: es).flatMap MemIndexEntry.bytes)
            (by simp [List.flatMap_cons])
          rw [Nat.zero_add] at hread
          rw [readIndexEntry, Nat.zero_mul, Nat.add_zero, hread, List.flatMap_cons,
            List.drop_left, List.take_left' (MemIndexEntry.length_bytes x),
            MemIndexEntry.ofBytes_bytes]
      | succ i =>
          have := @ih (pre ++ x.bytes) i h
          rw [List.append_assoc, List.length_append, MemIndexEntry.length_bytes] at this
          rw [List.flatMap_cons,
            show pre.length + (i + 1) * sizeofMemIndexEntry =
              pre.length + sizeofMemIndexEntry + i * sizeofMemIndexEntry by ring]
          exact this

/-- The header of an image is read back. -/
theorem imageHeader_write (m : ByteMemory) (h : SerializedMemIndexHeader) (post : List UInt8) :
    imageHeader (m.write 0 (h.bytes ++ post)) = h := by
  have hread := @ByteMemory.read_write_within m 0 0 sizeofSerializedHeader (h.bytes ++ post)
    (by simp)
  rw [Nat.zero_add, List.drop_zero] at hread
  rw [imageHeader, hread, List.take_left' (SerializedMemIndexHeader.length_bytes h),
    SerializedMemIndexHeader.ofBytes_bytes]

/-- **The image of a table yields the entries it was made from**, up to the width of the
count. -/
theorem imageEntries_serialize {n : ℕ} (m : MemIndex n) (bufSize : ℕ) (rest : ByteMemory) :
    imageEntries (rest.write 0 (m.serialize bufSize)) =
      (m.serialized bufSize).take ((m.serialized bufSize).length % 2 ^ 64) := by
  have hhead := imageHeader_write rest (m.serializedHeader bufSize)
    ((m.serialized bufSize).flatMap MemIndexEntry.bytes)
  have hlen : (imageHeader (rest.write 0 (m.serialize bufSize))).entryCount.toNat =
      (m.serialized bufSize).length % 2 ^ 64 := by
    rw [MemIndex.serialize, hhead, MemIndex.serializedHeader, UInt64.toNat_ofNat']
  have hle := Nat.mod_le (m.serialized bufSize).length (2 ^ 64)
  rw [imageEntries, hlen]
  refine List.ext_getElem ?_ fun i hi hi' => ?_
  · rw [List.length_map, List.length_range, List.length_take, Nat.min_eq_left hle]
  rw [List.length_map, List.length_range] at hi
  have hi'' : i < (m.serialized bufSize).length := by omega
  rw [List.getElem_map, List.getElem_range, List.getElem_take, imageEntry, MemIndex.serialize,
    ← SerializedMemIndexHeader.length_bytes (m.serializedHeader bufSize)]
  exact readIndexEntry_write rest (List.getElem?_eq_getElem hi'')

end SpdkKv
