import SpdkKv.IndexMap

/-!
# Parsing Log Records

`IndexLoader::parse_and_rebuild_entries` of `recovery.cpp`: the loop that walks a buffer,
skips pages without the magic number, stops at a record that does not fit or whose checksum
is wrong, and applies every other record to the index. A buffer is the list of its bytes.

The walk itself does not depend on what is done with the records: `recordsFrom` lists them
and `parseAndRebuildEntries_eq` says that the loop folds its effect over this list.

## Main results

* `parseAndRebuildEntries_eq`: the effect of a call is that of the records it meets.
* `recordsFrom_append`: parsing behind a prefix of whole pages.
* `parseAt_buildEntryInplace_append`: **a record that was built is parsed back**.
-/

namespace SpdkKv

/-! ### One position -/

/-- What the parser takes from a valid record. -/
structure ParsedRecord where
  offset : ℕ
  size : ℕ
  key : UInt64
  sequence : UInt32
  deleted : Bool
  deriving DecidableEq, Repr

/-- The record as seen from a buffer that begins `d` bytes earlier. -/
def ParsedRecord.shift (d : ℕ) (r : ParsedRecord) : ParsedRecord :=
  { r with offset := d + r.offset }

/-- What the parser does at a position. -/
inductive ParseStep
  | stop
  | skip (next : ℕ)
  | record (r : ParsedRecord)
  deriving DecidableEq, Repr

/-- One turn of the parsing loop at `offset`. -/
def parseAt (buf : List UInt8) (offset : ℕ) : ParseStep :=
  if offset + recordHeaderSize ≤ buf.length then
    let header := readHeader buf offset
    if header.magic ≠ kEntryMagic then
      -- Invalid magic, try next aligned position
      let nextAligned := alignUp (offset + 1) kPageSize
      if nextAligned ≥ buf.length then .stop else .skip nextAligned
    else
      let size := entrySize (readValueLen buf offset).toNat
      if offset + size > buf.length then .stop
      else if readU32 buf (offset + size - 4) ≠ Crc32.calculate (slice buf offset (size - 4)) then
        -- CRC mismatch: subsequent data is untrusted
        .stop
      else .record ⟨offset, size, readKey buf offset, header.sequence, header.isDeleted⟩
  else .stop

theorem entrySize_pos (valueLen : ℕ) : 0 < entrySize valueLen := by
  have := entrySize_ge valueLen
  omega

/-- A skip makes progress inside the buffer. -/
theorem parseAt_skip {buf : List UInt8} {offset next : ℕ}
    (h : parseAt buf offset = .skip next) : offset < next ∧ next < buf.length := by
  simp only [parseAt] at h
  split_ifs at h with h1 h2 h3 h4
  obtain rfl := ParseStep.skip.inj h
  have := le_alignUp (offset + 1)
  omega

/-- A record starts at the position, is not empty and fits the buffer. -/
theorem parseAt_record {buf : List UInt8} {offset : ℕ} {r : ParsedRecord}
    (h : parseAt buf offset = .record r) :
    r.offset = offset ∧ 0 < r.size ∧ offset + r.size ≤ buf.length := by
  simp only [parseAt] at h
  split_ifs at h with h1 h2 h3 h4 h5
  obtain rfl := ParseStep.record.inj h
  exact ⟨rfl, entrySize_pos _, not_lt.mp h4⟩

/-! ### The loop -/

/-- The parsing loop, with an arbitrary effect for a record. -/
def parseLoop {σ : Type*} (buf : List UInt8) (sink : σ → ParsedRecord → σ) :
    Loop (ℕ × σ) σ where
  body := fun (offset, s) =>
    match parseAt buf offset with
    | .stop => Sum.inr s
    | .skip next => Sum.inl (next, s)
    | .record r => Sum.inl (offset + r.size, sink s r)
  variant := fun (offset, _) => buf.length - offset
  variant_lt := by
    rintro ⟨offset, s⟩ ⟨offset', s'⟩ h
    dsimp only at h
    split at h
    · cases h
    · next next hp =>
        obtain ⟨rfl, -⟩ := Prod.mk.inj (Sum.inl.inj h)
        have := parseAt_skip hp
        dsimp only
        omega
    · next r hp =>
        obtain ⟨rfl, -⟩ := Prod.mk.inj (Sum.inl.inj h)
        have := parseAt_record hp
        dsimp only
        omega

/-- The records that the loop meets from `offset` on. -/
def recordsFrom (buf : List UInt8) (offset : ℕ) : List ParsedRecord :=
  match hp : parseAt buf offset with
  | .stop => []
  | .skip next =>
      have := parseAt_skip hp
      recordsFrom buf next
  | .record r =>
      have := parseAt_record hp
      r :: recordsFrom buf (offset + r.size)
termination_by buf.length - offset

theorem recordsFrom_of_stop {buf : List UInt8} {offset : ℕ}
    (h : parseAt buf offset = .stop) : recordsFrom buf offset = [] := by
  rw [recordsFrom]
  split <;> simp_all

theorem recordsFrom_of_skip {buf : List UInt8} {offset next : ℕ}
    (h : parseAt buf offset = .skip next) :
    recordsFrom buf offset = recordsFrom buf next := by
  rw [recordsFrom]
  split <;> simp_all

theorem recordsFrom_of_record {buf : List UInt8} {offset : ℕ} {r : ParsedRecord}
    (h : parseAt buf offset = .record r) :
    recordsFrom buf offset = r :: recordsFrom buf (offset + r.size) := by
  rw [recordsFrom]
  split <;> simp_all

/-- The loop folds its effect over the records it meets. -/
theorem parseLoop_run {σ : Type*} (buf : List UInt8) (sink : σ → ParsedRecord → σ)
    (offset : ℕ) (s : σ) :
    (parseLoop buf sink).run (offset, s) = (recordsFrom buf offset).foldl sink s := by
  induction offset using recordsFrom.induct buf generalizing s with
  | case1 offset h =>
      rw [recordsFrom_of_stop h]
      exact Loop.run_of_done _ (by simp only [parseLoop, h, List.foldl_nil])
  | case2 offset next h _ ih =>
      rw [recordsFrom_of_skip h, ← ih]
      exact Loop.run_of_again _ (by simp only [parseLoop, h])
  | case3 offset r h _ ih =>
      rw [recordsFrom_of_record h, List.foldl_cons, ← ih]
      exact Loop.run_of_again _ (by simp only [parseLoop, h])

/-! ### Rebuilding the index -/

/-- The part of `IndexLoader` that parsing changes. -/
structure IndexLoader (n : ℕ) where
  memIndex : MemIndex n
  recoveredMaxSequence : UInt32

/-- The index entry for a record of a buffer that begins at `baseOffset` of the file. -/
def rebuiltEntry (fileId baseOffset : ℕ) (r : ParsedRecord) : MemIndexEntry where
  key := r.key
  fileId := BitVec.ofNat 10 fileId
  offsetIndex := BitVec.ofNat 21 ((baseOffset + r.offset) / kPageSize)
  deleted := r.deleted
  sequence := r.sequence
  pageCount := UInt16.ofNat (r.size / kPageSize)
  tag := HashUtil.tag r.key

/-- The call to the index for a record: a tombstone removes, anything else upserts. -/
def recordOp (fileId baseOffset : ℕ) (r : ParsedRecord) : IndexOp :=
  if r.deleted then .remove r.key else .upsert (rebuiltEntry fileId baseOffset r)

namespace IndexLoader

variable {n : ℕ}

/-- The effect of a valid record. -/
def applyRecord (fileId baseOffset : ℕ) (self : IndexLoader n) (r : ParsedRecord) :
    IndexLoader n where
  recoveredMaxSequence :=
    if r.sequence > self.recoveredMaxSequence then r.sequence else self.recoveredMaxSequence
  memIndex :=
    if r.deleted then (self.memIndex.remove r.key).1
    else (self.memIndex.upsert r.key (rebuiltEntry fileId baseOffset r)).1

/-- `parse_and_rebuild_entries`: the loader afterwards and the number of entries
processed. -/
def parseAndRebuildEntries (self : IndexLoader n) (buf : List UInt8)
    (fileId baseOffset : ℕ) : IndexLoader n × ℕ :=
  (parseLoop buf fun s r => (applyRecord fileId baseOffset s.1 r, s.2 + 1)).run (0, (self, 0))

/-- The effect of a call is that of the records it meets, and it counts them. -/
theorem parseAndRebuildEntries_eq (self : IndexLoader n) (buf : List UInt8)
    (fileId baseOffset : ℕ) : self.parseAndRebuildEntries buf fileId baseOffset =
      ((recordsFrom buf 0).foldl (applyRecord fileId baseOffset) self,
        (recordsFrom buf 0).length) := by
  have h : ∀ (l : List ParsedRecord) (s : IndexLoader n) (c : ℕ),
      l.foldl (fun s r => (applyRecord fileId baseOffset s.1 r, s.2 + 1)) (s, c) =
        (l.foldl (applyRecord fileId baseOffset) s, c + l.length) := by
    intro l
    induction l with
    | nil => exact fun _ _ => rfl
    | cons r l ih =>
        intro s c
        rw [List.foldl_cons, List.foldl_cons, ih, List.length_cons]
        congr 1
        omega
  rw [parseAndRebuildEntries, parseLoop_run, h, Nat.zero_add]

end IndexLoader

/-! ### Prefixes of whole pages -/

theorem readU32_append (pre buf : List UInt8) (offset : ℕ) :
    readU32 (pre ++ buf) (pre.length + offset) = readU32 buf offset := by
  rw [readU32, readU32, ← fieldAt_drop, List.drop_left]

theorem readHeader_append (pre buf : List UInt8) (offset : ℕ) :
    readHeader (pre ++ buf) (pre.length + offset) = readHeader buf offset := by
  have h (o w : ℕ) : fieldAt (pre ++ buf) (pre.length + offset + o) w = fieldAt buf (offset + o) w := by
    rw [add_assoc, ← fieldAt_drop, List.drop_left]
  have h0 (w : ℕ) : fieldAt (pre ++ buf) (pre.length + offset) w = fieldAt buf offset w := h 0 w
  simp only [readHeader, readU32, h, h0]

theorem alignUp_add_mul (q x : ℕ) :
    alignUp (q * kPageSize + x) kPageSize = q * kPageSize + alignUp x kPageSize := by
  simp only [alignUp, kPageSize]
  omega

/-- What the parser does, as seen from a buffer that begins `d` bytes earlier. -/
def ParseStep.shift (d : ℕ) : ParseStep → ParseStep
  | .stop => .stop
  | .skip next => .skip (d + next)
  | .record r => .record (r.shift d)

/-- What the parser does at a position does not depend on whole pages in front of it. -/
theorem parseAt_append {pre : List UInt8} {q : ℕ} (hq : pre.length = q * kPageSize)
    (buf : List UInt8) (offset : ℕ) :
    parseAt (pre ++ buf) (pre.length + offset) = (parseAt buf offset).shift pre.length := by
  have halign : alignUp (pre.length + offset + 1) kPageSize =
      pre.length + alignUp (offset + 1) kPageSize := by
    rw [hq, add_assoc, alignUp_add_mul]
  have hlen : readValueLen (pre ++ buf) (pre.length + offset) = readValueLen buf offset := by
    rw [readValueLen, readValueLen, add_assoc, add_assoc, readU32_append, ← add_assoc]
  have hkey : readKey (pre ++ buf) (pre.length + offset) = readKey buf offset := by
    rw [readKey, readKey, readU64, readU64, add_assoc, ← fieldAt_drop, List.drop_left]
  have hslice (len : ℕ) :
      slice (pre ++ buf) (pre.length + offset) len = slice buf offset len := by
    rw [slice, slice, ← List.drop_drop, List.drop_left]
  simp only [parseAt, List.length_append, readHeader_append, hlen, hkey, hslice, halign]
  have hpos := entrySize_ge (readValueLen buf offset).toNat
  have hsum : pre.length + offset + entrySize (readValueLen buf offset).toNat - 4 =
      pre.length + (offset + entrySize (readValueLen buf offset).toNat - 4) := by omega
  rw [hsum, readU32_append]
  have hiff1 : pre.length + offset + recordHeaderSize ≤ pre.length + buf.length ↔
      offset + recordHeaderSize ≤ buf.length := by omega
  have hiff2 : pre.length + alignUp (offset + 1) kPageSize ≥ pre.length + buf.length ↔
      alignUp (offset + 1) kPageSize ≥ buf.length := by omega
  have hiff3 : pre.length + offset + entrySize (readValueLen buf offset).toNat >
      pre.length + buf.length ↔
      offset + entrySize (readValueLen buf offset).toNat > buf.length := by omega
  simp only [hiff1, hiff2, hiff3]
  split_ifs <;> rfl

/-- Parsing behind a prefix of whole pages. -/
theorem recordsFrom_append {pre : List UInt8} {q : ℕ} (hq : pre.length = q * kPageSize)
    (buf : List UInt8) (offset : ℕ) :
    recordsFrom (pre ++ buf) (pre.length + offset) =
      (recordsFrom buf offset).map (ParsedRecord.shift pre.length) := by
  induction offset using recordsFrom.induct buf with
  | case1 offset h =>
      have h' := parseAt_append hq buf offset
      rw [h] at h'
      rw [recordsFrom_of_stop h, recordsFrom_of_stop h', List.map_nil]
  | case2 offset next h _ ih =>
      have h' := parseAt_append hq buf offset
      rw [h] at h'
      rw [recordsFrom_of_skip h, recordsFrom_of_skip h', ih]
  | case3 offset r h _ ih =>
      have h' := parseAt_append hq buf offset
      rw [h] at h'
      rw [recordsFrom_of_record h, recordsFrom_of_record h', List.map_cons, ← ih,
        show (r.shift pre.length).size = r.size from rfl, add_assoc]

/-! ### Prefixes of a buffer -/

theorem fieldAt_take {buf : List UInt8} {len offset width : ℕ} (h : offset + width ≤ len) :
    fieldAt (buf.take len) offset width = fieldAt buf offset width := by
  rw [fieldAt, fieldAt, List.drop_take, List.take_take, Nat.min_eq_left (by omega)]

/-- The fields in front of the value are read from a prefix that holds them. -/
theorem readers_take (buf : List UInt8) {len : ℕ} (h : recordHeaderSize ≤ len) :
    readHeader (buf.take len) 0 = readHeader buf 0 ∧
      readKey (buf.take len) 0 = readKey buf 0 ∧
      readValueLen (buf.take len) 0 = readValueLen buf 0 := by
  rw [recordHeaderSize, sizeofEntryHeader] at h
  refine ⟨?_, ?_, ?_⟩
  · simp only [readHeader, readU32, Nat.zero_add]
    rw [fieldAt_take (by omega), fieldAt_take (by omega), fieldAt_take (by omega),
      fieldAt_take (by omega), fieldAt_take (by omega), fieldAt_take (by omega)]
  · rw [readKey, readKey, readU64, readU64, sizeofEntryHeader, fieldAt_take (by omega)]
  · rw [readValueLen, readValueLen, readU32, readU32, sizeofEntryHeader,
      fieldAt_take (by omega)]

/-- At a page that carries the magic number, a prefix of the buffer shows the same record if
it holds all of it, and stops the parser otherwise. -/
theorem parseAt_take_of_magic (buf : List UInt8) {len : ℕ} (hlen : recordHeaderSize ≤ len)
    (hbuf : recordHeaderSize ≤ buf.length) (hm : (readHeader buf 0).magic = kEntryMagic) :
    parseAt (buf.take len) 0 =
      match parseAt buf 0 with
      | .record r => if r.size ≤ len then .record r else .stop
      | _ => .stop := by
  obtain ⟨hh, hk, hv⟩ := readers_take buf hlen
  have hge := entrySize_ge (readValueLen buf 0).toNat
  have hl : (buf.take len).length = min len buf.length := List.length_take
  simp only [parseAt, hh, hk, hv, hl, hm, ne_eq, not_true_eq_false, if_false, Nat.zero_add]
  generalize entrySize (readValueLen buf 0).toNat = size at *
  rw [if_pos (le_min hlen hbuf), if_pos hbuf]
  by_cases hfit : size > buf.length
  · rw [if_pos (lt_of_le_of_lt (min_le_right _ _) hfit), if_pos hfit]
  rw [if_neg hfit]
  by_cases hcut : size ≤ len
  · have hcrc : readU32 (buf.take len) (size - 4) = readU32 buf (size - 4) := by
      rw [readU32, readU32, fieldAt_take (by omega)]
    have hslice : slice (buf.take len) 0 (size - 4) = slice buf 0 (size - 4) := by
      rw [slice, slice, List.drop_zero, List.drop_zero, List.take_take,
        Nat.min_eq_left (by omega)]
    rw [if_neg (not_lt.mpr (le_min hcut (not_lt.mp hfit))), hcrc, hslice]
    by_cases hc : readU32 buf (size - 4) = Crc32.calculate (slice buf 0 (size - 4))
    · rw [if_neg (not_not.mpr hc)]
      exact (if_pos hcut).symm
    · rw [if_pos hc]
  · rw [if_pos (lt_of_le_of_lt (min_le_left _ _) (not_le.mp hcut))]
    by_cases hc : readU32 buf (size - 4) = Crc32.calculate (slice buf 0 (size - 4))
    · rw [if_neg (not_not.mpr hc)]
      exact (if_neg hcut).symm
    · rw [if_pos hc]

/-! ### Records that were built -/

/-- A field of the front of a buffer. -/
theorem readU32_append_left {pre buf : List UInt8} {offset : ℕ} (h : offset + 4 ≤ pre.length) :
    readU32 (pre ++ buf) offset = readU32 pre offset := by
  rw [readU32, readU32, fieldAt_append_left h]

theorem readHeader_append_left {pre buf : List UInt8} (h : sizeofEntryHeader ≤ pre.length) :
    readHeader (pre ++ buf) 0 = readHeader pre 0 := by
  rw [sizeofEntryHeader] at h
  simp only [readHeader, readU32, Nat.zero_add]
  rw [fieldAt_append_left (by omega), fieldAt_append_left (by omega),
    fieldAt_append_left (by omega), fieldAt_append_left (by omega),
    fieldAt_append_left (by omega), fieldAt_append_left (by omega)]

section Built

variable (key : UInt64) (value : List UInt8) (seq : UInt32) (tomb : Bool)

/-- What the parser takes from a record that was built, at the front of a buffer. -/
def builtRecord (key : UInt64) (value : List UInt8) (seq : UInt32) (tomb : Bool) :
    ParsedRecord :=
  ⟨0, entrySize value.length, key, seq, tomb⟩

theorem recordHeaderSize_le_entrySize (valueLen : ℕ) :
    recordHeaderSize ≤ entrySize valueLen := by
  have := entrySize_ge valueLen
  omega

/-- The fields of a record at the front of a buffer. -/
theorem readers_buildEntryInplace_append (hv : value.length < 2 ^ 32) (rest : List UInt8) :
    readHeader (buildEntryInplace key value seq tomb ++ rest) 0 =
      ⟨kEntryMagic, 1, if tomb then kFlagDeleted else 0, 0, seq, 0⟩ ∧
    readKey (buildEntryInplace key value seq tomb ++ rest) 0 = key ∧
    (readValueLen (buildEntryInplace key value seq tomb ++ rest) 0).toNat = value.length := by
  have hl : recordHeaderSize ≤ (buildEntryInplace key value seq tomb).length := by
    rw [length_buildEntryInplace]
    exact recordHeaderSize_le_entrySize _
  rw [recordHeaderSize, sizeofEntryHeader] at hl
  refine ⟨?_, ?_, ?_⟩
  · rw [readHeader_append_left (by rw [sizeofEntryHeader]; omega),
      readHeader_buildEntryInplace]
  · rw [readKey, readU64, fieldAt_append_left (by rw [sizeofEntryHeader]; omega)]
    exact readKey_buildEntryInplace key value seq tomb
  · rw [readValueLen, readU32_append_left (by rw [sizeofEntryHeader]; omega)]
    exact readValueLen_buildEntryInplace key value seq tomb hv

/-- **A record that was built is parsed back.** -/
theorem parseAt_buildEntryInplace_append (hv : value.length < 2 ^ 32) (rest : List UInt8) :
    parseAt (buildEntryInplace key value seq tomb ++ rest) 0 =
      .record (builtRecord key value seq tomb) := by
  obtain ⟨hh, hk, hvl⟩ := readers_buildEntryInplace_append key value seq tomb hv rest
  have hlen := length_buildEntryInplace key value seq tomb
  have hge := entrySize_ge value.length
  have hcrc : readU32 (buildEntryInplace key value seq tomb ++ rest)
      (0 + entrySize value.length - 4) =
      Crc32.calculate (slice (buildEntryInplace key value seq tomb ++ rest) 0
        (entrySize value.length - 4)) := by
    rw [Nat.zero_add, readU32_append_left (by omega), storedChecksum_buildEntryInplace, slice,
      List.drop_zero, List.take_append_of_le_length (by omega)]
  have hfit : ¬ 0 + entrySize value.length >
      (buildEntryInplace key value seq tomb ++ rest).length := by
    rw [List.length_append, hlen]
    omega
  have hheader : 0 + recordHeaderSize ≤
      (buildEntryInplace key value seq tomb ++ rest).length := by
    rw [List.length_append, hlen]
    omega
  have hflag : EntryHeader.isDeleted
      ⟨kEntryMagic, 1, if tomb then kFlagDeleted else 0, 0, seq, 0⟩ = tomb := by
    cases tomb <;> simp [EntryHeader.isDeleted, kFlagDeleted]
  simp only [parseAt, hh, hk, hvl, hflag]
  rw [if_pos hheader, if_neg (by simp), if_neg hfit, if_neg (not_not.mpr hcrc)]
  rfl

end Built

end SpdkKv
