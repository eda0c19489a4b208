import SpdkKv.CompactionTask

/-!
# What the Parsers Read

The parser of the recovery and the handler of a chunk walk over bytes that may be anything. The
same walks with every read checked against the end of the buffer never fail: nothing is read
behind it. The records that they accept lie one behind the other on whole pages of the buffer.

## Main results

* `parseAtChecked_eq`, `CompactionTask.chunkBodyChecked_eq`: no turn reads behind the end.
* `recordsFrom_accepted`, `CompactionTask.chunkRecords_accepted`: where the accepted records lie.
* `reads_stay_inside`: **the safety of both walks, for all contents**.
-/

namespace SpdkKv

/-! ### Checked reads -/

/-- A field of a buffer, if the buffer has all its bytes. -/
def checkedField (buf : List UInt8) (offset width : ℕ) : Option ℕ :=
  if offset + width ≤ buf.length then some (fieldAt buf offset width) else none

/-- A slice of a buffer, if the buffer has all its bytes. -/
def checkedSlice (buf : List UInt8) (offset len : ℕ) : Option (List UInt8) :=
  if offset + len ≤ buf.length then some (slice buf offset len) else none

variable {buf : List UInt8} {offset width len : ℕ}

theorem checkedField_eq (h : offset + width ≤ buf.length) :
    checkedField buf offset width = some (fieldAt buf offset width) := if_pos h

theorem checkedSlice_eq (h : offset + len ≤ buf.length) :
    checkedSlice buf offset len = some (slice buf offset len) := if_pos h

theorem of_checkedField {x : ℕ} (h : checkedField buf offset width = some x) :
    fieldAt buf offset width = x := by
  obtain ⟨-, h⟩ := Option.ite_none_right_eq_some.mp h
  exact Option.some.inj h

theorem of_checkedSlice {bs : List UInt8} (h : checkedSlice buf offset len = some bs) :
    slice buf offset len = bs := by
  obtain ⟨-, h⟩ := Option.ite_none_right_eq_some.mp h
  exact Option.some.inj h

/-! ### The walks with checked reads -/

/-- The record at an offset, with checked reads. -/
def recordAtChecked (buf : List UInt8) (offset : ℕ) : Option ParsedRecord := do
  let key ← checkedField buf (offset + sizeofEntryHeader) 8
  let valueLen ← checkedField buf (offset + sizeofEntryHeader + 8) 4
  let flags ← checkedField buf (offset + 6) 1
  let sequence ← checkedField buf (offset + 8) 4
  some
    { offset := offset
      size := entrySize (UInt32.ofNat valueLen).toNat
      key := UInt64.ofNat key
      sequence := UInt32.ofNat sequence
      deleted := UInt8.ofNat flags &&& kFlagDeleted != 0 }

/-- The comparison of the checksum of a record, with checked reads. -/
def checksumChecked (buf : List UInt8) (offset size : ℕ) : Option Bool := do
  let stored ← checkedField buf (offset + size - 4) 4
  let data ← checkedSlice buf offset (size - 4)
  some (UInt32.ofNat stored == Crc32.calculate data)

/-- One turn of the parser, with checked reads. -/
def parseAtChecked (buf : List UInt8) (offset : ℕ) : Option ParseStep :=
  if offset + recordHeaderSize ≤ buf.length then do
    let magic ← checkedField buf offset 4
    if UInt32.ofNat magic ≠ kEntryMagic then
      let nextAligned := alignUp (offset + 1) kPageSize
      some (if nextAligned ≥ buf.length then .stop else .skip nextAligned)
    else
      let valueLen ← checkedField buf (offset + sizeofEntryHeader + 8) 4
      let size := entrySize (UInt32.ofNat valueLen).toNat
      if offset + size > buf.length then some .stop
      else
        let valid ← checksumChecked buf offset size
        if valid = false then some .stop
        else (recordAtChecked buf offset).map .record
  else some .stop

/-- `validate_entry`, with checked reads. -/
def validateEntryChecked (buf : List UInt8) (offset maxSize : ℕ) : Option Bool :=
  if maxSize < sizeofEntryHeader then some false
  else do
    let magic ← checkedField buf offset 4
    if UInt32.ofNat magic ≠ kEntryMagic then some false
    else
      let valueLen ← checkedField buf (offset + sizeofEntryHeader + 8) 4
      let size := entrySize (UInt32.ofNat valueLen).toNat
      if size > maxSize then some false else checksumChecked buf offset size

theorem recordAtChecked_eq (h : offset + recordHeaderSize ≤ buf.length) :
    recordAtChecked buf offset = some (recordAt buf offset) := by
  rw [recordHeaderSize, sizeofEntryHeader] at h
  rw [recordAtChecked, sizeofEntryHeader, checkedField_eq (by omega), checkedField_eq (by omega),
    checkedField_eq (by omega), checkedField_eq (by omega)]
  rfl

theorem checksumChecked_eq {size : ℕ} (hpos : 4 ≤ size) (h : offset + size ≤ buf.length) :
    checksumChecked buf offset size =
      some (readU32 buf (offset + size - 4) == Crc32.calculate (slice buf offset (size - 4))) := by
  rw [checksumChecked, checkedField_eq (by omega), checkedSlice_eq (by omega)]
  rfl

theorem four_le_entrySize (valueLen : ℕ) : 4 ≤ entrySize valueLen := by
  have := entrySize_ge valueLen
  omega

section Turn

variable (hfit : offset + recordHeaderSize ≤ buf.length)

include hfit

/-- A turn at a page without the magic number. -/
theorem parseAtChecked_of_no_magic (hmagic : (readHeader buf offset).magic ≠ kEntryMagic) :
    parseAtChecked buf offset = some (parseAt buf offset) := by
  have hmagic' : UInt32.ofNat (fieldAt buf offset 4) ≠ kEntryMagic := hmagic
  have hfit' := hfit
  rw [recordHeaderSize, sizeofEntryHeader] at hfit'
  rw [parseAtChecked, if_pos hfit, checkedField_eq (by omega)]
  simp only [Option.bind_eq_bind, Option.bind_some, if_pos hmagic', parseAt, if_pos hmagic,
    if_pos hfit]

/-- What a turn at a page with the magic number reads first. -/
theorem parseAtChecked_of_magic (hmagic : ¬ (readHeader buf offset).magic ≠ kEntryMagic) :
    parseAtChecked buf offset =
      if offset + entrySize (readValueLen buf offset).toNat > buf.length then some .stop
      else (checksumChecked buf offset (entrySize (readValueLen buf offset).toNat)).bind
        fun valid => if valid = false then some .stop
          else (recordAtChecked buf offset).map .record := by
  have hmagic' : ¬ UInt32.ofNat (fieldAt buf offset 4) ≠ kEntryMagic := hmagic
  have hfit' := hfit
  rw [recordHeaderSize, sizeofEntryHeader] at hfit'
  rw [parseAtChecked, if_pos hfit, checkedField_eq (by omega)]
  simp only [Option.bind_eq_bind, Option.bind_some, if_neg hmagic']
  rw [checkedField_eq (by rw [sizeofEntryHeader]; omega), Option.bind_some]
  have hlen : UInt32.ofNat (fieldAt buf (offset + sizeofEntryHeader + 8) 4) =
      readValueLen buf offset := rfl
  rw [hlen]

end Turn

/-- **A turn of the parser reads nothing behind the end.** -/
theorem parseAtChecked_eq (buf : List UInt8) (offset : ℕ) :
    parseAtChecked buf offset = some (parseAt buf offset) := by
  by_cases hfit : offset + recordHeaderSize ≤ buf.length
  · by_cases hmagic : (readHeader buf offset).magic ≠ kEntryMagic
    · exact parseAtChecked_of_no_magic hfit hmagic
    · rw [parseAtChecked_of_magic hfit hmagic]
      simp only [parseAt, if_pos hfit, if_neg hmagic]
      split_ifs with hout hcrc
      · rfl
      · rw [checksumChecked_eq (four_le_entrySize _) (not_lt.mp hout), Option.bind_some,
          beq_false_of_ne hcrc, if_pos rfl]
      · rw [checksumChecked_eq (four_le_entrySize _) (not_lt.mp hout), Option.bind_some,
          beq_iff_eq.mpr (not_not.mp hcrc), if_neg Bool.noConfusion, recordAtChecked_eq hfit,
          Option.map_some]
        simp only [recordAt]
  · simp only [parseAtChecked, parseAt, if_neg hfit]

/-- With a whole header to read, the check of an entry reads nothing behind its end. -/
theorem validateEntryChecked_eq {maxSize : ℕ} (hend : offset + maxSize = buf.length)
    (hheader : recordHeaderSize ≤ maxSize) :
    validateEntryChecked buf offset maxSize = some (validateEntry buf offset maxSize) := by
  have hsmall : ¬ maxSize < sizeofEntryHeader := by
    rw [recordHeaderSize] at hheader
    omega
  rw [recordHeaderSize, sizeofEntryHeader] at hheader
  rw [validateEntryChecked, validateEntry, if_neg hsmall, if_neg hsmall,
    checkedField_eq (by omega)]
  simp only [Option.bind_eq_bind, Option.bind_some]
  have hmagic : UInt32.ofNat (fieldAt buf offset 4) = (readHeader buf offset).magic := rfl
  have hlen : UInt32.ofNat (fieldAt buf (offset + sizeofEntryHeader + 8) 4) =
      readValueLen buf offset := rfl
  rw [hmagic, checkedField_eq (by rw [sizeofEntryHeader]; omega), Option.bind_some, hlen]
  split_ifs with h1 h2
  · rfl
  · rfl
  · rw [checksumChecked_eq (four_le_entrySize _) (by omega)]

/-- Whatever a check of an entry returns that does not fail is right. -/
theorem of_validateEntryChecked {maxSize : ℕ} {valid : Bool}
    (h : validateEntryChecked buf offset maxSize = some valid) :
    valid = validateEntry buf offset maxSize := by
  rw [validateEntryChecked] at h
  dsimp only [validateEntry]
  by_cases hsmall : maxSize < sizeofEntryHeader
  · rw [if_pos hsmall] at h ⊢
    exact (Option.some.inj h).symm
  rw [if_neg hsmall] at h ⊢
  simp only [Option.bind_eq_bind, Option.bind_eq_some_iff] at h
  obtain ⟨magic, hread, h⟩ := h
  have hheader : UInt32.ofNat magic = (readHeader buf offset).magic := by
    rw [← of_checkedField hread]
    rfl
  rw [hheader] at h
  by_cases hmagic : (readHeader buf offset).magic ≠ kEntryMagic
  · rw [if_pos hmagic] at h ⊢
    exact (Option.some.inj h).symm
  rw [if_neg hmagic] at h ⊢
  rw [Option.bind_eq_some_iff] at h
  obtain ⟨valueLen, hread, h⟩ := h
  have hlen : UInt32.ofNat valueLen = readValueLen buf offset := by
    rw [← of_checkedField hread]
    rfl
  rw [hlen] at h
  by_cases hsize : entrySize (readValueLen buf offset).toNat > maxSize
  · rw [if_pos hsize] at h ⊢
    exact (Option.some.inj h).symm
  rw [if_neg hsize, checksumChecked] at h
  rw [if_neg hsize]
  simp only [Option.bind_eq_bind, Option.bind_eq_some_iff] at h
  obtain ⟨stored, hstored, data, hdata, h⟩ := h
  rw [← Option.some.inj h, ← of_checkedField hstored, ← of_checkedSlice hdata]
  rfl

/-- `parse_and_rebuild_entries`, with checked reads; it fails with the first read behind the
end. -/
def IndexLoader.parseAndRebuildEntriesChecked {n : ℕ} (self : IndexLoader n) (buf : List UInt8)
    (fileId baseOffset : ℕ) : Option (IndexLoader n × ℕ) :=
  let sink := fun (s : IndexLoader n × ℕ) r =>
    (IndexLoader.applyRecord fileId baseOffset s.1 r, s.2 + 1)
  ((parseLoop buf sink).guarded
    (fun s => (parseAtChecked buf s.1).map fun step =>
      match step with
      | .stop => Sum.inr s.2
      | .skip next => Sum.inl (next, s.2)
      | .record r => Sum.inl (s.1 + r.size, sink s.2 r))
    (by
      rintro ⟨offset, s⟩ x h
      rw [parseAtChecked_eq, Option.map_some] at h
      exact (Option.some.inj h).symm)).run (0, (self, 0))

/-- The parser of the recovery reads nothing behind the end. -/
theorem IndexLoader.parseAndRebuildEntriesChecked_eq {n : ℕ} (self : IndexLoader n)
    (buf : List UInt8) (fileId baseOffset : ℕ) :
    self.parseAndRebuildEntriesChecked buf fileId baseOffset =
      some (self.parseAndRebuildEntries buf fileId baseOffset) := by
  refine Loop.run_guarded _ (fun _ => True) ?_ (fun _ _ _ _ => trivial) trivial
  rintro ⟨offset, s⟩ -
  rw [parseAtChecked_eq, Option.map_some]
  rfl

/-! ### The records that are accepted -/

/-- A record that a walk has accepted: whole pages inside the buffer, with the magic number and
the right checksum. -/
structure Accepted (buf : List UInt8) (r : ParsedRecord) : Prop where
  read : r = recordAt buf r.offset
  aligned : kPageSize ∣ r.offset
  nonempty : 0 < r.size
  inside : r.offset + r.size ≤ buf.length
  magic : (readHeader buf r.offset).magic = kEntryMagic
  checksum : readU32 buf (r.offset + r.size - 4) =
    Crc32.calculate (slice buf r.offset (r.size - 4))

/-- The records are accepted, and each lies behind the one before it. -/
structure AcceptedInTurn (buf : List UInt8) (rs : List ParsedRecord) : Prop where
  accepted : ∀ r ∈ rs, Accepted buf r
  apart : rs.Pairwise fun r r' => r.offset + r.size ≤ r'.offset

theorem dvd_alignUp (x : ℕ) : kPageSize ∣ alignUp x kPageSize := Dvd.intro_left _ rfl

theorem dvd_entrySize (valueLen : ℕ) : kPageSize ∣ entrySize valueLen := dvd_alignUp _

/-- An entry that passes the check is accepted. -/
theorem accepted_of_validateEntry (haligned : kPageSize ∣ offset)
    (h : validateEntry buf offset (buf.length - offset) = true) :
    Accepted buf (recordAt buf offset) := by
  have hsize := size_le_of_validateEntry h
  dsimp only [validateEntry] at h
  split_ifs at h with h1 h2 h3
  have hpos : 0 < (recordAt buf offset).size := entrySize_pos _
  have hinside : (recordAt buf offset).offset + (recordAt buf offset).size ≤ buf.length := by
    have hoffset : (recordAt buf offset).offset = offset := rfl
    omega
  exact ⟨rfl, haligned, hpos, hinside, not_not.mp h2, beq_iff_eq.mp h⟩

/-- A record that is read without a failure is the one that the header announces. -/
theorem of_recordAtChecked {r : ParsedRecord} (h : recordAtChecked buf offset = some r) :
    r = recordAt buf offset := by
  simp only [recordAtChecked, Option.bind_eq_bind, Option.bind_eq_some_iff] at h
  obtain ⟨key, hkey, valueLen, hlen, flags, hflags, sequence, hsequence, h⟩ := h
  rw [← Option.some.inj h, ← of_checkedField hkey, ← of_checkedField hlen,
    ← of_checkedField hflags, ← of_checkedField hsequence]
  rfl

/-- The parser takes the record that the header announces, if it passes the check. -/
theorem of_parseAt_record {r : ParsedRecord} (h : parseAt buf offset = .record r) :
    r = recordAt buf offset ∧ validateEntry buf offset (buf.length - offset) = true := by
  have hfit : offset + recordHeaderSize ≤ buf.length := by
    by_contra hno
    rw [parseAt, if_neg hno] at h
    cases h
  have hr : r = recordAt buf offset := by
    simp only [parseAt] at h
    split_ifs at h
    exact (ParseStep.record.inj h).symm
  exact ⟨hr, (validateEntry_iff hfit).mpr (hr ▸ h)⟩

/-- An accepted record in front of accepted ones. -/
theorem AcceptedInTurn.cons {r : ParsedRecord} {rs : List ParsedRecord} (hr : Accepted buf r)
    (h : AcceptedInTurn buf rs ∧ ∀ r' ∈ rs, r.offset + r.size ≤ r'.offset) :
    AcceptedInTurn buf (r :: rs) ∧ ∀ r' ∈ r :: rs, r.offset ≤ r'.offset := by
  obtain ⟨hturn, hbehind⟩ := h
  refine ⟨⟨List.forall_mem_cons.mpr ⟨hr, hturn.accepted⟩,
    List.pairwise_cons.mpr ⟨hbehind, hturn.apart⟩⟩, fun r' hr' => ?_⟩
  rcases List.mem_cons.mp hr' with rfl | hr'
  · exact le_rfl
  · exact (Nat.le_add_right _ _).trans (hbehind r' hr')

theorem acceptedInTurn_nil : AcceptedInTurn buf [] :=
  ⟨fun _ hr => absurd hr List.not_mem_nil, .nil⟩

/-- **Where the parser's records lie.** -/
theorem recordsFrom_accepted (haligned : kPageSize ∣ offset) :
    AcceptedInTurn buf (recordsFrom buf offset) ∧
      ∀ r ∈ recordsFrom buf offset, offset ≤ r.offset := by
  induction offset using recordsFrom.induct buf with
  | case1 offset h =>
      rw [recordsFrom_of_stop h]
      exact ⟨acceptedInTurn_nil, fun r hr => absurd hr List.not_mem_nil⟩
  | case2 offset next h _ ih =>
      have hnext : next = alignUp (offset + 1) kPageSize := by
        simp only [parseAt] at h
        split_ifs at h
        exact (ParseStep.skip.inj h).symm
      obtain ⟨hturn, hle⟩ := ih (hnext ▸ dvd_alignUp _)
      rw [recordsFrom_of_skip h]
      exact ⟨hturn, fun r hr => (parseAt_skip h).1.le.trans (hle r hr)⟩
  | case3 offset r h _ ih =>
      obtain ⟨rfl, hvalid⟩ := of_parseAt_record h
      rw [recordsFrom_of_record h]
      exact AcceptedInTurn.cons (accepted_of_validateEntry haligned hvalid)
        (ih (dvd_add haligned (dvd_entrySize _)))

namespace CompactionTask

/-- **Where the records of a chunk lie.** -/
theorem chunkRecords_accepted (haligned : kPageSize ∣ offset) :
    AcceptedInTurn buf (chunkRecords buf offset) ∧
      ∀ r ∈ chunkRecords buf offset, offset ≤ r.offset := by
  induction offset using chunkRecords.induct buf with
  | case1 offset hend =>
      rw [chunkRecords, dif_pos hend]
      exact ⟨acceptedInTurn_nil, fun r hr => absurd hr List.not_mem_nil⟩
  | case2 offset hend hvalid _ ih =>
      rw [chunkRecords, dif_neg hend, if_pos hvalid]
      exact AcceptedInTurn.cons (accepted_of_validateEntry haligned hvalid)
        (ih (dvd_add haligned (dvd_entrySize _)))
  | case3 offset hend hvalid hnext ih =>
      obtain ⟨hturn, hle⟩ := ih (dvd_alignUp _)
      rw [chunkRecords, dif_neg hend, if_neg hvalid]
      exact ⟨hturn, fun r hr => (Nat.le_of_succ_le hnext).trans (hle r hr)⟩

/-! ### The chunk with checked reads -/

variable {n : ℕ} (m : MemIndex n)

/-- One turn of the loop of `process_entries`, with checked reads. -/
def chunkBodyChecked (offset : ℕ) (self : CompactionTask) :
    Option ((ℕ × CompactionTask) ⊕ Except CompactionTask CompactionTask) :=
  if self.bytesRead ≤ offset then some (Sum.inr (.ok self))
  else do
    let valid ← validateEntryChecked self.readBuffer offset (self.bytesRead - offset)
    if valid = false then some (Sum.inl (alignUp (offset + 1) kPageSize, self))
    else
      let r ← recordAtChecked self.readBuffer offset
      -- the bytes that may be copied
      let _ ← checkedSlice self.readBuffer offset r.size
      some (match self.processRecord m r with
        | .error self => Sum.inr (.error self)
        | .ok self => Sum.inl (offset + r.size, self))

variable {m} {t : CompactionTask}

/-- Whatever a turn does that does not fail is right. -/
theorem of_chunkBodyChecked {x : (ℕ × CompactionTask) ⊕ Except CompactionTask CompactionTask}
    (h : chunkBodyChecked m offset t = some x) : x = chunkBody m offset t := by
  rw [chunkBodyChecked] at h
  rw [chunkBody]
  by_cases hend : t.bytesRead ≤ offset
  · rw [if_pos hend] at h ⊢
    exact (Option.some.inj h).symm
  rw [if_neg hend] at h ⊢
  simp only [Option.bind_eq_bind, Option.bind_eq_some_iff] at h
  obtain ⟨valid, hvalid, h⟩ := h
  rw [of_validateEntryChecked hvalid] at h
  split_ifs at h ⊢ with hinvalid
  · exact (Option.some.inj h).symm
  · simp only [Option.bind_eq_some_iff] at h
    obtain ⟨r, hr, _, -, h⟩ := h
    rw [of_recordAtChecked hr] at h
    exact (Option.some.inj h).symm

/-- **A turn of the loop reads nothing behind the chunk**, at a page of a chunk of whole
pages. -/
theorem chunkBodyChecked_eq (haligned : kPageSize ∣ offset) (hpages : kPageSize ∣ t.bytesRead) :
    chunkBodyChecked m offset t = some (chunkBody m offset t) := by
  rw [chunkBodyChecked, chunkBody]
  by_cases hend : t.bytesRead ≤ offset
  · rw [if_pos hend, if_pos hend]
  rw [if_neg hend, if_neg hend]
  have hpage : offset + kPageSize ≤ t.bytesRead := by
    obtain ⟨p, rfl⟩ := haligned
    obtain ⟨q, hq⟩ := hpages
    rw [hq] at hend ⊢
    have hpq : p < q := by
      by_contra hle
      exact hend (Nat.mul_le_mul_left _ (not_lt.mp hle))
    calc kPageSize * p + kPageSize = kPageSize * (p + 1) := (Nat.mul_succ _ _).symm
      _ ≤ kPageSize * q := Nat.mul_le_mul_left _ hpq
  have hsmall : recordHeaderSize ≤ kPageSize := by decide
  have hsum : offset + (t.bytesRead - offset) = t.readBuffer.length := by
    rw [bytesRead] at hend ⊢
    omega
  rw [validateEntryChecked_eq hsum (by omega)]
  simp only [Option.bind_eq_bind, Option.bind_some]
  by_cases hvalid : validateEntry t.readBuffer offset (t.bytesRead - offset) = false
  · rw [if_pos hvalid, if_pos hvalid]
  · have hsize := size_le_of_validateEntry (Bool.eq_true_of_not_eq_false hvalid)
    rw [if_neg hvalid, if_neg hvalid, recordAtChecked_eq (by omega), Option.bind_some,
      checkedSlice_eq (by omega)]
    cases processRecord m t (recordAt t.readBuffer offset) <;> rfl

/-- `process_entries`, with checked reads; it fails with the first read behind the chunk. -/
def processEntriesChecked (t : CompactionTask) (m : MemIndex n) : Option CompactionTask :=
  (((chunkLoop m).guarded (fun s => chunkBodyChecked m s.1 s.2)
    (fun _ _ h => of_chunkBodyChecked h)).run (0, t)).map fun result =>
      match result with
      | .error t => t
      | .ok t =>
          { t with currentOffset := t.currentOffset + t.bytesRead, state := .kReadChunk }

/-- The handler of a chunk of whole pages reads nothing behind it. -/
theorem processEntriesChecked_eq (m : MemIndex n) (hpages : kPageSize ∣ t.bytesRead) :
    t.processEntriesChecked m = some (t.processEntries m) := by
  have hrun := @Loop.run_guarded _ _ (chunkLoop m) (fun s => chunkBodyChecked m s.1 s.2)
    (fun _ _ h => of_chunkBodyChecked h)
    (fun s => kPageSize ∣ s.1 ∧ kPageSize ∣ s.2.bytesRead)
    (fun s hs => chunkBodyChecked_eq hs.1 hs.2) ?_ (0, t) ⟨dvd_zero _, hpages⟩
  · rw [processEntriesChecked, hrun, processEntries]
    cases (chunkLoop m).run (0, t) <;> rfl
  · rintro ⟨offset, t⟩ s' ⟨haligned, hpages⟩ hnext
    have hnext : chunkBody m offset t = Sum.inl s' := hnext
    rw [chunkBody] at hnext
    split_ifs at hnext with hend hvalid
    · obtain rfl := Sum.inl.inj hnext
      exact ⟨dvd_alignUp _, hpages⟩
    · dsimp only at hnext
      split at hnext
      · cases hnext
      · next hr =>
          obtain rfl := Sum.inl.inj hnext
          have hread := readBuffer_processRecord hr
          refine ⟨dvd_add haligned (dvd_entrySize _), ?_⟩
          rw [bytesRead, hread]
          exact hpages

end CompactionTask

/-! ### Safety -/

/-- **The safety of both walks**, for every contents of a buffer and of a chunk: they read nothing
behind the end, what they do is that of the records they accept, and these lie in turn on whole
pages of the buffer. -/
theorem reads_stay_inside {n : ℕ} (self : IndexLoader n) (buf : List UInt8)
    (fileId baseOffset : ℕ) (t : CompactionTask) (m : MemIndex n) (srcEnd currentOffset : ℕ)
    (hchunk : t.bytesRead = alignUp (min kChunkSize (srcEnd - currentOffset)) kPageSize) :
    (self.parseAndRebuildEntriesChecked buf fileId baseOffset =
        some (self.parseAndRebuildEntries buf fileId baseOffset) ∧
      self.parseAndRebuildEntries buf fileId baseOffset =
        ((recordsFrom buf 0).foldl (IndexLoader.applyRecord fileId baseOffset) self,
          (recordsFrom buf 0).length) ∧
      AcceptedInTurn buf (recordsFrom buf 0)) ∧
    (t.processEntriesChecked m = some (t.processEntries m) ∧
      (CompactionTask.chunkLoop m).run (0, t) =
        (CompactionTask.chunkRecords t.readBuffer 0).foldlM (CompactionTask.processRecord m) t ∧
      AcceptedInTurn t.readBuffer (CompactionTask.chunkRecords t.readBuffer 0)) :=
  ⟨⟨self.parseAndRebuildEntriesChecked_eq buf fileId baseOffset,
      self.parseAndRebuildEntries_eq buf fileId baseOffset,
      (recordsFrom_accepted (dvd_zero _)).1⟩,
    CompactionTask.processEntriesChecked_eq m (hchunk ▸ dvd_alignUp _),
      CompactionTask.chunkLoop_run m 0 t, (CompactionTask.chunkRecords_accepted (dvd_zero _)).1⟩

/-- A buffer of 100 bytes of garbage, and a chunk of a page of them. -/
theorem reads_stay_inside_garbage :
    IndexLoader.parseAndRebuildEntriesChecked ⟨MemIndex.fresh 3, 0⟩ (List.replicate 100 0x4B) 1 0 =
        some (IndexLoader.parseAndRebuildEntries ⟨MemIndex.fresh 3, 0⟩
          (List.replicate 100 0x4B) 1 0) ∧
      ∃ t : CompactionTask, t.readBuffer = List.replicate 4096 0x4B ∧
        t.processEntriesChecked (MemIndex.fresh 3) = some (t.processEntries (MemIndex.fresh 3)) := by
  have h := reads_stay_inside ⟨MemIndex.fresh 3, 0⟩ (List.replicate 100 0x4B) 1 0
    { CompactionTask.create 1 with readBuffer := List.replicate 4096 0x4B } (MemIndex.fresh 3)
    8192 4096 (by
      rw [CompactionTask.bytesRead, List.length_replicate]
      decide)
  exact ⟨h.1.1, _, rfl, h.2.1⟩

end SpdkKv
