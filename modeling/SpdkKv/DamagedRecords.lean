import SpdkKv.ChunkScan

/-!
# Records with a Wrong Checksum

`parse_and_rebuild_entries` of `recovery.cpp` stops at a record whose checksum is wrong:
what was appended behind it is untrusted. It tells `on_scan_chunk_read` only how many records
it has met, and that one gives up on the file when there were none. So a damaged record ends
the scan of its chunk, and the scan of its file only if the chunk had no record or the next
one has none.

## Main results

* `mem_scanRecords_iff`: the records that the scan of a file meets, chunk by chunk.
* `Damaged.end_le`: the parser meets no record of the chunk behind a damaged one.
* `ends_at_damaged_iff`: **the scan ends at a damaged record exactly when** its chunk or the
  next one does not begin with a record.
* `scan_passes_damaged`: a file whose scan goes on behind a damaged record.
-/

namespace SpdkKv

/-! ### The records of a scan, chunk by chunk -/

/-- The parser meets a record in a buffer exactly when it starts with one. -/
theorem startsWithRecord_iff {buf : List UInt8} :
    StartsWithRecord buf ↔ recordsFrom buf 0 ≠ [] :=
  ⟨StartsWithRecord.ne_nil, startsWithRecord_of_ne_nil⟩

theorem chunkAt_zero (bytes : List UInt8) : chunkAt bytes 0 = bytes.take kScanChunkSize := by
  rw [chunkAt, Nat.zero_mul, List.drop_zero]

theorem ParsedRecord.shift_shift (d d' : ℕ) (r : ParsedRecord) :
    (r.shift d).shift d' = r.shift (d' + d) := by
  simp only [ParsedRecord.shift, add_assoc]

/-- The chunk with the given number is read: every chunk in front of it has a record. -/
def Scanned (bytes : List UInt8) (k : ℕ) : Prop :=
  ∀ j < k, StartsWithRecord (chunkAt bytes j)

theorem scanned_zero (bytes : List UInt8) : Scanned bytes 0 :=
  fun j hj => absurd hj (Nat.not_lt_zero j)

theorem scanned_succ {bytes : List UInt8} {k : ℕ} :
    Scanned bytes (k + 1) ↔
      StartsWithRecord (chunkAt bytes 0) ∧ Scanned (bytes.drop kScanChunkSize) k := by
  constructor
  · intro h
    refine ⟨h 0 (Nat.succ_pos k), fun j hj => ?_⟩
    rw [← chunkAt_succ]
    exact h (j + 1) (Nat.succ_lt_succ hj)
  · rintro ⟨h0, h⟩ j hj
    cases j with
    | zero => exact h0
    | succ j =>
        rw [chunkAt_succ]
        exact h j (Nat.lt_of_succ_lt_succ hj)

/-- The records of a scanned chunk are met, and no others. -/
theorem mem_scanRecords_iff {bytes : List UInt8} {r : ParsedRecord} :
    r ∈ scanRecords bytes ↔ ∃ k, Scanned bytes k ∧
      ∃ s ∈ recordsFrom (chunkAt bytes k) 0, s.shift (k * kScanChunkSize) = r := by
  have hzero : ∀ s : ParsedRecord, s.shift (0 * kScanChunkSize) = s := by
    intro s
    simp only [ParsedRecord.shift, Nat.zero_mul, Nat.zero_add]
  constructor
  · intro h
    induction bytes using scanRecords.induct generalizing r with
    | case1 => rw [scanRecords_nil] at h; cases h
    | case2 bytes hb hf =>
        rw [scanRecords_of_empty hf] at h
        cases h
    | case3 bytes hb hf _ ih =>
        rw [← chunkAt_zero] at hf
        rcases mem_scanRecords.mp h with h | ⟨-, s, hs, rfl⟩
        · exact ⟨0, scanned_zero bytes, r, by rwa [chunkAt_zero], hzero r⟩
        · obtain ⟨k, hk, t, ht, rfl⟩ := ih hs
          refine ⟨k + 1, scanned_succ.mpr ⟨startsWithRecord_of_ne_nil hf, hk⟩, t, ?_, ?_⟩
          · rwa [chunkAt_succ]
          · rw [ParsedRecord.shift_shift, Nat.succ_mul, Nat.add_comm]
  · rintro ⟨k, hk, s, hs, rfl⟩
    induction k generalizing bytes with
    | zero =>
        rw [hzero]
        rw [chunkAt_zero] at hs
        exact mem_scanRecords.mpr (Or.inl hs)
    | succ k ih =>
        obtain ⟨h0, hk⟩ := scanned_succ.mp hk
        rw [chunkAt_succ] at hs
        have hmem := ih hk hs
        have hne := h0.ne_nil
        rw [chunkAt_zero] at hne
        refine mem_scanRecords.mpr (Or.inr ⟨hne, _, hmem, ?_⟩)
        rw [ParsedRecord.shift_shift, Nat.succ_mul, Nat.add_comm]

/-! ### Damaged records -/

/-- A record that carries the magic number and lies inside the buffer, with a wrong
checksum. -/
structure WrongChecksum (buf : List UInt8) (p : ℕ) : Prop where
  header : p + recordHeaderSize ≤ buf.length
  magic : (readHeader buf p).magic = kEntryMagic
  inside : p + entrySize (readValueLen buf p).toNat ≤ buf.length
  checksum : readU32 buf (p + entrySize (readValueLen buf p).toNat - 4) ≠
    Crc32.calculate (slice buf p (entrySize (readValueLen buf p).toNat - 4))

/-- The parser stops there. -/
theorem WrongChecksum.parseAt_eq {buf : List UInt8} {p : ℕ} (h : WrongChecksum buf p) :
    parseAt buf p = .stop := by
  simp only [parseAt]
  rw [if_pos h.header, if_neg (not_not.mpr h.magic), if_neg (not_lt.mpr h.inside),
    if_pos h.checksum]

/-- A damaged record of a buffer: it begins a page and is no part of a valid record. -/
structure Damaged (buf : List UInt8) (p : ℕ) : Prop extends WrongChecksum buf p where
  aligned : kPageSize ∣ p
  apart : ∀ r ∈ recordsFrom buf 0, p ≤ r.offset ∨ r.offset + r.size ≤ p

/-- The parser goes from page to page. -/
theorem parseAt_aligned {buf : List UInt8} {offset : ℕ} (h : kPageSize ∣ offset) :
    (∀ next, parseAt buf offset = .skip next → next = offset + kPageSize) ∧
      ∀ r, parseAt buf offset = .record r → kPageSize ∣ r.size := by
  obtain ⟨q, rfl⟩ := h
  rw [Nat.mul_comm]
  refine ⟨fun next hp => ?_, fun r hp => ?_⟩
  · simp only [parseAt, alignUp_succ_mul] at hp
    split_ifs at hp
    rw [← ParseStep.skip.inj hp, Nat.succ_mul]
  · simp only [parseAt] at hp
    split_ifs at hp
    rw [← ParseStep.record.inj hp, entrySize_eq]
    exact Nat.dvd_mul_left _ _

/-- A parser that stops at a page meets no record behind it, if no record it meets lies
across the page. -/
theorem recordsFrom_end_le {buf : List UInt8} {p : ℕ} (hp : kPageSize ∣ p)
    (hstop : parseAt buf p = .stop) {offset : ℕ} (ho : kPageSize ∣ offset) (hle : offset ≤ p)
    (hapart : ∀ r ∈ recordsFrom buf offset, p ≤ r.offset ∨ r.offset + r.size ≤ p) :
    ∀ r ∈ recordsFrom buf offset, r.offset + r.size ≤ p := by
  induction offset using recordsFrom.induct buf with
  | case1 offset h =>
      rw [recordsFrom_of_stop h]
      intro r hr
      cases hr
  | case2 offset next h _ ih =>
      have hlt : offset < p := lt_of_le_of_ne hle fun he => by
        rw [he, hstop] at h
        cases h
      obtain rfl := (parseAt_aligned ho).1 next h
      rw [recordsFrom_of_skip h] at hapart ⊢
      refine ih (Nat.dvd_add ho (Nat.dvd_refl _)) ?_ hapart
      obtain ⟨i, rfl⟩ := ho
      obtain ⟨j, rfl⟩ := hp
      have hij : i < j := Nat.lt_of_mul_lt_mul_left hlt
      calc kPageSize * i + kPageSize = kPageSize * (i + 1) := (Nat.mul_succ _ _).symm
        _ ≤ kPageSize * j := Nat.mul_le_mul_left _ hij
  | case3 offset s h _ ih =>
      have hlt : offset < p := lt_of_le_of_ne hle fun he => by
        rw [he, hstop] at h
        cases h
      have hs := (parseAt_record h).1
      rw [recordsFrom_of_record h] at hapart ⊢
      have hend : offset + s.size ≤ p := by
        rcases hapart s List.mem_cons_self with h1 | h1
        · omega
        · omega
      intro r hr
      rcases List.mem_cons.mp hr with rfl | hr
      · omega
      · exact ih (Nat.dvd_add ho ((parseAt_aligned ho).2 s h)) hend
          (fun t ht => hapart t (List.mem_cons_of_mem _ ht)) r hr

/-- The parser meets no record behind a damaged one. -/
theorem Damaged.end_le {buf : List UInt8} {p : ℕ} (h : Damaged buf p) :
    ∀ r ∈ recordsFrom buf 0, r.offset + r.size ≤ p :=
  recordsFrom_end_le h.aligned h.parseAt_eq (Nat.dvd_zero _) (Nat.zero_le p) h.apart

theorem length_chunkAt_le (bytes : List UInt8) (k : ℕ) :
    (chunkAt bytes k).length ≤ kScanChunkSize := by
  rw [chunkAt, List.length_take]
  exact Nat.min_le_left _ _

/-- **When the scan ends at a damaged record**: the scan applies the records it meets to the
index, and none of them lies behind a damaged record of a chunk it reads exactly when that
chunk or the next one does not begin with a record. -/
theorem ends_at_damaged_iff {blob : List UInt8} {range : ScanRange} {k p : ℕ}
    (hk : Scanned (range.bytes blob) k) (hp : Damaged (chunkAt (range.bytes blob) k) p) :
    (∀ (n : ℕ) (loader : IndexLoader n),
      loader.scanBlob blob range = (scanRecords (range.bytes blob)).foldl
        (IndexLoader.applyRecord range.fileId (range.startPage * kPageSize)) loader) ∧
    ((∀ r ∈ scanRecords (range.bytes blob), r.offset ≤ k * kScanChunkSize + p) ↔
      ¬ StartsWithRecord (chunkAt (range.bytes blob) k) ∨
        ¬ StartsWithRecord (chunkAt (range.bytes blob) (k + 1))) := by
  refine ⟨fun n loader => loader.scanBlob_eq blob range, ?_⟩
  generalize range.bytes blob = bytes at *
  have hlt : p < kScanChunkSize := by
    have h1 := hp.header
    have h2 := length_chunkAt_le bytes k
    have h3 : 0 < recordHeaderSize := by decide
    omega
  constructor
  · intro hall
    by_contra hnot
    rw [not_or, not_not, not_not] at hnot
    obtain ⟨s, hs⟩ := List.exists_mem_of_ne_nil _ hnot.2.ne_nil
    -- the scan goes on with the next chunk
    have hnext : Scanned bytes (k + 1) := by
      intro j hj
      rcases Nat.lt_succ_iff_lt_or_eq.mp hj with hj | rfl
      · exact hk j hj
      · exact hnot.1
    have hle := hall _ (mem_scanRecords_iff.mpr ⟨k + 1, hnext, s, hs, rfl⟩)
    simp only [ParsedRecord.shift, Nat.succ_mul] at hle
    omega
  · rintro hor r hr
    obtain ⟨j, hj, s, hs, rfl⟩ := mem_scanRecords_iff.mp hr
    obtain ⟨-, hpos, hend⟩ := recordsFrom_bounds hs
    have hsize := hend.trans (length_chunkAt_le bytes j)
    simp only [ParsedRecord.shift]
    rcases Nat.lt_trichotomy j k with hlt' | rfl | hgt
    · have : (j + 1) * kScanChunkSize ≤ k * kScanChunkSize := Nat.mul_le_mul_right _ hlt'
      rw [Nat.succ_mul] at this
      omega
    · have := hp.end_le s hs
      omega
    · have hk' := hj k hgt
      have hnext : StartsWithRecord (chunkAt bytes (k + 1)) := by
        rcases Nat.lt_or_ge (k + 1) j with hlt' | hge
        · exact hj (k + 1) hlt'
        · obtain rfl : j = k + 1 := by omega
          exact startsWithRecord_of_ne_nil (List.ne_nil_of_mem hs)
      rcases hor with hor | hor
      · exact absurd hk' hor
      · exact absurd hnext hor

/-! ### A file that the scan passes -/

/-- A tombstone whose stored checksum is one too large. -/
def damagedPage : List UInt8 :=
  entryData 1 [] 1 true ++ leBytes 4 (Crc32.calculate (entryData 1 [] 1 true) + 1).toNat

theorem length_damagedPage : damagedPage.length = kPageSize := by
  rw [damagedPage, List.length_append, length_entryData, length_leBytes]
  rfl

/-- The damaged page in front of anything. -/
theorem wrongChecksum_damagedPage (rest : List UInt8) :
    WrongChecksum (damagedPage ++ rest) 0 := by
  have hl := length_damagedPage
  have hdata : (entryData 1 [] 1 true).length = kPageSize - 4 := length_entryData 1 [] 1 true
  -- the fields in front of the checksum are those of an intact record
  have hpre : (damagedPage ++ rest).take recordHeaderSize =
      (buildEntryInplace 1 [] 1 true ++ rest).take recordHeaderSize := by
    rw [damagedPage, buildEntryInplace, List.append_assoc, List.append_assoc,
      List.take_append_of_le_length (by rw [hdata]; decide),
      List.take_append_of_le_length (by rw [hdata]; decide)]
  obtain ⟨hh, -, hv⟩ := readers_take (damagedPage ++ rest) (Nat.le_refl recordHeaderSize)
  obtain ⟨hh', -, hv'⟩ :=
    readers_take (buildEntryInplace 1 [] 1 true ++ rest) (Nat.le_refl recordHeaderSize)
  obtain ⟨hbh, -, hbv⟩ := readers_buildEntryInplace_append 1 [] 1 true (by decide) rest
  rw [hpre, hh', hbh] at hh
  rw [hpre, hv'] at hv
  have hsize : entrySize (readValueLen (damagedPage ++ rest) 0).toNat = kPageSize := by
    rw [← hv, hbv]
    rfl
  have hle : kPageSize ≤ (damagedPage ++ rest).length := by
    rw [List.length_append, hl]
    exact Nat.le_add_right _ _
  refine ⟨?_, ?_, ?_, ?_⟩
  · rw [Nat.zero_add]
    exact le_trans (by decide) hle
  · rw [← hh]
  · rw [hsize, Nat.zero_add]
    exact hle
  · have hslice : slice (damagedPage ++ rest) 0 (kPageSize - 4) = entryData 1 [] 1 true := by
      rw [slice, List.drop_zero, damagedPage, List.append_assoc, ← hdata, List.take_left]
    have hread : readU32 (damagedPage ++ rest) (kPageSize - 4) =
        Crc32.calculate (entryData 1 [] 1 true) + 1 := by
      have hlt : (Crc32.calculate (entryData 1 [] 1 true) + 1).toNat < 256 ^ 4 :=
        (Crc32.calculate (entryData 1 [] 1 true) + 1).toNat_lt
      rw [readU32, damagedPage, List.append_assoc, fieldAt_append hdata (length_leBytes 4 _),
        leNat_leBytes_of_lt hlt, UInt32.ofNat_toNat]
    rw [hsize, Nat.zero_add, hslice, hread]
    generalize Crc32.calculate (entryData 1 [] 1 true) = c
    intro h
    have h1 : c + 1 - c = 0 := by rw [h, UInt32.sub_self]
    rw [UInt32.add_comm, UInt32.add_sub_cancel] at h1
    cases h1

/-- A damaged record behind other bytes. -/
theorem WrongChecksum.behind {buf : List UInt8} {p : ℕ} (h : WrongChecksum buf p)
    (pre : List UInt8) : WrongChecksum (pre ++ buf) (pre.length + p) := by
  have hlen : readValueLen (pre ++ buf) (pre.length + p) = readValueLen buf p := by
    rw [readValueLen, readValueLen, add_assoc, add_assoc, readU32_append, ← add_assoc]
  obtain ⟨hheader, hmagic, hinside, hchecksum⟩ := h
  refine ⟨?_, ?_, ?_, ?_⟩
  · rw [List.length_append]
    omega
  · rwa [readHeader_append]
  · rw [hlen, List.length_append]
    omega
  · have hge := entrySize_ge (readValueLen buf p).toNat
    rw [hlen, slice, ← List.drop_drop, List.drop_left, ← slice,
      Nat.add_assoc, Nat.add_sub_assoc (by omega), readU32_append]
    exact hchecksum

/-- The damaged page behind a record. -/
theorem damaged_behind_record (rest : List UInt8) :
    Damaged (buildEntryInplace 1 [] 1 false ++ (damagedPage ++ rest)) kPageSize := by
  have hl : (buildEntryInplace 1 [] 1 false).length = kPageSize :=
    length_buildEntryInplace 1 [] 1 false
  have hwrong := (wrongChecksum_damagedPage rest).behind (buildEntryInplace 1 [] 1 false)
  rw [hl, Nat.add_zero] at hwrong
  refine ⟨hwrong, Nat.dvd_refl _, fun r hr => ?_⟩
  rw [recordsFrom_record_append 1 1 false (by decide),
    recordsFrom_of_stop (wrongChecksum_damagedPage _).parseAt_eq, List.map_nil] at hr
  obtain rfl := List.mem_singleton.mp hr
  exact Or.inr (by decide)

/-- A chunk with a record in front of a damaged one, and a record behind it. -/
def passedFile : List UInt8 :=
  buildEntryInplace 1 [] 1 false ++ (damagedPage ++ List.replicate (254 * kPageSize) 0) ++
    buildEntryInplace 2 [] 2 false

/-- Its first chunk holds the damaged record, its second chunk the record behind. -/
theorem chunkAt_passedFile :
    chunkAt passedFile 0 =
        buildEntryInplace 1 [] 1 false ++ (damagedPage ++ List.replicate (254 * kPageSize) 0) ∧
      chunkAt passedFile 1 = buildEntryInplace 2 [] 2 false := by
  have hsize : entrySize ([] : List UInt8).length = 1 * kPageSize := by decide
  have hfront : (buildEntryInplace 1 [] 1 false ++
      (damagedPage ++ List.replicate (254 * kPageSize) 0)).length = kScanChunkSize := by
    rw [List.length_append, List.length_append, length_buildEntryInplace, length_damagedPage,
      List.length_replicate, kScanChunkSize_eq, hsize]
    omega
  refine ⟨?_, ?_⟩
  · rw [chunkAt_zero, passedFile, List.take_left' hfront]
  · rw [chunkAt_succ, chunkAt_zero, passedFile, List.drop_left' hfront]
    refine List.take_of_length_le ?_
    rw [length_buildEntryInplace, hsize, kScanChunkSize_eq]
    omega

theorem startsWithRecord_passedFile :
    StartsWithRecord (chunkAt passedFile 0) ∧ StartsWithRecord (chunkAt passedFile 1) := by
  refine ⟨startsWithRecord_of_ne_nil ?_, startsWithRecord_of_ne_nil ?_⟩
  · rw [chunkAt_passedFile.1, recordsFrom_record_append 1 1 false (by decide)]
    exact List.cons_ne_nil _ _
  · have hv : ([] : List UInt8).length < 2 ^ 32 := by decide
    have h := recordsFrom_record_append 2 2 false hv []
    rw [List.append_nil] at h
    rw [chunkAt_passedFile.2, h]
    exact List.cons_ne_nil _ _

/-- **The scan goes on behind a damaged record**: a record of the next chunk is applied. -/
theorem scan_passes_damaged :
    Scanned passedFile 0 ∧ Damaged (chunkAt passedFile 0) kPageSize ∧
      ∃ r ∈ scanRecords passedFile, kPageSize < r.offset := by
  have hscan : Scanned passedFile 1 :=
    scanned_succ.mpr ⟨startsWithRecord_passedFile.1, scanned_zero _⟩
  obtain ⟨s, hs⟩ := List.exists_mem_of_ne_nil _ startsWithRecord_passedFile.2.ne_nil
  refine ⟨scanned_zero _, ?_, s.shift (1 * kScanChunkSize),
    mem_scanRecords_iff.mpr ⟨1, hscan, s, hs, rfl⟩, ?_⟩
  · rw [chunkAt_passedFile.1]
    exact damaged_behind_record _
  · have : kPageSize < kScanChunkSize := by decide
    simp only [ParsedRecord.shift]
    omega

/-- The scan of a file whose last record is damaged ends there. -/
theorem ends_at_damaged_last :
    ((scanRecords (buildEntryInplace 1 [] 1 false ++ damagedPage)).all fun r =>
      r.offset ≤ 0 * kScanChunkSize + kPageSize) = true := by
  have hlen : (buildEntryInplace 1 [] 1 false ++ damagedPage).length = 2 * kPageSize := by
    rw [List.length_append, length_buildEntryInplace, length_damagedPage]
    rfl
  have hrange : (⟨0, 0, 2⟩ : ScanRange).bytes (buildEntryInplace 1 [] 1 false ++ damagedPage) =
      buildEntryInplace 1 [] 1 false ++ damagedPage := by
    rw [ScanRange.bytes, slice, Nat.zero_mul, List.drop_zero]
    exact List.take_of_length_le hlen.le
  have hshort : 2 * kPageSize ≤ kScanChunkSize := by decide
  have hdamaged := damaged_behind_record []
  rw [List.append_nil] at hdamaged
  have hfirst : chunkAt (buildEntryInplace 1 [] 1 false ++ damagedPage) 0 =
      buildEntryInplace 1 [] 1 false ++ damagedPage := by
    rw [chunkAt_zero, List.take_of_length_le (hlen.le.trans hshort)]
  have hnext : chunkAt (buildEntryInplace 1 [] 1 false ++ damagedPage) 1 = [] := by
    rw [chunkAt_succ, chunkAt_zero, List.drop_of_length_le (hlen.le.trans hshort), List.take_nil]
  have hd : Damaged (chunkAt ((⟨0, 0, 2⟩ : ScanRange).bytes
      (buildEntryInplace 1 [] 1 false ++ damagedPage)) 0) kPageSize := by
    rwa [hrange, hfirst]
  have h := ends_at_damaged_iff (scanned_zero _) hd
  rw [hrange] at h
  rw [List.all_eq_true]
  intro r hr
  refine decide_eq_true (h.2.mpr (Or.inr ?_) r hr)
  rw [hnext, startsWithRecord_iff, recordsFrom_nil]
  exact fun hne => hne rfl

end SpdkKv
