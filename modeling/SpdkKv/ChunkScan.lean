import Mathlib.Data.List.TakeWhile
import SpdkKv.LogLayout

/-!
# The Chunked Recovery Scan

`scan_blob_chunk` and `on_scan_chunk_read` of `recovery.cpp` read the range of a file in
chunks of 1 MB, parse each chunk on its own, go on behind it, and give up on the file at the
first chunk without a record. A record that does not fit its chunk is left out and its tail
is parsed as the beginning of the next one.

## Main results

* `scanBlob_eq`: the scan folds its effect over `scanRecords`.
* `scan_eq_whole_iff`: **the scan applies the records of the file exactly when** every
  record lies within one chunk, no chunk in front of a record is without one, and a page at
  which the parser gives up is not followed by a chunk that begins with a record.
* `scan_skips_large_record`: a record larger than a chunk is not recovered.
-/

namespace SpdkKv

/-- Bytes read at a time. -/
def kScanChunkSize : ℕ := 1024 * 1024

/-- The pages of a file to be scanned. -/
structure ScanRange where
  fileId : ℕ
  startPage : ℕ
  endPage : ℕ
  deriving DecidableEq, Repr

/-- The bytes of the range. -/
def ScanRange.bytes (range : ScanRange) (blob : List UInt8) : List UInt8 :=
  slice blob (range.startPage * kPageSize) ((range.endPage - range.startPage) * kPageSize)

/-! ### The driver -/

namespace IndexLoader

variable {n : ℕ}

/-- `scan_blob_chunk` and `on_scan_chunk_read` over one file, with reads that succeed; the
state is `current_scan_offset_` and the loader. -/
def scanLoop (blob : List UInt8) (range : ScanRange) :
    Loop (ℕ × IndexLoader n) (IndexLoader n) where
  body := fun (currentScanOffset, self) =>
    let endOffset := range.endPage * kPageSize
    if currentScanOffset ≥ endOffset then
      Sum.inr self
    else
      let readSize := min kScanChunkSize (endOffset - currentScanOffset)
      let (self', entriesFound) := self.parseAndRebuildEntries
        (slice blob currentScanOffset readSize) range.fileId currentScanOffset
      if entriesFound = 0 then Sum.inr self'
      else Sum.inl (currentScanOffset + readSize, self')
  variant := fun (currentScanOffset, _) => range.endPage * kPageSize - currentScanOffset
  variant_lt := by
    rintro ⟨offset, self⟩ ⟨offset', self'⟩ h
    dsimp only at h
    split_ifs at h with h1 h2
    obtain ⟨rfl, -⟩ := Prod.mk.inj (Sum.inl.inj h)
    dsimp only
    have : 0 < kScanChunkSize := by decide
    omega

/-- The scan of one file. -/
def scanBlob (blob : List UInt8) (range : ScanRange) (self : IndexLoader n) : IndexLoader n :=
  (scanLoop blob range).run (range.startPage * kPageSize, self)

end IndexLoader

/-! ### The records the scan applies -/

/-- The records that the scan of a byte string meets. -/
def scanRecords (bytes : List UInt8) : List ParsedRecord :=
  if hb : bytes = [] then []
  else if recordsFrom (bytes.take kScanChunkSize) 0 = [] then []
  else
    have := List.length_pos_of_ne_nil hb
    recordsFrom (bytes.take kScanChunkSize) 0 ++
      (scanRecords (bytes.drop kScanChunkSize)).map (ParsedRecord.shift kScanChunkSize)
termination_by bytes.length
decreasing_by
  rw [List.length_drop, kScanChunkSize]
  omega

@[simp] theorem scanRecords_nil : scanRecords [] = [] := by
  rw [scanRecords, dif_pos rfl]

/-- The scan gives up at a chunk without a record. -/
theorem scanRecords_of_empty {bytes : List UInt8}
    (h : recordsFrom (bytes.take kScanChunkSize) 0 = []) : scanRecords bytes = [] := by
  rw [scanRecords]
  split_ifs with hb
  · rfl
  · rfl

/-- The scan goes on behind a chunk with a record. -/
theorem scanRecords_of_found {bytes : List UInt8}
    (h : recordsFrom (bytes.take kScanChunkSize) 0 ≠ []) :
    scanRecords bytes = recordsFrom (bytes.take kScanChunkSize) 0 ++
      (scanRecords (bytes.drop kScanChunkSize)).map (ParsedRecord.shift kScanChunkSize) := by
  have hb : bytes ≠ [] := by
    rintro rfl
    exact h (by rw [List.take_nil, recordsFrom_nil])
  rw [scanRecords, dif_neg hb, if_neg h]

/-- Bytes that fit one chunk are parsed as a whole. -/
theorem scanRecords_of_short {bytes : List UInt8} (h : bytes.length ≤ kScanChunkSize) :
    scanRecords bytes = recordsFrom bytes 0 := by
  have htake : bytes.take kScanChunkSize = bytes := List.take_of_length_le h
  by_cases hnil : recordsFrom (bytes.take kScanChunkSize) 0 = []
  · rw [scanRecords_of_empty hnil, ← hnil, htake]
  · rw [scanRecords_of_found hnil, htake, List.drop_of_length_le h, scanRecords_nil,
      List.map_nil, List.append_nil]

/-- The entry of a record does not depend on which buffer it was read from. -/
theorem IndexLoader.applyRecord_shift {n : ℕ} (fileId base d : ℕ) (self : IndexLoader n)
    (r : ParsedRecord) : applyRecord fileId base self (r.shift d) =
      applyRecord fileId (base + d) self r := by
  have he : rebuiltEntry fileId base (r.shift d) = rebuiltEntry fileId (base + d) r := by
    rw [rebuiltEntry, rebuiltEntry, ParsedRecord.shift, add_assoc]
  rw [applyRecord, applyRecord, he]
  rfl

theorem drop_slice (buf : List UInt8) (offset len d : ℕ) :
    (slice buf offset len).drop d = slice buf (offset + d) (len - d) := by
  rw [slice, slice, List.drop_take, List.drop_drop]

theorem take_slice (buf : List UInt8) (offset len d : ℕ) :
    (slice buf offset len).take d = slice buf offset (min d len) := by
  rw [slice, slice, List.take_take]

/-- The scan from an offset folds its effect over the records of the bytes from there. -/
theorem IndexLoader.scanLoop_run {n : ℕ} (blob : List UInt8) (range : ScanRange) (offset : ℕ)
    (self : IndexLoader n) :
    (scanLoop blob range).run (offset, self) =
      (scanRecords (slice blob offset (range.endPage * kPageSize - offset))).foldl
        (applyRecord range.fileId offset) self := by
  induction hk : range.endPage * kPageSize - offset using Nat.strong_induction_on
    generalizing offset self with
  | _ k ih =>
      by_cases hend : offset ≥ range.endPage * kPageSize
      · obtain rfl : k = 0 := by omega
        rw [Loop.run_of_done (r := self) _ (by simp only [scanLoop, if_pos hend]), slice,
          List.take_zero, scanRecords_nil]
        rfl
      have hchunk : slice blob offset (min kScanChunkSize k) =
          (slice blob offset k).take kScanChunkSize := (take_slice _ _ _ _).symm
      by_cases hfound : recordsFrom ((slice blob offset k).take kScanChunkSize) 0 = []
      · rw [scanRecords_of_empty hfound, Loop.run_of_done (r := self) _ ?_]
        · rfl
        · simp only [scanLoop, if_neg hend, hk, hchunk, parseAndRebuildEntries_eq, hfound,
            List.length_nil, if_true, List.foldl_nil]
      · have hlen : (recordsFrom ((slice blob offset k).take kScanChunkSize) 0).length ≠ 0 :=
          fun h => hfound (List.length_eq_zero_iff.mp h)
        have hstep : (scanLoop blob range).body (offset, self) =
            Sum.inl (offset + min kScanChunkSize k,
              (recordsFrom ((slice blob offset k).take kScanChunkSize) 0).foldl
                (applyRecord range.fileId offset) self) := by
          simp only [scanLoop, if_neg hend, hk, hchunk, parseAndRebuildEntries_eq, if_neg hlen]
        rw [Loop.run_of_again _ hstep, scanRecords_of_found hfound, List.foldl_append,
          List.foldl_map]
        rcases Nat.le_total kScanChunkSize k with hle | hle
        · have hpos : 0 < kScanChunkSize := by decide
          rw [Nat.min_eq_left hle, ih (k - kScanChunkSize) (by omega) _ _ (by omega),
            drop_slice]
          simp only [applyRecord_shift]
        · rw [Nat.min_eq_right hle, ih 0 (by omega) _ _ (by omega), drop_slice,
            Nat.sub_eq_zero_of_le hle]
          simp only [slice, List.take_zero, scanRecords_nil, List.foldl_nil]

/-- The scan of a file folds its effect over the records it meets. -/
theorem IndexLoader.scanBlob_eq {n : ℕ} (blob : List UInt8) (range : ScanRange)
    (self : IndexLoader n) :
    self.scanBlob blob range = (scanRecords (range.bytes blob)).foldl
      (applyRecord range.fileId (range.startPage * kPageSize)) self := by
  rw [scanBlob, scanLoop_run, ScanRange.bytes, Nat.sub_mul]

/-! ### What every scan does -/

/-- The chunk a record begins in. -/
def ParsedRecord.chunk (r : ParsedRecord) : ℕ := r.offset / kScanChunkSize

/-- The record ends in the chunk it begins in. -/
def ParsedRecord.Within (r : ParsedRecord) : Prop :=
  r.chunk = (r.offset + r.size - 1) / kScanChunkSize

instance (r : ParsedRecord) : Decidable r.Within := inferInstanceAs (Decidable (_ = _))

/-- Records lie inside the buffer, behind the position they were sought from. -/
theorem recordsFrom_bounds {buf : List UInt8} {offset : ℕ} {r : ParsedRecord}
    (h : r ∈ recordsFrom buf offset) :
    offset ≤ r.offset ∧ 0 < r.size ∧ r.offset + r.size ≤ buf.length := by
  induction offset using recordsFrom.induct buf with
  | case1 offset hp =>
      rw [recordsFrom_of_stop hp] at h
      cases h
  | case2 offset next hp hnext ih =>
      rw [recordsFrom_of_skip hp] at h
      obtain ⟨h1, h2⟩ := ih h
      exact ⟨hnext.1.le.trans h1, h2⟩
  | case3 offset s hp hs ih =>
      rw [recordsFrom_of_record hp] at h
      rcases List.mem_cons.mp h with rfl | h
      · exact ⟨hs.1.ge, hs.2.1, by rw [hs.1]; exact hs.2.2⟩
      · obtain ⟨h1, h2⟩ := ih h
        exact ⟨le_trans (Nat.le_add_right _ _) h1, h2⟩

theorem kScanChunkSize_pos : 0 < kScanChunkSize := by decide

/-- A record of the first chunk lies within it. -/
theorem recordsFrom_take_within {bytes : List UInt8} {r : ParsedRecord}
    (h : r ∈ recordsFrom (bytes.take kScanChunkSize) 0) : r.chunk = 0 ∧ r.Within := by
  obtain ⟨-, hpos, hend⟩ := recordsFrom_bounds h
  have hle : r.offset + r.size ≤ kScanChunkSize :=
    hend.trans (by rw [List.length_take]; exact min_le_left _ _)
  have h0 : r.chunk = 0 := Nat.div_eq_of_lt (by omega)
  exact ⟨h0, by rw [ParsedRecord.Within, h0, Nat.div_eq_of_lt (by omega)]⟩

theorem chunk_shift (r : ParsedRecord) :
    (r.shift kScanChunkSize).chunk = r.chunk + 1 := by
  rw [ParsedRecord.chunk, ParsedRecord.chunk, ParsedRecord.shift,
    Nat.add_div_left _ kScanChunkSize_pos]

theorem within_shift {r : ParsedRecord} (hpos : 0 < r.size) :
    (r.shift kScanChunkSize).Within ↔ r.Within := by
  have hend : (r.shift kScanChunkSize).offset + (r.shift kScanChunkSize).size - 1 =
      kScanChunkSize + (r.offset + r.size - 1) := by
    simp only [ParsedRecord.shift]
    omega
  rw [ParsedRecord.Within, ParsedRecord.Within, hend, chunk_shift,
    Nat.add_div_left _ kScanChunkSize_pos, Nat.add_right_cancel_iff]

/-- The two ways into the list of scanned records. -/
theorem mem_scanRecords {bytes : List UInt8} {r : ParsedRecord} :
    r ∈ scanRecords bytes ↔ r ∈ recordsFrom (bytes.take kScanChunkSize) 0 ∨
      recordsFrom (bytes.take kScanChunkSize) 0 ≠ [] ∧
        ∃ s ∈ scanRecords (bytes.drop kScanChunkSize), s.shift kScanChunkSize = r := by
  by_cases h : recordsFrom (bytes.take kScanChunkSize) 0 = []
  · rw [scanRecords_of_empty h, h]
    simp
  · rw [scanRecords_of_found h, List.mem_append, List.mem_map]
    simp [h]

/-- Every scanned record lies within one chunk. -/
theorem within_of_mem_scanRecords {bytes : List UInt8} {r : ParsedRecord}
    (h : r ∈ scanRecords bytes) : 0 < r.size ∧ r.Within := by
  induction bytes using scanRecords.induct generalizing r with
  | case1 => rw [scanRecords_nil] at h; cases h
  | case2 bytes hb hf =>
      rw [scanRecords_of_empty hf] at h
      cases h
  | case3 bytes hb hf _ ih =>
      rcases mem_scanRecords.mp h with h | ⟨-, s, hs, rfl⟩
      · exact ⟨(recordsFrom_bounds h).2.1, (recordsFrom_take_within h).2⟩
      · obtain ⟨hpos, hw⟩ := ih hs
        exact ⟨hpos, (within_shift hpos).mpr hw⟩

/-- Every chunk in front of a scanned record has one of its own. -/
theorem filled_of_mem_scanRecords {bytes : List UInt8} {r : ParsedRecord}
    (h : r ∈ scanRecords bytes) {k : ℕ} (hk : k < r.chunk) :
    ∃ s ∈ scanRecords bytes, s.chunk = k := by
  induction bytes using scanRecords.induct generalizing r k with
  | case1 => rw [scanRecords_nil] at h; cases h
  | case2 bytes hb hf =>
      rw [scanRecords_of_empty hf] at h
      cases h
  | case3 bytes hb hf _ ih =>
      rcases mem_scanRecords.mp h with h | ⟨-, s, hs, rfl⟩
      · rw [(recordsFrom_take_within h).1] at hk
        exact absurd hk (Nat.not_lt_zero k)
      · rw [chunk_shift] at hk
        cases k with
        | zero =>
            obtain ⟨t, ht⟩ := List.exists_mem_of_ne_nil _ hf
            exact ⟨t, mem_scanRecords.mpr (Or.inl ht), (recordsFrom_take_within ht).1⟩
        | succ k =>
            obtain ⟨t, ht, htk⟩ := ih hs (Nat.lt_of_succ_lt_succ hk)
            exact ⟨_, mem_scanRecords.mpr (Or.inr ⟨hf, t, ht, rfl⟩), by rw [chunk_shift, htk]⟩

/-- The chunk with the given number. -/
def chunkAt (bytes : List UInt8) (k : ℕ) : List UInt8 :=
  (bytes.drop (k * kScanChunkSize)).take kScanChunkSize

theorem chunkAt_succ (bytes : List UInt8) (k : ℕ) :
    chunkAt bytes (k + 1) = chunkAt (bytes.drop kScanChunkSize) k := by
  rw [chunkAt, chunkAt, List.drop_drop, Nat.succ_mul, Nat.add_comm]

/-- The chunk behind a scanned record is scanned. -/
theorem next_of_mem_scanRecords {bytes : List UInt8} {r : ParsedRecord}
    (h : r ∈ scanRecords bytes) (hnext : recordsFrom (chunkAt bytes (r.chunk + 1)) 0 ≠ []) :
    ∃ s ∈ scanRecords bytes, s.chunk = r.chunk + 1 := by
  induction bytes using scanRecords.induct generalizing r with
  | case1 => rw [scanRecords_nil] at h; cases h
  | case2 bytes hb hf =>
      rw [scanRecords_of_empty hf] at h
      cases h
  | case3 bytes hb hf _ ih =>
      rw [chunkAt_succ] at hnext
      rcases mem_scanRecords.mp h with h | ⟨-, s, hs, rfl⟩
      · have h0 := (recordsFrom_take_within h).1
        rw [h0, chunkAt, Nat.zero_mul, List.drop_zero] at hnext
        obtain ⟨t, ht⟩ := List.exists_mem_of_ne_nil _ hnext
        refine ⟨t.shift kScanChunkSize, mem_scanRecords.mpr (Or.inr
          ⟨hf, t, mem_scanRecords.mpr (Or.inl ht), rfl⟩), ?_⟩
        rw [chunk_shift, (recordsFrom_take_within ht).1, h0]
      · rw [chunk_shift] at hnext
        obtain ⟨t, ht, htk⟩ := ih hs hnext
        exact ⟨_, mem_scanRecords.mpr (Or.inr ⟨hf, t, ht, rfl⟩), by
          rw [chunk_shift, chunk_shift, htk]⟩

/-! ### When the scan meets the records of a file -/

/-- The first page of the buffer that carries the magic number holds a valid record. -/
def StartsWithRecord (buf : List UInt8) : Prop :=
  ∃ p, (∀ q < p, (readHeader buf (q * kPageSize)).magic ≠ kEntryMagic) ∧
    ∃ r, parseAt buf (p * kPageSize) = .record r

/-- A buffer in which the parser meets a record starts with one. -/
theorem startsWithRecord_of_ne_nil {buf : List UInt8} (h : recordsFrom buf 0 ≠ []) :
    StartsWithRecord buf := by
  have hgen : ∀ offset, recordsFrom buf offset ≠ [] → ∀ p, offset = p * kPageSize →
      (∀ q < p, (readHeader buf (q * kPageSize)).magic ≠ kEntryMagic) →
      StartsWithRecord buf := by
    intro offset
    induction offset using recordsFrom.induct buf with
    | case1 offset hp =>
        rintro h
        exact absurd (recordsFrom_of_stop hp) h
    | case2 offset next hp _ ih =>
        rintro h p rfl hq
        rw [recordsFrom_of_skip hp] at h
        have hstep : (readHeader buf (p * kPageSize)).magic ≠ kEntryMagic ∧
            next = (p + 1) * kPageSize := by
          simp only [parseAt, alignUp_succ_mul] at hp
          split_ifs at hp with h1 h2 h3
          exact ⟨h2, (ParseStep.skip.inj hp).symm⟩
        refine ih h (p + 1) hstep.2 fun q hlt => ?_
        rcases Nat.lt_succ_iff_lt_or_eq.mp hlt with hlt | rfl
        · exact hq q hlt
        · exact hstep.1
    | case3 offset r hp _ ih =>
        rintro h p rfl hq
        exact ⟨p, hq, r, hp⟩
  exact hgen 0 h 0 (Nat.zero_mul _).symm fun q hq => absurd hq (Nat.not_lt_zero q)

/-- The parser meets a record in a buffer that starts with one. -/
theorem StartsWithRecord.ne_nil {buf : List UInt8} (h : StartsWithRecord buf) :
    recordsFrom buf 0 ≠ [] := by
  obtain ⟨p, hmagic, r, hr⟩ := h
  obtain ⟨hoff, hpos, hend⟩ := parseAt_record hr
  have hgen : ∀ d q, q + d = p → recordsFrom buf (q * kPageSize) ≠ [] := by
    intro d
    induction d with
    | zero =>
        rintro q rfl
        rw [Nat.add_zero] at hr
        rw [recordsFrom_of_record hr]
        exact List.cons_ne_nil _ _
    | succ d ih =>
        rintro q hq
        have hle : (q + 1) * kPageSize ≤ p * kPageSize := Nat.mul_le_mul_right _ (by omega)
        have hfit : q * kPageSize + recordHeaderSize ≤ buf.length := by
          rw [Nat.succ_mul] at hle
          have : recordHeaderSize ≤ kPageSize := by decide
          omega
        have hskip : parseAt buf (q * kPageSize) = .skip ((q + 1) * kPageSize) := by
          simp only [parseAt, alignUp_succ_mul]
          rw [if_pos hfit, if_pos (hmagic q (by omega)), if_neg (by omega)]
        rw [recordsFrom_of_skip hskip]
        exact ih (q + 1) (by omega)
  have := hgen p 0 (Nat.zero_add p)
  rwa [Nat.zero_mul] at this

/-- **What a file must look like for the chunked scan.** -/
structure ChunkSafe (log : List LogItem) : Prop where
  /-- Every record lies within one chunk. -/
  within : ∀ r ∈ appended log 0, r.Within
  /-- Every chunk in front of a record has a record of its own. -/
  filled : ∀ r ∈ appended log 0, ∀ k < r.chunk, ∃ s ∈ appended log 0, s.chunk = k
  /-- When the parser gives up in a chunk that has a record, the next chunk does not begin
  with one. -/
  stopped : ∀ b, brokenAt log 0 = some b →
    (∃ r ∈ appended log 0, r.chunk = b / kScanChunkSize) →
    ¬ StartsWithRecord (chunkAt (image log) (b / kScanChunkSize + 1))

theorem kScanChunkSize_eq : kScanChunkSize = 256 * kPageSize := by decide

/-- A record that begins in the first chunk and lies within it ends there. -/
theorem end_le_of_within {r : ParsedRecord} (hpos : 0 < r.size) (h0 : r.chunk = 0)
    (hw : r.Within) : r.offset + r.size ≤ kScanChunkSize := by
  rw [ParsedRecord.Within, h0, eq_comm, Nat.div_eq_zero_iff_lt kScanChunkSize_pos] at hw
  omega

theorem chunk_eq_zero_iff {r : ParsedRecord} : r.chunk = 0 ↔ r.offset < kScanChunkSize := by
  rw [ParsedRecord.chunk, Nat.div_eq_zero_iff_lt kScanChunkSize_pos]

/-- Behind its first chunk a safe file is safe. -/
theorem ChunkSafe.back {front back : List LogItem} (h : WfLog (front ++ back))
    (hs : ChunkSafe (front ++ back)) (hlen : (image front).length = kScanChunkSize)
    (hnone : brokenAt front 0 = none) : ChunkSafe back := by
  obtain ⟨hwf, hwb, happ, hbr⟩ := appended_append h 0 hnone
  rw [Nat.zero_add, hlen] at happ hbr
  rw [appended_eq_map back] at happ
  have hshift : ∀ r ∈ appended back 0, r.shift kScanChunkSize ∈ appended (front ++ back) 0 :=
    fun r hr => happ ▸ List.mem_append_right _ (List.mem_map_of_mem hr)
  -- a record of a later chunk is one of the back
  have hmem : ∀ k, ∀ s ∈ appended (front ++ back) 0, s.chunk = k + 1 →
      ∃ t ∈ appended back 0, t.chunk = k := by
    intro k s hs hk
    rw [happ] at hs
    rcases List.mem_append.mp hs with hs | hs
    · have hb := (appended_bounds hwf hs).2
      have hpos := appended_size_pos hs
      rw [Nat.zero_add, hlen] at hb
      have := chunk_eq_zero_iff.mpr (show s.offset < kScanChunkSize by omega)
      omega
    · obtain ⟨t, ht, rfl⟩ := List.mem_map.mp hs
      rw [chunk_shift] at hk
      exact ⟨t, ht, Nat.succ.inj hk⟩
  refine ⟨fun r hr => ?_, fun r hr k hk => ?_, fun b hb ⟨r, hr, hrb⟩ => ?_⟩
  · exact (within_shift (appended_size_pos hr)).mp (hs.within _ (hshift r hr))
  · obtain ⟨s, hs, hsk⟩ := hs.filled _ (hshift r hr) (k + 1) (by rw [chunk_shift]; omega)
    exact hmem k s hs hsk
  · rw [brokenAt_eq_map back, hb, Option.map_some] at hbr
    have := hs.stopped _ hbr ⟨_, hshift r hr, by
      rw [chunk_shift, hrb, Nat.add_div_left _ kScanChunkSize_pos]⟩
    rwa [Nat.add_div_left _ kScanChunkSize_pos, chunkAt_succ, image_append,
      List.drop_left' hlen] at this

/-- The scan of a safe file meets its records. -/
theorem scanRecords_of_chunkSafe {log : List LogItem} (h : WfLog log) (hs : ChunkSafe log) :
    scanRecords (image log) = appended log 0 := by
  induction hk : (image log).length using Nat.strong_induction_on generalizing log with
  | _ k ih =>
      have hpos : ∀ r ∈ appended log 0, 0 < r.size := fun r hr => appended_size_pos hr
      rcases Nat.lt_or_ge kScanChunkSize (image log).length with hlong | hshort
      · by_cases hbroken : ∃ b, brokenAt log 0 = some b ∧ b < kScanChunkSize
        · -- all records lie in the first chunk, and the second one must hold nothing
          obtain ⟨b, hb, hlt⟩ := hbroken
          have hall : recordsFrom ((image log).take kScanChunkSize) 0 = appended log 0 := by
            rw [kScanChunkSize_eq, recordsFrom_take_image h, List.takeWhile_eq_self_iff]
            intro r hr
            have := appended_end_le_broken hb hr
            rw [kScanChunkSize_eq] at hlt
            exact decide_eq_true (by omega)
          by_cases hnil : appended log 0 = []
          · rw [scanRecords_of_empty (hall.trans hnil), hnil]
          · obtain ⟨r, hr⟩ := List.exists_mem_of_ne_nil _ hnil
            have hend := appended_end_le_broken hb hr
            have hr0 : r.chunk = 0 := chunk_eq_zero_iff.mpr (by have := hpos r hr; omega)
            have hb0 : b / kScanChunkSize = 0 := Nat.div_eq_of_lt hlt
            have hstop := hs.stopped b hb ⟨r, hr, by rw [hr0, hb0]⟩
            have hnext : recordsFrom (((image log).drop kScanChunkSize).take kScanChunkSize) 0
                = [] := by
              by_contra hne
              refine hstop (startsWithRecord_of_ne_nil ?_)
              rwa [hb0, chunkAt_succ, chunkAt, Nat.zero_mul, List.drop_zero]
            rw [scanRecords_of_found (by rwa [hall]), hall, scanRecords_of_empty hnext,
              List.map_nil, List.append_nil]
        · -- the file splits at the end of the first chunk
          obtain ⟨front, back, rfl, hlen, hnone⟩ := exists_split h 256
            (by rw [← kScanChunkSize_eq]; exact hlong.le)
            (fun r hr hlt => by
              rw [← kScanChunkSize_eq] at hlt ⊢
              exact end_le_of_within (hpos r hr) (chunk_eq_zero_iff.mpr hlt) (hs.within r hr))
            (fun b hb => by
              rw [← kScanChunkSize_eq]
              by_contra hlt
              exact hbroken ⟨b, hb, not_le.mp hlt⟩)
          rw [← kScanChunkSize_eq] at hlen
          obtain ⟨hwf, hwb, happ, -⟩ := appended_append h 0 hnone
          rw [Nat.zero_add, hlen, appended_eq_map back] at happ
          have htake : recordsFrom ((image (front ++ back)).take kScanChunkSize) 0 =
              appended front 0 := by
            rw [image_append, List.take_left' hlen, recordsFrom_image hwf]
          by_cases hnil : appended front 0 = []
          · rw [scanRecords_of_empty (htake.trans hnil), happ, hnil, List.nil_append]
            -- a record behind an empty first chunk would need one in it
            by_cases hback : appended back 0 = []
            · rw [hback, List.map_nil]
            · obtain ⟨t, ht⟩ := List.exists_mem_of_ne_nil _ hback
              have hmem : t.shift kScanChunkSize ∈ appended (front ++ back) 0 := by
                rw [happ, hnil, List.nil_append]
                exact List.mem_map_of_mem ht
              obtain ⟨s, hs, hs0⟩ := hs.filled _ hmem 0 (by rw [chunk_shift]; omega)
              rw [happ, hnil, List.nil_append] at hs
              obtain ⟨u, -, rfl⟩ := List.mem_map.mp hs
              rw [chunk_shift] at hs0
              cases hs0
          · have hdrop : (image (front ++ back)).drop kScanChunkSize = image back := by
              rw [image_append, List.drop_left' hlen]
            have hlt : (image back).length < k := by
              rw [← hk, image_append, List.length_append, hlen]
              have := kScanChunkSize_pos
              omega
            rw [scanRecords_of_found (by rwa [htake]), htake, hdrop, happ,
              ih _ hlt hwb (hs.back h hlen hnone) rfl]
      · -- the file is a single chunk
        have htake : recordsFrom ((image log).take kScanChunkSize) 0 = appended log 0 := by
          rw [List.take_of_length_le hshort, recordsFrom_image h]
        by_cases hnil : appended log 0 = []
        · rw [scanRecords_of_empty (htake.trans hnil), hnil]
        · rw [scanRecords_of_found (by rwa [htake]), htake, List.drop_of_length_le hshort,
            scanRecords_nil, List.map_nil, List.append_nil]

/-- A file whose scan meets its records is safe. -/
theorem chunkSafe_of_scanRecords {log : List LogItem}
    (heq : scanRecords (image log) = appended log 0) : ChunkSafe log := by
  refine ⟨fun r hr => ?_, fun r hr k hk => ?_, fun b hb ⟨r, hr, hrb⟩ hstart => ?_⟩
  · exact (within_of_mem_scanRecords (heq ▸ hr)).2
  · rw [← heq] at hr ⊢
    exact filled_of_mem_scanRecords hr hk
  · rw [← heq] at hr
    rw [← hrb] at hstart
    obtain ⟨s, hs, hsk⟩ := next_of_mem_scanRecords hr hstart.ne_nil
    rw [heq] at hs
    have hend := appended_end_le_broken hb hs
    have hle : s.chunk ≤ b / kScanChunkSize := Nat.div_le_div_right (by omega)
    omega

/-- **When the chunked scan recovers a file**: the scan applies the records it meets, one
call of the parser over the whole range applies those of the file, and the two lists are the
same exactly when the file is safe. -/
theorem scan_eq_whole_iff {blob : List UInt8} {range : ScanRange} {log : List LogItem}
    (hlog : WfLog log) (hrange : range.bytes blob = image log) :
    (∀ (n : ℕ) (self : IndexLoader n),
      self.scanBlob blob range = (scanRecords (range.bytes blob)).foldl
        (IndexLoader.applyRecord range.fileId (range.startPage * kPageSize)) self ∧
      (self.parseAndRebuildEntries (range.bytes blob) range.fileId
        (range.startPage * kPageSize)).1 = (recordsFrom (range.bytes blob) 0).foldl
          (IndexLoader.applyRecord range.fileId (range.startPage * kPageSize)) self) ∧
    (scanRecords (range.bytes blob) = recordsFrom (range.bytes blob) 0 ↔ ChunkSafe log) := by
  refine ⟨fun n self => ⟨self.scanBlob_eq blob range, ?_⟩, ?_⟩
  · rw [IndexLoader.parseAndRebuildEntries_eq]
  · rw [hrange, recordsFrom_image hlog]
    exact ⟨chunkSafe_of_scanRecords, scanRecords_of_chunkSafe hlog⟩

/-- The scan of a file with one small record. -/
theorem scan_eq_whole_small :
    scanRecords (image [.record 1 [] 1 false]) =
      recordsFrom (image [.record 1 [] 1 false]) 0 := by
  have hwf : WfLog [.record 1 [] 1 false] := ⟨by decide, trivial⟩
  have hlen : (image [.record 1 [] 1 false]).length = 1 * kPageSize := by
    rw [image_cons, image_nil, List.append_nil, LogItem.bytes, length_buildEntryInplace]
    rfl
  have hrange : (⟨0, 0, 1⟩ : ScanRange).bytes (image [.record 1 [] 1 false]) =
      image [.record 1 [] 1 false] := by
    rw [ScanRange.bytes, slice, Nat.zero_mul, List.drop_zero]
    exact List.take_of_length_le hlen.le
  have happ : appended [.record 1 [] 1 false] 0 = [builtRecord 1 [] 1 false] := rfl
  have h := (scan_eq_whole_iff hwf hrange).2.mpr
    ⟨by rw [happ]; decide, by rw [happ]; decide, fun b hb => by cases hb⟩
  rwa [hrange] at h

/-- **A record larger than a chunk is not recovered**: the parser finds it in the whole
range, the chunked scan finds nothing. -/
theorem scan_skips_large_record :
    recordsFrom (image [.record 1 (List.replicate (2 ^ 20) 0) 1 false]) 0 =
        [builtRecord 1 (List.replicate (2 ^ 20) 0) 1 false] ∧
      scanRecords (image [.record 1 (List.replicate (2 ^ 20) 0) 1 false]) = [] := by
  have hwf : WfLog [.record 1 (List.replicate (2 ^ 20) 0) 1 false] :=
    ⟨by rw [List.length_replicate]; decide, trivial⟩
  have happ : appended [.record 1 (List.replicate (2 ^ 20) 0) 1 false] 0 =
      [builtRecord 1 (List.replicate (2 ^ 20) 0) 1 false] := rfl
  refine ⟨by rw [recordsFrom_image hwf, happ], scanRecords_of_empty ?_⟩
  rw [kScanChunkSize_eq, recordsFrom_take_image hwf, happ, List.takeWhile_cons_of_neg]
  rw [ParsedRecord.endsBy, builtRecord, List.length_replicate]
  decide

end SpdkKv
