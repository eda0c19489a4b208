import SpdkKv.ParserSafety
import SpdkKv.Replay

/-!
# Encoding and Decoding a Log

Records are written by `build_entry_inplace`, or by `build_entry_inplace_rdma` around a value
that is in the slot already. A log of them, with zeroed pages behind it, is what the parser of
the recovery makes index entries of. The page position of an entry is a field of 21 bits.

## Main results

* `buildEntryInplaceRdma_eq`: both encoders write the same bytes.
* `recordsFrom_log`: the parser meets the records of a log at their pages.
* `IndexLoader.decode_log`: **what the parser makes of a log**, and that a compaction accepts it.
* `IndexLoader.page_position_wraps`: a page position of `2 ^ 21` becomes 0.
-/

namespace SpdkKv

/-! ### The encoder for a value in place -/

/-- `Engine::build_entry_inplace_rdma`: the bytes of the record in its slot; those of the value
are in the slot before. -/
def buildEntryInplaceRdma (slot : List UInt8) (key : UInt64) (len : ℕ) (seq : UInt32)
    (isTombstone : Bool) : List UInt8 :=
  let header : EntryHeader :=
    ⟨kEntryMagic, 1, if isTombstone then kFlagDeleted else 0, 0, seq, 0⟩
  let used := recordHeaderSize + len
  let aligned := alignUp (used + 4) kPageSize
  let data := header.bytes ++ leBytes 8 key.toNat ++ leBytes 4 len ++
    slice slot recordHeaderSize len ++ List.replicate (aligned - used - 4) 0
  data ++ leBytes 4 (Crc32.calculate data).toNat

/-- **Both encoders write the same bytes**, when the value is in place. -/
theorem buildEntryInplaceRdma_eq {slot value : List UInt8} (key : UInt64) (seq : UInt32)
    (isTombstone : Bool) (h : slice slot recordHeaderSize value.length = value) :
    buildEntryInplaceRdma slot key value.length seq isTombstone =
      buildEntryInplace key value seq isTombstone := by
  rw [buildEntryInplaceRdma, h]
  rfl

/-! ### Records and their places -/

namespace LogRecord

/-- The bytes that one of the encoders writes for a record. -/
inductive Encodes (r : LogRecord) : List UInt8 → Prop
  | copied : Encodes r (buildEntryInplace r.key r.value r.seq r.tomb)
  | inPlace (slot : List UInt8) (h : slice slot recordHeaderSize r.value.length = r.value) :
      Encodes r (buildEntryInplaceRdma slot r.key r.value.length r.seq r.tomb)

/-- The pages of a record. -/
def pages (r : LogRecord) : ℕ := pagesFor (recordHeaderSize + r.value.length + 4)

theorem entrySize_eq_pages (r : LogRecord) : entrySize r.value.length = r.pages * kPageSize := rfl

/-- There is one encoding. -/
theorem Encodes.eq {r : LogRecord} {bytes : List UInt8} (h : r.Encodes bytes) :
    bytes = r.item.bytes := by
  cases h with
  | copied => rfl
  | inPlace slot h => exact buildEntryInplaceRdma_eq r.key r.seq r.tomb h

/-- The records of a log with their pages, when the first one begins at a page. -/
def atPages : List LogRecord → ℕ → List (LogRecord × ℕ)
  | [], _ => []
  | r :: rs, page => (r, page) :: atPages rs (page + r.pages)

theorem map_fst_atPages (records : List LogRecord) (page : ℕ) :
    (atPages records page).map Prod.fst = records := by
  induction records generalizing page with
  | nil => rfl
  | cons r records ih => rw [atPages, List.map_cons, ih]

/-- What the parser takes from a record at a page. -/
def parsed (r : LogRecord) (page : ℕ) : ParsedRecord where
  offset := page * kPageSize
  size := entrySize r.value.length
  key := r.key
  sequence := r.seq
  deleted := r.tomb

/-- The index entry for a record at a page of a file, with its page position in 21 bits. -/
def rebuilt (fileId : ℕ) (r : LogRecord) (page : ℕ) : MemIndexEntry where
  key := r.key
  fileId := BitVec.ofNat 10 fileId
  offsetIndex := BitVec.ofNat 21 page
  deleted := false
  sequence := r.seq
  pageCount := UInt16.ofNat r.pages
  tag := HashUtil.tag r.key

/-- The call to the index for a record at a page of a file: a tombstone removes its key. -/
def indexOp (fileId : ℕ) (r : LogRecord) (page : ℕ) : IndexOp :=
  if r.tomb then .remove r.key else .upsert (r.rebuilt fileId page)

end LogRecord

/-- The bytes of a log, with zeroed pages behind it. -/
def logBytes (encoded : List (List UInt8)) (zeroPages : ℕ) : List UInt8 :=
  encoded.flatten ++ List.replicate (zeroPages * kPageSize) 0

/-! ### What the parser meets -/

/-- A zeroed page. -/
def zeroPage : List UInt8 := List.replicate kPageSize 0

/-- The pieces of a log. -/
def logItems (records : List LogRecord) (zeroPages : ℕ) : List LogItem :=
  records.map LogRecord.item ++ List.replicate zeroPages (.blank zeroPage)

theorem magic_zeroPage : (readHeader zeroPage 0).magic ≠ kEntryMagic := by
  have hzero : fieldAt zeroPage 0 4 = 0 := fieldAt_eq_zero fun i _ => by
    rw [zeroPage, List.getD_eq_getElem?_getD, List.getElem?_getD_replicate_default_eq]
  have hmagic : (readHeader zeroPage 0).magic = UInt32.ofNat (fieldAt zeroPage 0 4) := rfl
  rw [hmagic, hzero]
  decide

theorem wfLog_zeroPages (zeroPages : ℕ) :
    WfLog (List.replicate zeroPages (.blank zeroPage)) := by
  induction zeroPages with
  | zero => trivial
  | succ k ih => exact ⟨List.length_replicate, magic_zeroPage, ih⟩

variable {records : List LogRecord} {encoded : List (List UInt8)}

theorem wfLog_logItems (hsmall : ∀ r ∈ records, r.value.length < 2 ^ 32) (zeroPages : ℕ) :
    WfLog (logItems records zeroPages) := by
  induction records with
  | nil => exact wfLog_zeroPages zeroPages
  | cons r records ih =>
      exact ⟨hsmall r List.mem_cons_self, ih fun r' hr' => hsmall r' (List.mem_cons_of_mem _ hr')⟩

/-- The bytes of a log are those of its pieces. -/
theorem logBytes_eq_image (h : List.Forall₂ LogRecord.Encodes records encoded) (zeroPages : ℕ) :
    logBytes encoded zeroPages = image (logItems records zeroPages) := by
  have hzero : ∀ k : ℕ, image (List.replicate k (.blank zeroPage)) =
      List.replicate (k * kPageSize) 0 := by
    intro k
    induction k with
    | zero => rw [Nat.zero_mul, List.replicate_zero, List.replicate_zero, image_nil]
    | succ k ih =>
        rw [List.replicate_succ, image_cons, ih, Nat.succ_mul, Nat.add_comm, List.replicate_add]
        rfl
  rw [logBytes, logItems, image_append, hzero]
  congr 1
  induction h with
  | nil => rfl
  | cons hr _ ih => rw [List.flatten_cons, ih, List.map_cons, image_cons, hr.eq]

/-- The records of the pieces, with their places. -/
theorem appended_logItems (records : List LogRecord) (zeroPages page : ℕ) :
    appended (logItems records zeroPages) (page * kPageSize) =
      (LogRecord.atPages records page).map fun p => p.1.parsed p.2 := by
  induction records generalizing page with
  | nil =>
      have hblank : ∀ k offset, appended (List.replicate k (.blank zeroPage)) offset = [] := by
        intro k
        induction k with
        | zero => exact fun _ => rfl
        | succ k ih => exact fun offset => ih (offset + kPageSize)
      exact hblank _ _
  | cons r records ih =>
      have hnext : page * kPageSize + entrySize r.value.length =
          (page + r.pages) * kPageSize := by
        rw [r.entrySize_eq_pages, Nat.add_mul]
      show LogRecord.parsed r page :: appended (logItems records zeroPages)
        (page * kPageSize + entrySize r.value.length) = _
      rw [hnext, ih, LogRecord.atPages, List.map_cons]

/-- **The parser meets the records of a log at their pages.** -/
theorem recordsFrom_log (h : List.Forall₂ LogRecord.Encodes records encoded)
    (hsmall : ∀ r ∈ records, r.value.length < 2 ^ 32) (zeroPages : ℕ) :
    recordsFrom (logBytes encoded zeroPages) 0 =
      (LogRecord.atPages records 0).map fun p => p.1.parsed p.2 := by
  have happ := appended_logItems records zeroPages 0
  rw [Nat.zero_mul] at happ
  rw [logBytes_eq_image h, recordsFrom_image (wfLog_logItems hsmall zeroPages), happ]

/-- What the parser meets is at its place. -/
theorem parseAt_of_mem_recordsFrom {buf : List UInt8} {offset : ℕ} {r : ParsedRecord}
    (h : r ∈ recordsFrom buf offset) : parseAt buf r.offset = .record r := by
  induction offset using recordsFrom.induct buf with
  | case1 offset hp =>
      rw [recordsFrom_of_stop hp] at h
      exact absurd h List.not_mem_nil
  | case2 offset next hp _ ih =>
      rw [recordsFrom_of_skip hp] at h
      exact ih h
  | case3 offset r' hp _ ih =>
      rw [recordsFrom_of_record hp] at h
      rcases List.mem_cons.mp h with rfl | h
      · rwa [(parseAt_record hp).1]
      · exact ih h

/-! ### What becomes of the index -/

namespace IndexLoader

variable {n : ℕ}

/-- The effect of a record at a page. -/
theorem applyRecord_parsed (fileId basePage : ℕ) (self : IndexLoader n) (r : LogRecord)
    (page : ℕ) : applyRecord fileId (basePage * kPageSize) self (r.parsed page) =
      ⟨self.memIndex.applyOp (r.indexOp fileId (basePage + page)),
        max self.recoveredMaxSequence r.seq⟩ := by
  have hpos : 0 < kPageSize := by decide
  have hposition : (basePage * kPageSize + page * kPageSize) / kPageSize = basePage + page := by
    rw [← Nat.add_mul, Nat.mul_div_cancel _ hpos]
  have hpages : entrySize r.value.length / kPageSize = r.pages := by
    rw [r.entrySize_eq_pages, Nat.mul_div_cancel _ hpos]
  have hmax : (if r.seq > self.recoveredMaxSequence then r.seq
      else self.recoveredMaxSequence) = max self.recoveredMaxSequence r.seq := by
    show _ = if self.recoveredMaxSequence ≤ r.seq then _ else _
    split_ifs with hlt hle hle
    · rfl
    · exact absurd (UInt32.le_of_lt hlt) hle
    · exact UInt32.le_antisymm hle (UInt32.not_lt.mp hlt)
    · rfl
  have hindex : (if r.tomb = true then (self.memIndex.remove r.key).1
      else (self.memIndex.upsert r.key
        (rebuiltEntry fileId (basePage * kPageSize) (r.parsed page))).1) =
      self.memIndex.applyOp (r.indexOp fileId (basePage + page)) := by
    rw [LogRecord.indexOp]
    by_cases htomb : r.tomb = true
    · rw [if_pos htomb, if_pos htomb]
      rfl
    · rw [if_neg htomb, if_neg htomb]
      simp only [MemIndex.applyOp, LogRecord.rebuilt, rebuiltEntry, LogRecord.parsed, hposition,
        hpages, Bool.eq_false_iff.mpr htomb]
  rw [← hindex, ← hmax]
  rfl

/-- The effect of records at their pages. -/
theorem foldl_applyRecord_parsed (fileId basePage : ℕ) (places : List (LogRecord × ℕ))
    (self : IndexLoader n) :
    (places.map fun p => p.1.parsed p.2).foldl (applyRecord fileId (basePage * kPageSize)) self =
      ⟨(places.map fun p => p.1.indexOp fileId (basePage + p.2)).foldl MemIndex.applyOp
          self.memIndex,
        (places.map fun p => p.1.seq).foldl max self.recoveredMaxSequence⟩ := by
  induction places generalizing self with
  | nil => rfl
  | cons p places ih =>
      simp only [List.map_cons, List.foldl_cons]
      rw [ih, applyRecord_parsed]

variable {records : List LogRecord} {encoded : List (List UInt8)}

/-- **Decoding a log**: of the records that either encoder wrote back to back, with zeroed pages
behind them, the parser applies each one at its page and counts them, with the largest sequence
kept; a compaction accepts each one at its place, wherever it fits. -/
theorem decode_log (self : IndexLoader n) (fileId basePage zeroPages : ℕ)
    (h : List.Forall₂ LogRecord.Encodes records encoded)
    (hpages : ∀ r ∈ records, r.pages < 2 ^ 16) :
    (∀ r ∈ records, ∀ bytes bytes', r.Encodes bytes → r.Encodes bytes' → bytes = bytes') ∧
      (∀ r ∈ records, (UInt16.ofNat r.pages).toNat = r.pages) ∧
      self.parseAndRebuildEntries (logBytes encoded zeroPages) fileId (basePage * kPageSize) =
        (⟨((LogRecord.atPages records 0).map fun p =>
              p.1.indexOp fileId (basePage + p.2)).foldl MemIndex.applyOp self.memIndex,
            (records.map LogRecord.seq).foldl max self.recoveredMaxSequence⟩,
          records.length) ∧
      ∀ p ∈ LogRecord.atPages records 0, ∀ room, entrySize p.1.value.length ≤ room →
        validateEntry (logBytes encoded zeroPages) (p.2 * kPageSize) room = true := by
  have hsmall : ∀ r ∈ records, r.value.length < 2 ^ 32 := by
    intro r hr
    have hlt := hpages r hr
    have hle := entrySize_ge r.value.length
    rw [r.entrySize_eq_pages, kPageSize] at hle
    omega
  have hmeets := recordsFrom_log h hsmall zeroPages
  refine ⟨fun r _ bytes bytes' hb hb' => hb.eq.trans hb'.eq.symm, fun r hr => ?_, ?_, ?_⟩
  · rw [UInt16.toNat_ofNat', Nat.mod_eq_of_lt (hpages r hr)]
  · have hseq : (LogRecord.atPages records 0).map (fun p => p.1.seq) =
        records.map LogRecord.seq := by
      have hfst := congrArg (List.map LogRecord.seq) (LogRecord.map_fst_atPages records 0)
      rwa [List.map_map] at hfst
    have hcount : (LogRecord.atPages records 0).length = records.length := by
      rw [← List.length_map Prod.fst, LogRecord.map_fst_atPages]
    rw [parseAndRebuildEntries_eq, hmeets, foldl_applyRecord_parsed, hseq, List.length_map,
      hcount]
  · intro p hp room hroom
    have hmem : p.1.parsed p.2 ∈ recordsFrom (logBytes encoded zeroPages) 0 := by
      rw [hmeets]
      exact List.mem_map_of_mem hp
    obtain ⟨hr, hvalid⟩ := of_parseAt_record (parseAt_of_mem_recordsFrom hmem)
    refine validateEntry_of_size_le hvalid ?_
    have hsize : (p.1.parsed p.2).size ≤ room := hroom
    rwa [hr] at hsize

/-- A put whose record is copied and a tombstone whose record is made in its slot, at page 5 of
file 3 and with a zeroed page behind them. -/
theorem decode_log_putAndTombstone :
    ((⟨MemIndex.fresh 8, 0⟩ : IndexLoader 8).parseAndRebuildEntries
      (logBytes [buildEntryInplace 1 [7] 1 false, buildEntryInplaceRdma [] 1 0 2 true] 1) 3
      (5 * kPageSize)).2 = 2 := by
  have h : List.Forall₂ LogRecord.Encodes [⟨1, [7], 1, false⟩, ⟨1, [], 2, true⟩]
      [buildEntryInplace 1 [7] 1 false, buildEntryInplaceRdma [] 1 0 2 true] :=
    .cons .copied (.cons (.inPlace [] rfl) .nil)
  have hpages : ∀ r ∈ [(⟨1, [7], 1, false⟩ : LogRecord), ⟨1, [], 2, true⟩], r.pages < 2 ^ 16 := by
    decide
  rw [(decode_log ⟨MemIndex.fresh 8, 0⟩ 3 5 1 h hpages).2.2.1]
  rfl

/-- **A page position that wraps**: the record of a put at page `2 ^ 21` of a file is applied
with the page position 0. -/
theorem page_position_wraps : ∃ e,
    ((⟨MemIndex.fresh 8, 0⟩ : IndexLoader 8).parseAndRebuildEntries
      (buildEntryInplace 1 [] 1 false) 0 (2 ^ 21 * kPageSize)).1.memIndex.findEntry 1 = some e ∧
      e.offsetIndex.toNat = 0 ∧ e.offsetIndex.toNat ≠ 2 ^ 21 := by
  have h : List.Forall₂ LogRecord.Encodes [⟨1, [], 1, false⟩] [buildEntryInplace 1 [] 1 false] :=
    .cons .copied .nil
  have hmeets := recordsFrom_log h (by decide) 0
  have hbytes : logBytes [buildEntryInplace 1 [] 1 false] 0 = buildEntryInplace 1 [] 1 false := by
    rw [logBytes, Nat.zero_mul, List.replicate_zero, List.append_nil, List.flatten_singleton]
  rw [hbytes] at hmeets
  rw [parseAndRebuildEntries_eq, hmeets, foldl_applyRecord_parsed]
  exact ⟨LogRecord.rebuilt 0 ⟨1, [], 1, false⟩ (2 ^ 21), by decide +kernel⟩

end IndexLoader

end SpdkKv
