import SpdkKv.RecordParse

/-!
# The Contents of a Data File

A data file is what was appended to it: records, pages without the magic number, and pages
that carry it but hold no valid record. `image` is the byte string of such a list and
`appended` the list of its records with their positions, up to the first page at which any
reader has to give up.

## Main results

* `recordsFrom_image`: **the parser finds exactly the appended records**.
* `recordsFrom_take_image`: in the first `len` bytes it finds those that end there, up to
  the first one that does not.
-/

namespace SpdkKv

/-- A piece of a data file. -/
inductive LogItem
  /-- A record as `build_entry_inplace` writes it. -/
  | record (key : UInt64) (value : List UInt8) (seq : UInt32) (tomb : Bool)
  /-- A page without the magic number. -/
  | blank (page : List UInt8)
  /-- A page with the magic number at which the parser gives up. -/
  | broken (page : List UInt8)

namespace LogItem

/-- The bytes of a piece. -/
def bytes : LogItem → List UInt8
  | record key value seq tomb => buildEntryInplace key value seq tomb
  | blank page => page
  | broken page => page

end LogItem

/-- The bytes of a file. -/
def image (log : List LogItem) : List UInt8 := log.flatMap LogItem.bytes

@[simp] theorem image_nil : image [] = [] := rfl

@[simp] theorem image_cons (item : LogItem) (log : List LogItem) :
    image (item :: log) = item.bytes ++ image log := List.flatMap_cons

theorem image_append (log log' : List LogItem) :
    image (log ++ log') = image log ++ image log' := List.flatMap_append

/-- The pieces are what they claim to be. -/
def WfLog : List LogItem → Prop
  | [] => True
  | .record _ value _ _ :: log => value.length < 2 ^ 32 ∧ WfLog log
  | .blank page :: log =>
      page.length = kPageSize ∧ (readHeader page 0).magic ≠ kEntryMagic ∧ WfLog log
  | .broken page :: log =>
      page.length = kPageSize ∧ (readHeader page 0).magic = kEntryMagic ∧
        parseAt (page ++ image log) 0 = .stop ∧ WfLog log

/-- The records of a file with their positions, up to the first broken page. -/
def appended : List LogItem → ℕ → List ParsedRecord
  | [], _ => []
  | .record key value seq tomb :: log, offset =>
      ⟨offset, entrySize value.length, key, seq, tomb⟩ ::
        appended log (offset + entrySize value.length)
  | .blank _ :: log, offset => appended log (offset + kPageSize)
  | .broken _ :: _, _ => []

/-- The position of the first broken page. -/
def brokenAt : List LogItem → ℕ → Option ℕ
  | [], _ => none
  | .record _ value _ _ :: log, offset => brokenAt log (offset + entrySize value.length)
  | .blank _ :: log, offset => brokenAt log (offset + kPageSize)
  | .broken _ :: _, offset => some offset

/-! ### Sizes and positions -/

/-- Every piece fills whole pages. -/
theorem WfLog.length_bytes {item : LogItem} {log : List LogItem} (h : WfLog (item :: log)) :
    ∃ q, 0 < q ∧ item.bytes.length = q * kPageSize := by
  cases item with
  | record key value seq tomb =>
      refine ⟨pagesFor (recordHeaderSize + value.length + 4), pagesFor_pos (by omega), ?_⟩
      rw [LogItem.bytes, length_buildEntryInplace, entrySize_eq]
  | blank page => exact ⟨1, Nat.one_pos, by rw [one_mul]; exact h.1⟩
  | broken page => exact ⟨1, Nat.one_pos, by rw [one_mul]; exact h.1⟩

theorem WfLog.tail {item : LogItem} {log : List LogItem} (h : WfLog (item :: log)) :
    WfLog log := by
  cases item with
  | record => exact h.2
  | blank => exact h.2.2
  | broken => exact h.2.2.2

theorem appended_shift (log : List LogItem) (d offset : ℕ) :
    appended log (d + offset) = (appended log offset).map (ParsedRecord.shift d) := by
  induction log generalizing offset with
  | nil => rfl
  | cons item log ih =>
      cases item with
      | record key value seq tomb =>
          simp only [appended, List.map_cons, add_assoc, ih]
          rfl
      | blank => simp only [appended, add_assoc, ih]
      | broken => rfl

theorem brokenAt_shift (log : List LogItem) (d offset : ℕ) :
    brokenAt log (d + offset) = (brokenAt log offset).map (d + ·) := by
  induction log generalizing offset with
  | nil => rfl
  | cons item log ih =>
      cases item with
      | record key value seq tomb => rw [brokenAt, brokenAt, add_assoc, ih]
      | blank page => rw [brokenAt, brokenAt, add_assoc, ih]
      | broken page => rfl

theorem appended_eq_map (log : List LogItem) (d : ℕ) :
    appended log d = (appended log 0).map (ParsedRecord.shift d) := by
  have := appended_shift log d 0
  rwa [Nat.add_zero] at this

theorem brokenAt_eq_map (log : List LogItem) (d : ℕ) :
    brokenAt log d = (brokenAt log 0).map (d + ·) := by
  have := brokenAt_shift log d 0
  rwa [Nat.add_zero] at this

/-! ### Parsing a file -/

/-- The parser meets nothing in an empty buffer. -/
@[simp] theorem recordsFrom_nil : recordsFrom [] 0 = [] :=
  recordsFrom_of_stop (by simp [parseAt, recordHeaderSize, sizeofEntryHeader])

/-- A page without the magic number is skipped, unless it is the last one. -/
theorem recordsFrom_blank_append {page : List UInt8} (hl : page.length = kPageSize)
    (hm : (readHeader page 0).magic ≠ kEntryMagic) (buf : List UInt8) :
    recordsFrom (page ++ buf) 0 =
      (recordsFrom buf 0).map (ParsedRecord.shift page.length) := by
  have hp : page.length = 1 * kPageSize := by rw [one_mul, hl]
  have hmagic : (readHeader (page ++ buf) 0).magic ≠ kEntryMagic := by
    rwa [readHeader_append_left (by rw [hl]; decide)]
  have hnext : alignUp (0 + 1) kPageSize = page.length := by rw [hl]; rfl
  have hfit : 0 + recordHeaderSize ≤ (page ++ buf).length := by
    rw [List.length_append, hl, recordHeaderSize, sizeofEntryHeader, kPageSize]
    omega
  have hstep : parseAt (page ++ buf) 0 =
      if page.length ≥ (page ++ buf).length then .stop else .skip page.length := by
    simp only [parseAt, hnext]
    rw [if_pos hfit, if_pos hmagic]
  by_cases hnil : buf = []
  · subst hnil
    rw [if_pos (by rw [List.append_nil])] at hstep
    rw [recordsFrom_of_stop hstep, recordsFrom_nil, List.map_nil]
  · have hpos : 0 < buf.length := List.length_pos_of_ne_nil hnil
    rw [if_neg (by rw [List.length_append]; omega)] at hstep
    rw [recordsFrom_of_skip hstep]
    exact recordsFrom_append hp buf 0

/-- A record that was built is met first. -/
theorem recordsFrom_record_append (key : UInt64) {value : List UInt8} (seq : UInt32)
    (tomb : Bool) (hv : value.length < 2 ^ 32) (buf : List UInt8) :
    recordsFrom (buildEntryInplace key value seq tomb ++ buf) 0 =
      builtRecord key value seq tomb ::
        (recordsFrom buf 0).map (ParsedRecord.shift (entrySize value.length)) := by
  have hl := length_buildEntryInplace key value seq tomb
  have htail := recordsFrom_append (hl.trans (entrySize_eq _)) buf 0
  rw [hl, Nat.add_zero] at htail
  have hsize : (builtRecord key value seq tomb).size = entrySize value.length := by
    simp only [builtRecord]
  rw [recordsFrom_of_record (parseAt_buildEntryInplace_append key value seq tomb hv buf),
    hsize, Nat.zero_add, htail]

/-- **The parser finds exactly the appended records.** -/
theorem recordsFrom_image {log : List LogItem} (h : WfLog log) :
    recordsFrom (image log) 0 = appended log 0 := by
  induction log with
  | nil => exact recordsFrom_nil
  | cons item log ih =>
      have ih := ih h.tail
      cases item with
      | record key value seq tomb =>
          rw [image_cons, LogItem.bytes, recordsFrom_record_append key seq tomb h.1, ih,
            ← appended_eq_map, appended, Nat.zero_add]
          rfl
      | blank page =>
          rw [image_cons, LogItem.bytes, recordsFrom_blank_append h.1 h.2.1, ih,
            ← appended_eq_map, h.1, appended, Nat.zero_add]
      | broken page =>
          rw [image_cons, LogItem.bytes, recordsFrom_of_stop h.2.2.1, appended]

/-- A page that carries the magic number and no valid record stops the parser also when the
end of the buffer is cut off. -/
theorem parseAt_take_of_stop {page buf : List UInt8} {len : ℕ} (hl : page.length = kPageSize)
    (hm : (readHeader page 0).magic = kEntryMagic) (hs : parseAt (page ++ buf) 0 = .stop)
    (hlen : kPageSize ≤ len) : parseAt ((page ++ buf).take len) 0 = .stop := by
  have hm' : (readHeader (page ++ buf) 0).magic = kEntryMagic := by
    rwa [readHeader_append_left (by rw [hl]; decide)]
  rw [parseAt_take_of_magic _ (le_trans (by decide) hlen)
    (by rw [List.length_append, hl, recordHeaderSize, sizeofEntryHeader, kPageSize]; omega)
    hm', hs]

/-- The record ends within the first `len` bytes. -/
def ParsedRecord.endsBy (len : ℕ) (r : ParsedRecord) : Bool := r.offset + r.size ≤ len

theorem takeWhile_endsBy_shift (l : List ParsedRecord) (d len : ℕ) :
    (l.map (ParsedRecord.shift d)).takeWhile (ParsedRecord.endsBy (d + len)) =
      (l.takeWhile (ParsedRecord.endsBy len)).map (ParsedRecord.shift d) := by
  have h : ParsedRecord.endsBy (d + len) ∘ ParsedRecord.shift d = ParsedRecord.endsBy len := by
    funext r
    simp only [Function.comp, ParsedRecord.endsBy, ParsedRecord.shift, add_assoc,
      Nat.add_le_add_iff_left]
  rw [List.takeWhile_map, h]

/-- Every record of a file has a positive size. -/
theorem appended_size_pos {log : List LogItem} {offset : ℕ} {r : ParsedRecord}
    (h : r ∈ appended log offset) : 0 < r.size := by
  induction log generalizing offset with
  | nil => cases h
  | cons item log ih =>
      cases item with
      | record key value seq tomb =>
          rcases List.mem_cons.mp h with rfl | h
          · exact entrySize_pos _
          · exact ih h
      | blank page => exact ih h
      | broken page => cases h

/-- **What the parser finds in the first bytes of a file**: the records that end there, up to
the first one that does not. -/
theorem recordsFrom_take_image {log : List LogItem} (h : WfLog log) (pages : ℕ) :
    recordsFrom ((image log).take (pages * kPageSize)) 0 =
      (appended log 0).takeWhile (ParsedRecord.endsBy (pages * kPageSize)) := by
  induction log generalizing pages with
  | nil => rw [image_nil, List.take_nil]; exact recordsFrom_nil
  | cons item log ih =>
      have ih := ih h.tail
      obtain ⟨k, hk, hlen⟩ := h.length_bytes
      rcases Nat.eq_zero_or_pos pages with rfl | hpages
      · rw [Nat.zero_mul, List.take_zero, recordsFrom_nil]
        cases happ : appended (item :: log) 0 with
        | nil => rfl
        | cons r l =>
            have hr : 0 < r.size := appended_size_pos (happ ▸ List.mem_cons_self)
            rw [List.takeWhile_cons_of_neg]
            simp only [ParsedRecord.endsBy, decide_eq_true_eq]
            omega
      -- the bytes of the first piece and what the prefix holds behind them
      have htake (hle : k ≤ pages) : (item.bytes ++ image log).take (pages * kPageSize) =
          item.bytes ++ (image log).take ((pages - k) * kPageSize) := by
        rw [List.take_append, List.take_of_length_le (by rw [hlen]; gcongr), hlen,
          ← Nat.sub_mul]
      have hsplit (hle : k ≤ pages) :
          k * kPageSize + (pages - k) * kPageSize = pages * kPageSize := by
        rw [← Nat.add_mul, Nat.add_sub_cancel' hle]
      have htail (hle : k ≤ pages) : (appended log (k * kPageSize)).takeWhile
          (ParsedRecord.endsBy (pages * kPageSize)) =
          (recordsFrom ((image log).take ((pages - k) * kPageSize)) 0).map
            (ParsedRecord.shift (k * kPageSize)) := by
        rw [ih, ← takeWhile_endsBy_shift, hsplit hle, ← appended_eq_map]
      rw [image_cons]
      cases item with
      | record key value seq tomb =>
          have hsize : entrySize value.length = k * kPageSize :=
            (length_buildEntryInplace key value seq tomb).symm.trans hlen
          rw [appended, Nat.zero_add, hsize]
          by_cases hle : k ≤ pages
          · rw [htake hle, LogItem.bytes, recordsFrom_record_append key seq tomb h.1, hsize,
              ← htail hle, List.takeWhile_cons_of_pos]
            · rw [builtRecord, hsize]
            · simp only [ParsedRecord.endsBy, decide_eq_true_eq, Nat.zero_add]
              gcongr
          · have hlt : pages * kPageSize < k * kPageSize :=
              (Nat.mul_lt_mul_right (by decide)).mpr (not_le.mp hle)
            have hpage : recordHeaderSize ≤ pages * kPageSize :=
              le_trans (by decide) (Nat.le_mul_of_pos_left kPageSize hpages)
            have hparse := parseAt_take_of_magic
              (buildEntryInplace key value seq tomb ++ image log) hpage
              (by rw [List.length_append, length_buildEntryInplace]
                  exact le_trans (recordHeaderSize_le_entrySize _) (Nat.le_add_right _ _))
              (by rw [(readers_buildEntryInplace_append key value seq tomb h.1 _).1])
            rw [parseAt_buildEntryInplace_append key value seq tomb h.1] at hparse
            dsimp only [builtRecord] at hparse
            rw [hsize, if_neg (not_le.mpr hlt)] at hparse
            rw [LogItem.bytes, recordsFrom_of_stop hparse, List.takeWhile_cons_of_neg]
            simp only [ParsedRecord.endsBy, decide_eq_true_eq, Nat.zero_add]
            exact not_le.mpr hlt
      | blank page =>
          have hk1 : page.length = k * kPageSize := hlen
          obtain rfl : k = 1 := by
            have := h.1
            rw [hk1] at this
            exact Nat.eq_of_mul_eq_mul_right (by decide) (this.trans (one_mul _).symm)
          rw [htake hpages, LogItem.bytes, recordsFrom_blank_append h.1 h.2.1, hk1,
            ← htail hpages, appended, Nat.zero_add, one_mul]
      | broken page =>
          rw [LogItem.bytes, recordsFrom_of_stop (parseAt_take_of_stop h.1 h.2.1 h.2.2.1
            (Nat.le_mul_of_pos_left kPageSize hpages)), appended, List.takeWhile_nil]

/-! ### Splitting a file -/

/-- Records lie inside the file. -/
theorem appended_bounds {log : List LogItem} (h : WfLog log) {offset : ℕ} {r : ParsedRecord}
    (hr : r ∈ appended log offset) :
    offset ≤ r.offset ∧ r.offset + r.size ≤ offset + (image log).length := by
  induction log generalizing offset with
  | nil => cases hr
  | cons item log ih =>
      rw [image_cons, List.length_append]
      cases item with
      | record key value seq tomb =>
          have hl := length_buildEntryInplace key value seq tomb
          rw [LogItem.bytes, hl]
          rcases List.mem_cons.mp hr with rfl | hr
          · dsimp only
            exact ⟨le_rfl, Nat.add_le_add_left (Nat.le_add_right _ _) _⟩
          · have := ih h.tail hr
            omega
      | blank page =>
          rw [LogItem.bytes, h.1]
          have := ih h.tail hr
          omega
      | broken page => cases hr

theorem le_brokenAt {log : List LogItem} {offset b : ℕ} (hb : brokenAt log offset = some b) :
    offset ≤ b := by
  induction log generalizing offset with
  | nil => cases hb
  | cons item log ih =>
      cases item with
      | record key value seq tomb =>
          rw [brokenAt] at hb
          exact le_trans (Nat.le_add_right _ _) (ih hb)
      | blank page =>
          rw [brokenAt] at hb
          exact le_trans (Nat.le_add_right _ _) (ih hb)
      | broken page =>
          rw [brokenAt] at hb
          exact (Option.some.inj hb).le

/-- Records lie in front of the first broken page. -/
theorem appended_end_le_broken {log : List LogItem} {offset b : ℕ}
    (hb : brokenAt log offset = some b) {r : ParsedRecord} (hr : r ∈ appended log offset) :
    r.offset + r.size ≤ b := by
  induction log generalizing offset with
  | nil => cases hr
  | cons item log ih =>
      cases item with
      | record key value seq tomb =>
          rw [brokenAt] at hb
          rw [appended] at hr
          rcases List.mem_cons.mp hr with rfl | hr
          · exact le_brokenAt hb
          · exact ih hb hr
      | blank page =>
          rw [brokenAt] at hb
          rw [appended] at hr
          exact ih hb hr
      | broken page => cases hr

/-- In front of the first broken page files compose. -/
theorem appended_append {log log' : List LogItem} (h : WfLog (log ++ log')) (offset : ℕ)
    (hb : brokenAt log offset = none) :
    WfLog log ∧ WfLog log' ∧
      appended (log ++ log') offset =
        appended log offset ++ appended log' (offset + (image log).length) ∧
      brokenAt (log ++ log') offset = brokenAt log' (offset + (image log).length) := by
  induction log generalizing offset with
  | nil =>
      rw [image_nil, List.length_nil, Nat.add_zero]
      exact ⟨trivial, h, rfl, rfl⟩
  | cons item log ih =>
      rw [List.cons_append] at h ⊢
      rw [image_cons, List.length_append, ← Nat.add_assoc]
      cases item with
      | record key value seq tomb =>
          rw [brokenAt] at hb
          rw [LogItem.bytes, length_buildEntryInplace, appended, brokenAt, appended]
          obtain ⟨hw, hw', happ, hbr⟩ := ih h.tail _ hb
          exact ⟨⟨h.1, hw⟩, hw', by rw [happ, List.cons_append], hbr⟩
      | blank page =>
          rw [brokenAt] at hb
          rw [LogItem.bytes, h.1, appended, brokenAt, appended]
          obtain ⟨hw, hw', happ, hbr⟩ := ih h.tail _ hb
          exact ⟨⟨h.1, h.2.1, hw⟩, hw', happ, hbr⟩
      | broken page => cases hb

/-- The positions behind a first piece that is not a broken page. -/
theorem cons_of_not_broken {item : LogItem} {log : List LogItem} (h : WfLog (item :: log))
    (hb : brokenAt (item :: log) 0 ≠ some 0) :
    (∀ r ∈ appended log 0, r.shift item.bytes.length ∈ appended (item :: log) 0) ∧
      ∀ log', brokenAt (item :: log') 0 =
        (brokenAt log' 0).map (item.bytes.length + ·) := by
  cases item with
  | record key value seq tomb =>
      rw [LogItem.bytes, length_buildEntryInplace]
      constructor
      · intro r hr
        rw [appended, Nat.zero_add, appended_eq_map]
        exact List.mem_cons_of_mem _ (List.mem_map_of_mem hr)
      · intro log'
        rw [brokenAt, Nat.zero_add, brokenAt_eq_map]
  | blank page =>
      rw [LogItem.bytes, h.1]
      constructor
      · intro r hr
        rw [appended, Nat.zero_add, appended_eq_map]
        exact List.mem_map_of_mem hr
      · intro log'
        rw [brokenAt, Nat.zero_add, brokenAt_eq_map]
  | broken page => exact absurd rfl hb

/-- A file splits at a page that no record crosses and no broken page precedes. -/
theorem exists_split {log : List LogItem} (h : WfLog log) (pages : ℕ)
    (hlen : pages * kPageSize ≤ (image log).length)
    (hcross : ∀ r ∈ appended log 0, r.offset < pages * kPageSize →
      r.offset + r.size ≤ pages * kPageSize)
    (hb : ∀ b, brokenAt log 0 = some b → pages * kPageSize ≤ b) :
    ∃ front back, log = front ++ back ∧ (image front).length = pages * kPageSize ∧
      brokenAt front 0 = none := by
  induction log generalizing pages with
  | nil =>
      refine ⟨[], [], rfl, ?_, rfl⟩
      rw [image_nil, List.length_nil] at *
      omega
  | cons item log ih =>
      rcases Nat.eq_zero_or_pos pages with rfl | hpages
      · exact ⟨[], item :: log, rfl, by rw [image_nil, List.length_nil, Nat.zero_mul], rfl⟩
      obtain ⟨k, hk, hbytes⟩ := h.length_bytes
      -- the first piece lies in front of the split
      have hle : k ≤ pages := by
        by_contra hlt
        have hlt' : pages * kPageSize < k * kPageSize :=
          (Nat.mul_lt_mul_right (by decide)).mpr (not_le.mp hlt)
        have hpos : 0 < pages * kPageSize := Nat.mul_pos hpages (by decide)
        cases item with
        | record key value seq tomb =>
            have := hcross _ List.mem_cons_self hpos
            have hl := length_buildEntryInplace key value seq tomb
            rw [LogItem.bytes, hl] at hbytes
            dsimp only at this
            omega
        | blank page =>
            have := h.1
            rw [LogItem.bytes, this] at hbytes
            have : k = 1 := Nat.eq_of_mul_eq_mul_right (show 0 < kPageSize by decide)
              (hbytes.symm.trans (one_mul _).symm)
            omega
        | broken page =>
            have := hb 0 rfl
            omega
      have hmul : k * kPageSize + (pages - k) * kPageSize = pages * kPageSize := by
        rw [← Nat.add_mul, Nat.add_sub_cancel' hle]
      have hnot : brokenAt (item :: log) 0 ≠ some 0 := fun h0 => by
        have := hb 0 h0
        have : 0 < pages * kPageSize := Nat.mul_pos hpages (by decide)
        omega
      obtain ⟨happ, hbr⟩ := cons_of_not_broken h hnot
      rw [hbytes] at happ hbr
      obtain ⟨front, back, rfl, hfront, hnone⟩ := ih h.tail (pages - k)
        (by rw [image_cons, List.length_append, hbytes] at hlen; omega)
        (fun r hr hlt => by
          have := hcross _ (happ r hr) (by dsimp only [ParsedRecord.shift]; omega)
          dsimp only [ParsedRecord.shift] at this
          omega)
        (fun b hb' => by
          have := hb (k * kPageSize + b) (by rw [hbr, hb', Option.map_some])
          omega)
      refine ⟨item :: front, back, rfl, ?_, ?_⟩
      · rw [image_cons, List.length_append, hbytes, hfront, hmul]
      · rw [hbr, hnone, Option.map_none]

end SpdkKv
