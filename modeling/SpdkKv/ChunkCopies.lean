import SpdkKv.CompactionProgress
import SpdkKv.IndexMap
import SpdkKv.ParserSafety

/-!
# The Copies That a Chunk Adds

The handler of a chunk copies the records that the walk over the chunk accepts, if the index
points to them, and comes back to the chunk when the write buffer is too full for one of them.

## Main results

* `CompactionTask.foldlM_collects`: which records are copied.
* `CompactionTask.processEntries_collects`: **what the handler of a chunk leaves**.
* `CompactionTask.processEntries_of_nil`, `CompactionTask.processEntries_of_one`: chunks of no
  record and of one.
-/

namespace SpdkKv

namespace CompactionTask

variable {n : ℕ} {m : MemIndex n} {t t' : CompactionTask}

/-! ### The copies that a chunk adds -/

/-- What processing records does to the list of the copies. -/
structure Collects (t t' : CompactionTask) : Prop where
  srcFileId : t'.srcFileId = t.srcFileId
  currentOffset : t'.currentOffset = t.currentOffset
  readBuffer : t'.readBuffer = t.readBuffer
  mono : ∀ g ∈ t.migratedEntries, g ∈ t'.migratedEntries
  buffered : (t.migratedEntries ≠ [] → 0 < t.writeBufferUsed) → t'.migratedEntries ≠ [] →
    0 < t'.writeBufferUsed

theorem Collects.refl (t : CompactionTask) : Collects t t :=
  ⟨rfl, rfl, rfl, fun _ h => h, fun h => h⟩

theorem Collects.trans {t'' : CompactionTask} (h : Collects t t') (h' : Collects t' t'') :
    Collects t t'' :=
  ⟨h'.srcFileId.trans h.srcFileId, h'.currentOffset.trans h.currentOffset,
    h'.readBuffer.trans h.readBuffer, fun g hg => h'.mono g (h.mono g hg),
    fun hb => h'.buffered (h.buffered hb)⟩

/-- The copy is one of the record, as the task sees it. -/
def CopyOf (t : CompactionTask) (r : ParsedRecord) (g : MigratedEntry) : Prop :=
  g.key = r.key ∧ g.oldFileId = t.srcFileId ∧
    g.oldOffsetIndex = UInt32.ofNat ((t.currentOffset + r.offset) / kPageSize)

/-- A record to which the index points is copied. -/
theorem processRecord_collects {r : ParsedRecord} (hr : 0 < r.size)
    (hin : r.offset + r.size ≤ t.readBuffer.length) (h : t.processRecord m r = .ok t') :
    Collects t t' ∧ (t.shouldMigrate m r = true → r.deleted = false →
      ∃ g ∈ t'.migratedEntries, t.CopyOf r g) := by
  dsimp only [processRecord] at h
  split_ifs at h with hmigrate hfull
  · obtain rfl := Except.ok.inj h
    have hpos : 0 < (slice t.readBuffer r.offset r.size).length := by
      rw [slice, List.length_take, List.length_drop]
      omega
    refine ⟨⟨rfl, rfl, rfl, fun g hg => List.mem_append_left _ hg, fun _ _ => ?_⟩,
      fun _ _ => ⟨_, List.mem_append_right _ List.mem_cons_self, rfl, rfl, rfl⟩⟩
    rw [writeBufferUsed, List.length_append]
    omega
  · obtain rfl := Except.ok.inj h
    refine ⟨⟨rfl, rfl, rfl, fun g hg => hg, fun hb => hb⟩, fun hs hd => absurd ?_ hmigrate⟩
    have hs' : CompactionTask.shouldMigrate
        { t with entriesProcessed := t.entriesProcessed + 1 } m r = true := hs
    rw [hs', hd]
    rfl

/-- A record for which there is no room adds nothing. -/
theorem collects_of_error {r : ParsedRecord} (h : t.processRecord m r = .error t') :
    Collects t t' := by
  dsimp only [processRecord] at h
  split_ifs at h
  obtain rfl := Except.error.inj h
  exact ⟨rfl, rfl, rfl, fun g hg => hg, fun hb => hb⟩

theorem Collects.shouldMigrate (h : Collects t t') (r : ParsedRecord) :
    t'.shouldMigrate m r = t.shouldMigrate m r := by
  rw [CompactionTask.shouldMigrate, CompactionTask.shouldMigrate, h.srcFileId, h.currentOffset]

theorem Collects.copyOf (h : Collects t t') {r : ParsedRecord} {g : MigratedEntry}
    (hg : t'.CopyOf r g) : t.CopyOf r g := by
  rwa [CopyOf, h.srcFileId, h.currentOffset] at hg

/-- **Which records are copied**: those to which the index points, unless the write buffer is
too full. -/
theorem foldlM_collects {rs : List ParsedRecord}
    (hrs : ∀ r ∈ rs, 0 < r.size ∧ r.offset + r.size ≤ t.readBuffer.length) :
    (∀ t', rs.foldlM (processRecord m) t = .ok t' → Collects t t' ∧
      ∀ r ∈ rs, t.shouldMigrate m r = true → r.deleted = false →
        ∃ g ∈ t'.migratedEntries, t.CopyOf r g) ∧
      ∀ t', rs.foldlM (processRecord m) t = .error t' → Collects t t' := by
  induction rs generalizing t with
  | nil =>
      refine ⟨fun t' h => ?_, fun t' h => by cases h⟩
      obtain rfl := Except.ok.inj h
      exact ⟨.refl _, fun r hr => absurd hr List.not_mem_nil⟩
  | cons r rs ih =>
      obtain ⟨⟨hpos, hin⟩, hrest⟩ := List.forall_mem_cons.mp hrs
      simp only [List.foldlM_cons]
      cases hr : t.processRecord m r with
      | error u =>
          refine ⟨fun t' h => (by cases h), fun t' h => ?_⟩
          obtain rfl := Except.error.inj h
          exact collects_of_error hr
      | ok u =>
          simp only [ok_bind]
          obtain ⟨hcollects, hcopied⟩ := processRecord_collects hpos hin hr
          have hlater := @ih u (by rwa [hcollects.readBuffer])
          refine ⟨fun t' h => ?_, fun t' h => hcollects.trans (hlater.2 t' h)⟩
          obtain ⟨hmore, hrecords⟩ := hlater.1 t' h
          refine ⟨hcollects.trans hmore, List.forall_mem_cons.mpr ⟨fun hs hd => ?_,
            fun r' hr' hs hd => ?_⟩⟩
          · obtain ⟨g, hg, hcopy⟩ := hcopied hs hd
            exact ⟨g, hmore.mono g hg, hcopy⟩
          · obtain ⟨g, hg, hcopy⟩ := hrecords r' hr' ((hcollects.shouldMigrate r').trans hs) hd
            exact ⟨g, hg, hcollects.copyOf hcopy⟩

/-- **What a chunk adds**: either the task goes on behind it and has copied every record of the
chunk to which the index points, or it writes first. -/
theorem processEntries_collects (m : MemIndex n) (t : CompactionTask) :
    ∃ t', Collects t t' ∧
      (t.processEntries m = { t' with
          currentOffset := t.currentOffset + t.bytesRead, state := .kReadChunk } ∧
        (∀ r ∈ chunkRecords t.readBuffer 0, t.shouldMigrate m r = true → r.deleted = false →
          ∃ g ∈ t'.migratedEntries, t.CopyOf r g) ∨
      t'.state = .kWriteChunk ∧ t.processEntries m = t') := by
  have hrs : ∀ r ∈ chunkRecords t.readBuffer 0,
      0 < r.size ∧ r.offset + r.size ≤ t.readBuffer.length := fun r hr =>
    have haccepted := (chunkRecords_accepted (dvd_zero kPageSize)).1.accepted r hr
    ⟨haccepted.nonempty, haccepted.inside⟩
  have hfold := @foldlM_collects n m t _ hrs
  have hkept := @foldlM_kept n m t (chunkRecords t.readBuffer 0)
  rw [processEntries, chunkLoop_run]
  cases hrun : (chunkRecords t.readBuffer 0).foldlM (processRecord m) t with
  | ok t' =>
      obtain ⟨hcollects, hrecords⟩ := hfold.1 t' hrun
      refine ⟨t', hcollects, .inl ⟨?_, hrecords⟩⟩
      dsimp only
      rw [hcollects.currentOffset, bytesRead, hcollects.readBuffer]
      rfl
  | error t' => exact ⟨t', hfold.2 t' hrun, .inr ⟨(hkept.2 t' hrun).2, rfl⟩⟩

/-! ### Chunks without records and chunks of one record -/

/-- A chunk in which no page is the beginning of a valid entry. -/
theorem chunkRecords_eq_nil {buf : List UInt8}
    (h : ∀ page, validateEntry buf (page * kPageSize) (buf.length - page * kPageSize) = false)
    (page : ℕ) : chunkRecords buf (page * kPageSize) = [] := by
  generalize hoffset : page * kPageSize = offset
  induction offset using chunkRecords.induct buf generalizing page with
  | case1 offset hend => rw [chunkRecords, dif_pos hend]
  | case2 offset hend hvalid _ _ =>
      subst hoffset
      exact absurd hvalid (Bool.eq_false_iff.mp (h page))
  | case3 offset hend hvalid _ ih =>
      rw [chunkRecords, dif_neg hend, if_neg hvalid]
      refine ih (page + 1) ?_
      rw [← hoffset, alignUp, kPageSize]
      omega

/-- It adds no copies. -/
theorem processEntries_of_nil (h : chunkRecords t.readBuffer 0 = []) :
    t.processEntries m = { t with
      currentOffset := t.currentOffset + t.bytesRead, state := .kReadChunk } := by
  rw [processEntries, chunkLoop_run, h]
  rfl

/-- A chunk of one record, to which the index points. -/
theorem processEntries_of_one {r : ParsedRecord} (hone : chunkRecords t.readBuffer 0 = [r])
    (hmigrate : t.shouldMigrate m r = true) (hplain : r.deleted = false)
    (hroom : t.writeBufferUsed + r.size ≤ kChunkSize) : t.processEntries m = { t with
      entriesProcessed := t.entriesProcessed + 1
      writeBuffer := t.writeBuffer ++ slice t.readBuffer r.offset r.size
      migratedEntries := t.migratedEntries ++
        [{ key := r.key
           oldFileId := t.srcFileId
           oldOffsetIndex := UInt32.ofNat ((t.currentOffset + r.offset) / kPageSize)
           newFileId := t.destFileId
           newOffsetIndex := UInt32.ofNat ((t.destOffset + t.writeBufferUsed) / kPageSize)
           pageCount := UInt16.ofNat (r.size / kPageSize)
           sequence := r.sequence }]
      entriesMigrated := t.entriesMigrated + 1
      currentOffset := t.currentOffset + t.bytesRead
      state := .kReadChunk } := by
  have htaken : (CompactionTask.shouldMigrate
      { t with entriesProcessed := t.entriesProcessed + 1 } m r && !r.deleted) = true := by
    rw [hplain]
    exact Bool.and_eq_true_iff.mpr ⟨hmigrate, rfl⟩
  have hfits : ¬ CompactionTask.writeBufferUsed
      { t with entriesProcessed := t.entriesProcessed + 1 } + r.size > kChunkSize :=
    not_lt.mpr hroom
  rw [processEntries, chunkLoop_run, hone, List.foldlM_cons, processRecord]
  dsimp only
  rw [if_pos htaken, if_neg hfits]
  rfl

/-- A chunk that one record fills. -/
theorem chunkRecords_buildEntryInplace (key : UInt64) {value : List UInt8} (seq : UInt32)
    (tomb : Bool) (hv : value.length < 2 ^ 32) :
    chunkRecords (buildEntryInplace key value seq tomb) 0 = [builtRecord key value seq tomb] := by
  have hlen := length_buildEntryInplace key value seq tomb
  have hpos := entrySize_pos value.length
  have hparse := parseAt_buildEntryInplace_append key value seq tomb hv []
  rw [List.append_nil] at hparse
  obtain ⟨hrecord, hvalid⟩ := of_parseAt_record hparse
  rw [chunkRecords, dif_neg (by omega), if_pos hvalid, ← hrecord, chunkRecords, dif_pos]
  rw [hlen, builtRecord, Nat.zero_add]

/-! ### Reading without a bitmap -/

section NoBitmap

variable {files : CompactionFiles} {srcMeta : PageTracking}

/-- The next chunk begins at the current offset. -/
theorem readNextChunk_of_lt (hno : srcMeta.validBitmap = none)
    (h : t.currentOffset < files.writeOffset) : t.readNextChunk files srcMeta = { t with
      ioPending := some (.readChunk
        (alignUp (min kChunkSize (files.writeOffset - t.currentOffset)) kPageSize)) } := by
  rw [readNextChunk, PageTracking.skipInvalidPages_of_none hno, if_neg (not_le.mpr h)]

/-- Behind the end of the source nothing is read. -/
theorem readNextChunk_of_end (hno : srcMeta.validBitmap = none)
    (h : files.writeOffset ≤ t.currentOffset) : t.readNextChunk files srcMeta = { t with
      state := if 0 < t.writeBufferUsed then .kWriteChunk else .kFinalize } := by
  rw [readNextChunk, PageTracking.skipInvalidPages_of_none hno, if_pos h]

end NoBitmap

end CompactionTask

end SpdkKv
