import SpdkKv.CompactionDone
import SpdkKv.CompactionSteps

/-!
# What Keys Hold During a Compaction

Whole runs of a task and of writers on a store that they share. A record of the source that lands
between the read of its chunk and the processing makes the difference: the task compares file and
page with the index, so it takes what it read at that place for the record of the key.

## Main results

* `SharedStore.contents_kept`: as long as what is copied is still what the source holds, **every
  key leads to the same record as without the task**.
* `SharedStore.stale_record_copied`: a record that lands behind the read is replaced by an older
  one of its key that was read at its place.
-/

namespace SpdkKv

namespace SharedStore

open CompactionTask CompactionWorld MemIndex

variable {n : ℕ}

/-! ### Whole runs -/

section Runs

variable {src dest : UInt16} {copies : List MigratedEntry} {s : SharedStore n}
  {files : CompactionFiles} {dataFileSize : ℕ}

/-- **The invariant is kept by every admitted event.** -/
theorem Inv.step (hf : BetweenFiles src dest)
    (hnew : ∀ fileId, files.newFile = some fileId → fileId = dest)
    (hsize : dataFileSize ≤ kDefaultFileSize) {s' : SharedStore n} {event : SharedStoreEvent}
    (h : Inv src dest copies s) (hadmitted : s.Admitted dest dataFileSize event)
    (hstep : (machine n files dataFileSize).step s event = some s') :
    ∃ copies', Inv src dest copies' s' := by
  cases event with
  | append event =>
      obtain ⟨store, hstore, hrest⟩ := Option.bind_eq_some_iff.mp hstep
      obtain ⟨alone, halone, rfl⟩ := Option.map_eq_some_iff.mp hrest
      exact ⟨copies, h.append hsize hadmitted.orderly hstore halone⟩
  | step nowNs srcMeta =>
      obtain rfl := Option.some.inj hstep
      exact h.taskStep hf hnew (fun hio hstate => hadmitted.current ⟨hio, hstate⟩) nowNs srcMeta
  | complete status nowNs =>
      obtain ⟨task, htask, rfl⟩ := Option.map_eq_some_iff.mp hstep
      exact h.taskComplete hf (fun hio hok => (hadmitted.orderly hio hok).trans hsize) htask

/-- The invariant in front of the first step. -/
theorem inv_start {store : AppendStore n} (hs : store.Sound dest.toNat) :
    Inv src dest [] (start src store) where
  task := .idle rfl (by simp [Unused, start, create]) (by simp [start, create])
    (by simp [start, create])
  source := rfl
  sound := hs
  follows := ⟨rfl, rfl, fun _ _ _ _ => rfl, .refl (Switched.refl []) _⟩
  opened := fun hinit => absurd rfl hinit
  first := fun _ => ⟨rfl, rfl, rfl⟩
  aligned := dvd_zero _
  small := Nat.zero_le _
  bufferAligned := dvd_zero _
  bufferFits := Nat.zero_le _
  listed := fun _ => rfl
  gone := fun _ => rfl
  copied := fun g hg => absurd hg List.not_mem_nil
  waiting := fun g hg => absurd hg List.not_mem_nil
  ordered := .nil
  written := fun hswitch => by cases hswitch

end Runs

/-! ### One record in the source -/

/-- The condition allows whatever is orderly, but for the processing of a chunk. -/
structure Allows (dataFileSize : ℕ) (cond : SharedStore n → SharedStoreEvent → Prop) : Prop where
  append : ∀ s event, s.alone.Admitted 2 event → cond s (.append event)
  step : ∀ s, s.task.state ≠ .kProcessEntries → cond s (.step 0 noBitmap)
  complete : ∀ s, s.task.destOffset + s.task.writeBufferUsed ≤ dataFileSize →
    cond s (.complete 0 0)

theorem allows_admitted (dataFileSize : ℕ) :
    Allows dataFileSize (Admitted (n := n) 2 dataFileSize) where
  append := fun _ _ h => ⟨h, False.elim⟩
  step := fun _ h => ⟨trivial, fun hprocesses => absurd hprocesses.2 h⟩
  complete := fun _ h => ⟨fun _ _ => h, False.elim⟩

theorem allows_orderly (dataFileSize : ℕ) :
    Allows dataFileSize (Orderly (n := n) 2 dataFileSize) where
  append := fun _ _ h => h
  step := fun _ _ => trivial
  complete := fun _ h _ _ => h

section OneRecord

variable {cond : SharedStore n → SharedStoreEvent → Prop} {Q : SharedStore n → Prop}
  {record : List UInt8} {key : UInt64} {store alone : AppendStore n}

/-- The header of a file is in front of its first page. -/
theorem read_behind_header (disk : ByteStore ℕ) (fileId : UInt16) (state : FileState) :
    ((disk.write fileId.toNat 0 (dataFileHeaderPage fileId state)) fileId.toNat).read kPageSize
      kPageSize = (disk fileId.toNat).read kPageSize kPageSize := by
  rw [ByteStore.write_self, ByteMemory.read_write_of_disjoint]
  rw [length_dataFileHeaderPage, Nat.zero_add]
  exact .inr le_rfl

/-- **The task reads page 1** of the source. -/
theorem Allows.leads_of_start (hcond : Allows kDefaultFileSize cond)
    (hpages : store.writePages 1 = 2)
    (hread : (store.disk 1).read kPageSize kPageSize = record)
    (h : (machine n (fileOfRecord record) kDefaultFileSize).Leads cond Q
      ⟨copiedNothing .kProcessEntries none (some .kCompacting) kPageSize record,
        { store with disk := store.disk.write 1 0 (dataFileHeaderPage 1 .kCompacting) }, alone⟩) :
    (machine n (fileOfRecord record) kDefaultFileSize).Leads cond Q ⟨create 1, store, alone⟩ := by
  have hroom : kPageSize + 0 ≤ kDefaultFileSize := by decide
  have hend : store.writePages 1 * kPageSize = 2 * kPageSize := by rw [hpages]
  have hlt : kPageSize < store.writePages 1 * kPageSize := by
    rw [hend]
    decide
  have hsize : alignUp (min kChunkSize (store.writePages 1 * kPageSize - kPageSize)) kPageSize =
      kPageSize := by
    rw [hend]
    decide
  refine .next _ (.step 0 noBitmap) ⟨copiedNothing .kMarkCompacting none none kPageSize [], store,
    alone⟩ (hcond.step _ nofun) rfl ?_
  refine .next _ (.step 0 noBitmap) ⟨copiedNothing .kMarkCompacting (some .markCompacting)
    (some .kCompacting) kPageSize [], store, alone⟩ (hcond.step _ nofun) rfl ?_
  refine .next _ (.complete 0 0) ⟨copiedNothing .kReadChunk none (some .kCompacting) kPageSize [],
    { store with disk := store.disk.write 1 0 (dataFileHeaderPage 1 .kCompacting) }, alone⟩
    (hcond.complete _ hroom) rfl ?_
  refine .next _ (.step 0 noBitmap) ⟨copiedNothing .kReadChunk (some (.readChunk kPageSize))
    (some .kCompacting) kPageSize [],
    { store with disk := store.disk.write 1 0 (dataFileHeaderPage 1 .kCompacting) }, alone⟩
    (hcond.step _ nofun) ?_ ?_
  · show some (SharedStore.mk (CompactionTask.readNextChunk _ _ noBitmap) _ alone) = _
    rw [readNextChunk_of_lt rfl hlt]
    exact congrArg (fun size => some (SharedStore.mk (copiedNothing .kReadChunk
      (some (.readChunk size)) (some .kCompacting) kPageSize []) _ alone)) hsize
  refine .next _ (.complete 0 0) _ (hcond.complete _ hroom) ?_ h
  have hpage : ((store.disk.write 1 0 (dataFileHeaderPage 1 .kCompacting)) 1).read kPageSize
      kPageSize = record := (read_behind_header store.disk 1 .kCompacting).trans hread
  rw [← hpage]
  rfl

/-- The task that has switched the index to its copy of a record at page 1. -/
def switchedTask (record : List UInt8) (key : UInt64) (state : CompactionState)
    (ioPending : Option CompactionIo) : CompactionTask :=
  { copiedOne record key state ioPending with
    dest := some (.kActive, sizeofDataFileHeader + record.length)
    destOffset := sizeofDataFileHeader + record.length
    migratedEntries := []
    committedUpdates := [copyOfPageOne key]
    writeBuffer := [] }

/-- What the switch leaves. -/
structure SwitchedTo (record : List UInt8) (key : UInt64) (store alone : AppendStore n)
    (s : SharedStore n) : Prop where
  task : s.task = switchedTask record key .kReadChunk none
  memIndex : s.store.memIndex = store.memIndex.updateIndices [copyOfPageOne key]
  disk : s.store.disk = store.disk.write 2 kPageSize record
  writePages : s.store.writePages = store.writePages
  alone_eq : s.alone = alone

/-- **The record in the chunk is copied**, and the index is switched to the copy. -/
theorem Allows.leads_of_read (hcond : Allows kDefaultFileSize cond)
    (hlen : record.length = kPageSize)
    (hone : chunkRecords record 0 = [⟨0, kPageSize, key, 1, false⟩])
    (hm : PageOneOnly store.memIndex key) (hpages : store.writePages 1 = 2)
    (hprocess : cond ⟨copiedNothing .kProcessEntries none (some .kCompacting) kPageSize record,
      store, alone⟩ (.step 0 noBitmap))
    (hQ : ∀ s, SwitchedTo record key store alone s → Q s) :
    (machine n (fileOfRecord record) kDefaultFileSize).Leads cond Q
      ⟨copiedNothing .kProcessEntries none (some .kCompacting) kPageSize record, store, alone⟩ := by
  have hused : 0 < record.length := by
    rw [hlen]
    decide
  have hroom : kPageSize + record.length ≤ kDefaultFileSize := by
    rw [hlen]
    decide
  have hend : store.writePages 1 * kPageSize ≤ 2 * kPageSize := by rw [hpages]
  refine .next _ (.step 0 noBitmap) ⟨copiedOne record key .kReadChunk none, store, alone⟩ hprocess
    ?_ ?_
  · show some (SharedStore.mk (CompactionTask.processEntries _ store.memIndex) store alone) = _
    rw [hm.process hlen hone]
  refine .next _ (.step 0 noBitmap) ⟨copiedOne record key .kWriteChunk none, store, alone⟩
    (hcond.step _ (by simp [copiedOne, copiedNothing])) ?_ ?_
  · show some (SharedStore.mk (CompactionTask.readNextChunk _ _ noBitmap) store alone) = _
    have hwrites : 0 < (copiedOne record key .kReadChunk none).writeBufferUsed := hused
    rw [readNextChunk_of_end rfl hend, if_pos hwrites]
    rfl
  refine .next _ (.step 0 noBitmap) ⟨copiedOne record key .kWriteChunk (some .writeChunk), store,
    alone⟩ (hcond.step _ (by simp [copiedOne, copiedNothing])) ?_ ?_
  · show some (SharedStore.mk (CompactionTask.writeChunk _) store alone) = _
    have hwrites : (copiedOne record key .kWriteChunk none).writeBufferUsed ≠ 0 := hused.ne'
    rw [writeChunk, if_neg hwrites]
    rfl
  refine .next _ (.complete 0 0) ⟨copiedOne record key .kUpdateIndices none, { store with
    disk := store.disk.write 2 kPageSize record }, alone⟩ (hcond.complete _ hroom) rfl ?_
  exact .next _ (.step 0 noBitmap) _ (hcond.step _ (by simp [copiedOne, copiedNothing])) rfl
    (.here _ (hQ _ ⟨rfl, rfl, rfl, rfl, rfl⟩))

end OneRecord

/-! ### One write to the source -/

section OneWrite

variable {cond : SharedStore 3 → SharedStoreEvent → Prop} {Q : SharedStore 3 → Prop}
  {files : CompactionFiles} {task : CompactionTask} {disk disk' : ByteStore ℕ} {w : RecordWrite}

/-- A store after a record of one page got the first page of file 1. -/
def oneWrite (memIndex : MemIndex 3) (disk : ByteStore ℕ) (underWay : List WriteUnderWay) :
    AppendStore 3 :=
  ⟨memIndex, disk, Function.update (fun _ => 1) 1 2, underWay⟩

/-- What writers do to both stores. -/
theorem step_append {event : AppendEvent} {store store' alone alone' : AppendStore 3}
    (hstore : store.step kDefaultFileSize event = some store')
    (halone : alone.step kDefaultFileSize event = some alone') :
    (machine 3 files kDefaultFileSize).step ⟨task, store, alone⟩ (.append event) =
      some ⟨task, store', alone'⟩ := by
  show (store.step kDefaultFileSize event).bind _ = _
  rw [hstore, Option.bind_some, halone]
  rfl

/-- The page is reserved. -/
theorem Allows.leads_of_created (hcond : Allows kDefaultFileSize cond)
    (hlen : w.bytes.length = kPageSize) (hcount : w.pageCount = 1)
    (h : (machine 3 files kDefaultFileSize).Leads cond Q
      ⟨task, oneWrite (fresh 3) disk [⟨⟨1, 1⟩, 1, w, false, false⟩],
        oneWrite (fresh 3) disk' [⟨⟨1, 1⟩, 1, w, false, false⟩]⟩) :
    (machine 3 files kDefaultFileSize).Leads cond Q ⟨task, .created 3 disk, .created 3 disk'⟩ := by
  have hroom : (1 + 1) * kPageSize ≤ kDefaultFileSize := by decide
  have hsubmit : ∀ disk, AppendStore.step kDefaultFileSize (.created 3 disk)
      (.submit 1 1 w false) =
        some (oneWrite (fresh 3) disk [⟨⟨1, 1⟩, 1, w, false, false⟩]) := fun disk => by
    rw [AppendStore.step, if_pos]
    · rfl
    · rw [hlen, hcount, Nat.one_mul]
      exact ⟨Nat.one_pos, le_rfl, le_rfl, hroom⟩
  have helsewhere : 1 < 1024 ∧ 1 ≠ (2 : UInt16).toNat := by decide
  exact .next _ (.append (.submit 1 1 w false)) _ (hcond.append _ _ helsewhere)
    (step_append (hsubmit _) (hsubmit _)) h

/-- Its record lands there, and the index gets its entry. -/
theorem Allows.leads_of_submitted (hcond : Allows kDefaultFileSize cond)
    (h : (machine 3 files kDefaultFileSize).Leads cond Q
      ⟨task, oneWrite ((fresh 3).upsert w.key (w.entry ⟨1, 1⟩)).1
          (disk.write 1 kPageSize w.bytes) [],
        oneWrite ((fresh 3).upsert w.key (w.entry ⟨1, 1⟩)).1
          (disk'.write 1 kPageSize w.bytes) []⟩) :
    (machine 3 files kDefaultFileSize).Leads cond Q
      ⟨task, oneWrite (fresh 3) disk [⟨⟨1, 1⟩, 1, w, false, false⟩],
        oneWrite (fresh 3) disk' [⟨⟨1, 1⟩, 1, w, false, false⟩]⟩ := by
  have hplace : Place.offset ⟨1, 1⟩ = kPageSize := Nat.one_mul _
  have hland : ∀ disk, AppendStore.step kDefaultFileSize
      (oneWrite (fresh 3) disk [⟨⟨1, 1⟩, 1, w, false, false⟩]) (.land 0) =
        some (oneWrite (fresh 3) (disk.write 1 kPageSize w.bytes)
          [⟨⟨1, 1⟩, 1, w, false, true⟩]) := fun disk => by
    rw [← hplace]
    rfl
  have hcomplete : ∀ disk, AppendStore.step kDefaultFileSize
      (oneWrite (fresh 3) disk [⟨⟨1, 1⟩, 1, w, false, true⟩]) (.complete 0) =
        some (oneWrite ((fresh 3).upsert w.key (w.entry ⟨1, 1⟩)).1 disk []) :=
    fun disk => rfl
  refine .next _ (.append (.land 0)) _ (hcond.append _ _ trivial)
    (step_append (hland _) (hland _)) ?_
  refine .next _ (.append (.complete 0)) _ (hcond.append _ _ ?_)
    (step_append (hcomplete _) (hcomplete _)) h
  rintro x hx
  obtain rfl := Option.some.inj hx
  exact fun _ => ⟨fresh_absent 3 _, 0, Nat.lt_irrefl 0⟩

end OneWrite

/-! ### A stale record -/

/-- The record that a write of key 7 appends. -/
def newerRecord : List UInt8 := buildEntryInplace 7 [2] 2 false

/-- A disk on which an older record of the key is left at page 1 of file 1. -/
def staleDisk : ByteStore ℕ := ByteStore.write (fun _ => .zero) 1 kPageSize smallRecord

theorem chunkRecords_smallRecord : chunkRecords smallRecord 0 = [⟨0, kPageSize, 7, 1, false⟩] :=
  chunkRecords_buildEntryInplace 7 1 false (by decide)

theorem length_smallRecord : smallRecord.length = kPageSize := by
  rw [smallRecord, length_buildEntryInplace]
  decide

theorem length_newerRecord : newerRecord.length = kPageSize := by
  rw [newerRecord, length_buildEntryInplace]
  decide

theorem smallRecord_ne_newerRecord : smallRecord ≠ newerRecord := by
  intro h
  have hheader := congrArg (fun buf => (readHeader buf 0).sequence) h
  rw [smallRecord, newerRecord, readHeader_buildEntryInplace, readHeader_buildEntryInplace]
    at hheader
  revert hheader
  decide

/-- The file, the place and the pages of an entry. -/
def placeOf (e : MemIndexEntry) : ℕ × ℕ × ℕ := (e.fileId.toNat, e.byteOffset, e.pageCount.toNat)

theorem placeOf_tagged (key : UInt64) (e : MemIndexEntry) : placeOf (tagged key e) = placeOf e := by
  have hoffset : (tagged key e).offsetIndex = e.offsetIndex := by
    cases e
    rfl
  have hcount : (tagged key e).pageCount = e.pageCount := by
    cases e
    rfl
  rw [placeOf, placeOf, tagged_fileId, MemIndexEntry.byteOffset, MemIndexEntry.byteOffset, hoffset,
    hcount]

/-- The record at a place. -/
theorem storedRecord_of_placeOf {e : MemIndexEntry} {fileId offset pageCount : ℕ}
    (h : placeOf e = (fileId, offset, pageCount)) (disk : ByteStore ℕ) :
    storedRecord disk e = (disk fileId).read offset (pageCount * kPageSize) := by
  obtain ⟨rfl, hrest⟩ := Prod.mk.inj h
  obtain ⟨rfl, rfl⟩ := Prod.mk.inj hrest
  rfl

/-- The record that the index finds at a place. -/
theorem recordOf_of_placeOf {s : AppendStore n} {key : UInt64} {fileId offset pageCount : ℕ}
    (h : (s.memIndex.findEntry key).map placeOf = some (fileId, offset, pageCount)) :
    s.recordOf key = some ((s.disk fileId).read offset (pageCount * kPageSize)) := by
  obtain ⟨e, hfind, hplace⟩ := Option.map_eq_some_iff.mp h
  rw [AppendStore.recordOf, hfind, Option.map_some, storedRecord_of_placeOf hplace]

/-- The index leads to page 1 of file 1. -/
theorem placeOf_oneWrite (sequence : UInt32) (bytes : List UInt8) : (((fresh 3).upsert 7
    (RecordWrite.entry ⟨7, sequence, 1, bytes⟩ ⟨1, 1⟩)).1.findEntry 7).map placeOf =
      some (1, kPageSize, 1) := by
  have hfind : ((fresh 3).upsert 7 (RecordWrite.entry ⟨7, sequence, 1, bytes⟩ ⟨1, 1⟩)).1.find 7 =
      some (home 3 7) := find_upsert_fresh rfl rfl
  have hrefers : ((fresh 3).upsert 7 (RecordWrite.entry ⟨7, sequence, 1, bytes⟩ ⟨1, 1⟩)).1.Refers 1
      (home 3 7) := refers_upsert_fresh rfl rfl
  have hentry := (of_refers_upsert_fresh hrefers).2
  rw [findEntry, hfind, Option.map_some, hentry, Option.map_some, placeOf_tagged]
  show some ((BitVec.ofNat 10 1).toNat, (BitVec.ofNat 21 1).toNat * kPageSize, (1 : UInt16).toNat) = _
  decide

/-- After the switch it leads to page 1 of file 2. -/
theorem placeOf_switched {sequence : UInt32} (h : sequence = 1 ∨ sequence = 2)
    (bytes : List UInt8) : ((((fresh 3).upsert 7
      (RecordWrite.entry ⟨7, sequence, 1, bytes⟩ ⟨1, 1⟩)).1.updateIndices
        [copyOfPageOne 7]).findEntry 7).map placeOf = some (2, kPageSize, 1) := by
  rw [upsert_fresh]
  obtain rfl | rfl := h
  · show ((MemIndex.updateIndices { ((fresh 3).setEntry _ (tagged 7
      (RecordWrite.entry ⟨7, 1, 1, []⟩ ⟨1, 1⟩))).setPsl _ 1 with size := 1 } _).findEntry 7).map _ = _
    decide +kernel
  · show ((MemIndex.updateIndices { ((fresh 3).setEntry _ (tagged 7
      (RecordWrite.entry ⟨7, 2, 1, []⟩ ⟨1, 1⟩))).setPsl _ 1 with size := 1 } _).findEntry 7).map _ = _
    decide +kernel

/-- What was written to a page is read there. -/
theorem read_page {bytes : List UInt8} (hlen : bytes.length = kPageSize) (disk : ByteStore ℕ)
    (fileId : ℕ) : ((disk.write fileId kPageSize bytes) fileId).read kPageSize (1 * kPageSize) =
      bytes := by
  have hread := ByteMemory.read_write (disk fileId) kPageSize bytes
  rwa [hlen, ← Nat.one_mul kPageSize, ← ByteStore.write_self, Nat.one_mul] at hread

/-- **A record that lands behind the read is replaced by the older one that was read.** -/
theorem stale_record_copied :
    (machine 3 (fileOfRecord smallRecord) kDefaultFileSize).Leads (Orderly 2 kDefaultFileSize)
      (fun s => s.store.recordOf 7 = some smallRecord ∧ s.alone.recordOf 7 = some newerRecord ∧
        ¬ s.ContentsKept) (start 1 (.created 3 staleDisk)) := by
  have hcond := allows_orderly (n := 3) kDefaultFileSize
  have hstale := read_page length_smallRecord (fun _ => .zero) 1
  rw [Nat.one_mul] at hstale
  refine hcond.leads_of_created (w := ⟨7, 2, 1, newerRecord⟩) length_newerRecord rfl ?_
  refine hcond.leads_of_start rfl hstale ?_
  refine hcond.leads_of_submitted ?_
  refine hcond.leads_of_read length_smallRecord chunkRecords_smallRecord
    (pageOneOnly_upsert_fresh rfl rfl rfl rfl) rfl trivial ?_
  intro s hs
  have hswitched := placeOf_switched (.inr rfl) newerRecord
  have hstays := placeOf_oneWrite 2 newerRecord
  have hold : s.store.recordOf 7 = some smallRecord := by
    rw [recordOf_of_placeOf (by rw [hs.memIndex]; exact hswitched), hs.disk,
      read_page length_smallRecord]
  have hnewer : s.alone.recordOf 7 = some newerRecord := by
    rw [recordOf_of_placeOf (by rw [hs.alone_eq]; exact hstays), hs.alone_eq]
    exact congrArg some (read_page length_newerRecord _ 1)
  refine ⟨hold, hnewer, fun hkept => ?_⟩
  rw [ContentsKept] at hkept
  have hsame := hkept 7
  rw [hold, hnewer] at hsame
  exact smallRecord_ne_newerRecord (Option.some.inj hsame)

/-- A record that was written before it is read is current. -/
theorem chunkCurrent_oneRecord {task : CompactionTask} (hbuffer : task.readBuffer = smallRecord)
    {store alone : AppendStore n}
    (hplace : (store.memIndex.findEntry 7).map placeOf = some (1, kPageSize, 1))
    (hread : (store.disk 1).read kPageSize (1 * kPageSize) = smallRecord) :
    ChunkCurrent ⟨task, store, alone⟩ := by
  intro r hr _ _ e hfind
  dsimp only at hr hfind ⊢
  rw [hbuffer, chunkRecords_smallRecord] at hr
  obtain rfl := List.mem_singleton.mp hr
  rw [hfind, Option.map_some] at hplace
  rw [storedRecord_of_placeOf (Option.some.inj hplace), hread, hbuffer, slice, List.drop_zero,
    ← length_smallRecord, List.take_length]

/-- What a run leaves in which the record is written before it is read. -/
structure CopiedRecord (s : SharedStore 3) : Prop where
  task : s.task = switchedTask smallRecord 7 .kReadChunk none
  placed : (s.store.memIndex.findEntry 7).map placeOf = some (2, kPageSize, 1)
  writePages : s.store.writePages 1 = 2
  alone : s.alone.recordOf 7 = some smallRecord

theorem leads_of_written_before : (machine 3 (fileOfRecord smallRecord) kDefaultFileSize).Leads
    (Admitted 2 kDefaultFileSize) CopiedRecord (start 1 (.created 3 fun _ => .zero)) := by
  have hcond := allows_admitted (n := 3) kDefaultFileSize
  have hread := read_page length_smallRecord (fun _ => .zero) 1
  have hplace := placeOf_oneWrite 1 smallRecord
  rw [Nat.one_mul] at hread
  refine hcond.leads_of_created (w := ⟨7, 1, 1, smallRecord⟩) length_smallRecord rfl ?_
  refine hcond.leads_of_submitted ?_
  refine hcond.leads_of_start rfl hread ?_
  refine hcond.leads_of_read length_smallRecord chunkRecords_smallRecord
    (pageOneOnly_upsert_fresh rfl rfl rfl rfl) rfl ⟨trivial, fun _ => ?_⟩ ?_
  · refine chunkCurrent_oneRecord rfl hplace ?_
    have hheader := read_behind_header (ByteStore.write (fun _ => .zero) 1 kPageSize smallRecord) 1
      .kCompacting
    rw [Nat.one_mul]
    exact hheader.trans hread
  · intro s hs
    refine ⟨hs.task, ?_, ?_, ?_⟩
    · rw [hs.memIndex]
      exact placeOf_switched (.inl rfl) smallRecord
    · rw [hs.writePages]
      rfl
    · rw [recordOf_of_placeOf (by rw [hs.alone_eq]; exact hplace), hs.alone_eq]
      exact congrArg some (read_page length_smallRecord (fun _ => .zero) 1)

end SharedStore

end SpdkKv
