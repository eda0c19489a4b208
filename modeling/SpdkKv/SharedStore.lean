import SpdkKv.AppendStore
import SpdkKv.ChunkCopies
import SpdkKv.SwitchedEntries

/-!
# A Compaction Beside Writers

A task runs beside writers, on the index and the files that they share, and next to it goes the
store that the writers would have alone. What the invariant says: the shared store is the one of
the writers, but for the destination, the headers, and the entries that were switched to copies;
and a copy has the bytes of the record that it stands for.

## Main results

* `SharedStore.run_alone`: the writers' own store is what their run alone leads to.
* `SharedStore.Inv.contentsKept`: under the invariant **every key leads to the record to which it
  would lead without the task**.
* `SharedStore.Inv.append`: writers keep the invariant.
-/

namespace SpdkKv

/-! ### The task and the writers -/

/-- The page that `write_file_header` writes: a zeroed header with its magic, version, file, state
and checksum. -/
def dataFileHeaderPage (fileId : UInt16) (state : FileState) : List UInt8 :=
  let stateByte : UInt8 :=
    match state with
    | .kActive => 0
    | .kSealed => 1
    | .kCompacting => 2
    | .kDeleted => 3
  let front := leBytes 4 kDataFileHeaderMagic.toNat ++ leBytes 4 1 ++ List.replicate 40 0 ++
    leBytes 2 fileId.toNat ++ [stateByte, 0]
  let checksum := Crc32.calculate (front ++ List.replicate (kPageSize - 4 - 52) 0)
  front ++ leBytes 4 checksum.toNat ++ List.replicate (kPageSize - 56) 0

/-- What the operation that a task waits for does to the disk. -/
def CompactionTask.diskAfter (t : CompactionTask) (disk : ByteStore ℕ) (status : ℤ) :
    ByteStore ℕ :=
  if status ≠ 0 then disk
  else
    match t.ioPending with
    | some .markCompacting =>
        disk.write t.srcFileId.toNat 0 (dataFileHeaderPage t.srcFileId .kCompacting)
    | some .writeChunk => disk.write t.destFileId.toNat t.destOffset t.writeBuffer
    | some .markDeleted =>
        disk.write t.srcFileId.toNat 0 (dataFileHeaderPage t.srcFileId .kDeleted)
    | some .removeFile => Function.update disk t.destFileId.toNat ByteMemory.zero
    | some .markSealed =>
        disk.write t.srcFileId.toNat 0 (dataFileHeaderPage t.srcFileId .kSealed)
    | some (.readChunk _) => disk
    | none => disk

/-- A task, the store that it shares with the writers, and the store that the writers would have
had the task not run. -/
structure SharedStore (n : ℕ) where
  task : CompactionTask
  store : AppendStore n
  alone : AppendStore n

/-- What can happen. -/
inductive SharedStoreEvent
  /-- Writers append; this happens with and without the task. -/
  | append (event : AppendEvent)
  /-- A call of `step`; the bitmap of the source is as it is. -/
  | step (nowNs : UInt64) (srcMeta : PageTracking)
  /-- The operation that the task waits for completes. -/
  | complete (status : ℤ) (nowNs : UInt64)

namespace SharedStore

open CompactionTask

variable {n : ℕ}

/-- A task for a file, in front of its first step. -/
def start (src : UInt16) (store : AppendStore n) : SharedStore n :=
  ⟨.create src, store, store⟩

/-- What the task finds: the source is as the shared store has it. -/
def filesNow (files : CompactionFiles) (s : SharedStore n) : CompactionFiles :=
  { files with
    image := s.store.disk s.task.srcFileId.toNat
    writeOffset := s.store.writePages s.task.srcFileId.toNat * kPageSize }

/-- A task and writers as a machine; `dataFileSize` is that of the configuration. -/
def machine (n : ℕ) (files : CompactionFiles) (dataFileSize : ℕ) :
    Machine (SharedStore n) SharedStoreEvent where
  step := fun s event =>
    match event with
    | .append event => (s.store.step dataFileSize event).bind fun store =>
        (s.alone.step dataFileSize event).map fun alone =>
          { s with store := store, alone := alone }
    | .step nowNs srcMeta =>
        let r := s.task.step (s.filesNow files) srcMeta s.store.memIndex nowNs
        some { s with task := r.1, store := { s.store with memIndex := r.2 } }
    | .complete status nowNs => (s.task.complete (s.filesNow files) status nowNs).map fun task =>
        { s with
          task := task
          store := { s.store with disk := s.task.diskAfter s.store.disk status } }

/-- The writers of a run. -/
def appendEvent : SharedStoreEvent → Option AppendEvent
  | .append event => some event
  | .step _ _ => none
  | .complete _ _ => none

/-- The writers' own store is what their run alone leads to. -/
theorem run_alone {files : CompactionFiles} {dataFileSize : ℕ} {s s' : SharedStore n}
    {events : List SharedStoreEvent} (hrun : (machine n files dataFileSize).run s events = some s') :
    (AppendStore.machine n dataFileSize).run s.alone (events.filterMap appendEvent) =
      some s'.alone := by
  induction events generalizing s with
  | nil => exact congrArg (fun s => some s.alone) (Option.some.inj hrun)
  | cons event events ih =>
      obtain ⟨t, ht, hrest⟩ := Machine.run_cons_eq_some_iff _ |>.mp hrun
      have htail := ih hrest
      cases event with
      | append event =>
          obtain ⟨store, -, happend⟩ := Option.bind_eq_some_iff.mp ht
          obtain ⟨alone, halone, rfl⟩ := Option.map_eq_some_iff.mp happend
          exact (Machine.run_cons_eq_some_iff _).mpr ⟨alone, halone, htail⟩
      | step nowNs srcMeta =>
          obtain rfl := Option.some.inj ht
          exact htail
      | complete status nowNs =>
          obtain ⟨task, -, rfl⟩ := Option.map_eq_some_iff.mp ht
          exact htail

/-! ### Conditions on a run -/

/-- **The contents are kept**: every key leads to the same record as without the task. -/
def ContentsKept (s : SharedStore n) : Prop := ∀ key, s.store.recordOf key = s.alone.recordOf key


/-- **What is copied is still there**: a record of the chunk to which the index points lies at
that place, as it was read. -/
def ChunkCurrent (s : SharedStore n) : Prop :=
  ∀ r ∈ chunkRecords s.task.readBuffer 0, s.task.shouldMigrate s.store.memIndex r = true →
    r.deleted = false → ∀ e, s.store.memIndex.findEntry r.key = some e →
      storedRecord s.store.disk e = slice s.task.readBuffer r.offset r.size

/-- Writers keep away from the destination, and a write of the task succeeds only within its
file. -/
def Orderly (dest : UInt16) (dataFileSize : ℕ) (s : SharedStore n) : SharedStoreEvent → Prop
  | .append event => s.alone.Admitted dest.toNat event
  | .step _ _ => True
  | .complete status _ => s.task.ioPending = some .writeChunk → status = 0 →
      s.task.destOffset + s.task.writeBufferUsed ≤ dataFileSize

/-- The task is about to process a chunk. -/
def Processes (s : SharedStore n) : SharedStoreEvent → Prop
  | .step _ _ => s.task.ioPending = none ∧ s.task.state = .kProcessEntries
  | _ => False

/-- An orderly event; a chunk that is processed is current. -/
structure Admitted (dest : UInt16) (dataFileSize : ℕ) (s : SharedStore n)
    (event : SharedStoreEvent) : Prop where
  orderly : s.Orderly dest dataFileSize event
  current : s.Processes event → s.ChunkCurrent

/-! ### Copies -/

/-- A copy of a record that lies on settled pages: `bytes` are those of every entry in use at its
place. -/
structure CopyOf (src dest : UInt16) (alone : AppendStore n) (g : MigratedEntry)
    (bytes : List UInt8) : Prop where
  oldFile : g.oldFileId = src
  newFile : g.newFileId = dest
  nonempty : 0 < g.pageCount.toNat
  settled : alone.Settled src.toNat g.oldOffsetIndex.toNat g.pageCount.toNat
  same : MemIndex.AllUsed (fun e => e.deleted = false → g.Covers e →
    e.pageCount = g.pageCount ∧ storedRecord alone.disk e = bytes) alone.memIndex

section CopyOf

variable {src dest : UInt16} {dataFileSize : ℕ} {alone alone' : AppendStore n}
  {event : AppendEvent} {g : MigratedEntry} {bytes : List UInt8}

/-- The record of an entry on settled pages does not change. -/
theorem storedRecord_step (hs : alone.Sound dest.toNat)
    (hstep : alone.step dataFileSize event = some alone') {e : MemIndexEntry}
    (h : alone.Lies dest.toNat e) : storedRecord alone'.disk e = storedRecord alone.disk e :=
  (AppendStore.settled_step hs hstep h.settled).2 _ (le_max_left _ _)

/-- Writers leave a copy as it is. -/
theorem CopyOf.append (hs : alone.Sound dest.toNat)
    (hstep : alone.step dataFileSize event = some alone') (h : CopyOf src dest alone g bytes) :
    CopyOf src dest alone' g bytes := by
  refine ⟨h.oldFile, h.newFile, h.nonempty, (AppendStore.settled_step hs hstep h.settled).1,
    fun i hi hlive hcovers => ?_⟩
  rcases AppendStore.of_used_step hs hstep i hi hlive with ⟨j, hj, hsame⟩ | hnew
  · rw [← hsame] at hlive hcovers ⊢
    have hlies := hs.live j hj hlive
    rw [storedRecord_step hs hstep hlies]
    exact h.same j hj hlive hcovers
  · -- a new entry does not lie on settled pages
    obtain ⟨hfile, hoffset⟩ := Switched.of_liesAt hcovers.2
    refine absurd h.settled ?_
    rw [← hoffset, ← h.oldFile, ← hfile]
    exact hnew _ h.nonempty

end CopyOf

/-- Bytes in front of what is appended. -/
theorem slice_append_left {buf : List UInt8} {offset len : ℕ} (h : offset + len ≤ buf.length)
    (bytes : List UInt8) : slice (buf ++ bytes) offset len = slice buf offset len := by
  rw [slice, slice, List.drop_append_of_le_length (by omega),
    List.take_append_of_le_length (by rw [List.length_drop]; omega)]

/-- What is appended. -/
theorem slice_append_right (buf bytes : List UInt8) :
    slice (buf ++ bytes) buf.length bytes.length = bytes := by
  rw [slice, List.drop_left, List.take_length]

/-- A copy that waits in the write buffer, for the page that its place there will have. -/
def Waiting (src dest : UInt16) (alone : AppendStore n) (t : CompactionTask) (g : MigratedEntry) :
    Prop :=
  ∃ k, g.newOffsetIndex.toNat * kPageSize = t.destOffset + k ∧
    k + g.pageCount.toNat * kPageSize ≤ t.writeBufferUsed ∧
    CopyOf src dest alone g (slice t.writeBuffer k (g.pageCount.toNat * kPageSize))

/-- A copy that is in the destination. -/
structure Copied (src dest : UInt16) (s : SharedStore n) (g : MigratedEntry) : Prop where
  before : (g.newOffsetIndex.toNat + g.pageCount.toNat) * kPageSize ≤ s.task.destOffset
  copy : CopyOf src dest s.alone g ((s.store.disk dest.toNat).read
    (g.newOffsetIndex.toNat * kPageSize) (g.pageCount.toNat * kPageSize))

/-- Copies are made in the order of their places. -/
def InOrder (copies : List MigratedEntry) : Prop :=
  copies.Pairwise fun g h => g.newOffsetIndex.toNat < h.newOffsetIndex.toNat

/-- The task has taken its switches back. -/
def GivenUp (t : CompactionTask) : Prop :=
  t.state = .kRollbackMarkSealed ∨ t.state = .kFailed ∨ t.ioPending = some .removeFile

/-- The shared store is the one of the writers, but for the destination, the headers, and the
entries that were switched to the copies. -/
structure Follows (dest : UInt16) (copies : List MigratedEntry) (store alone : AppendStore n) :
    Prop where
  pages : store.writePages = alone.writePages
  underWay : store.underWay = alone.underWay
  disk : ∀ fileId address, fileId ≠ dest.toNat → kPageSize ≤ address →
    store.disk fileId address = alone.disk fileId address
  related : MemIndex.Related (Switched copies) store.memIndex alone.memIndex

/-- **The invariant** of a task between its steps, with the copies that the index was switched
to. -/
structure Inv (src dest : UInt16) (copies : List MigratedEntry) (s : SharedStore n) : Prop where
  task : CompactionTask.Inv (s.alone.writePages src.toNat * kPageSize) s.task
  source : s.task.srcFileId = src
  sound : s.alone.Sound dest.toNat
  follows : Follows dest copies s.store s.alone
  opened : s.task.state ≠ .kInit → s.task.state ≠ .kFailed → s.task.destFileId = dest
  first : s.task.state = .kInit →
    copies = [] ∧ s.task.migratedEntries = [] ∧ s.task.writeBuffer = []
  aligned : kPageSize ∣ s.task.destOffset
  small : s.task.destOffset ≤ kDefaultFileSize
  bufferAligned : kPageSize ∣ s.task.writeBufferUsed
  bufferFits : s.task.writeBufferUsed ≤ kChunkSize
  listed : s.task.state ≠ .kDone → s.task.committedUpdates = copies
  gone : GivenUp s.task → copies = []
  copied : ∀ g ∈ copies, Copied src dest s g
  waiting : ∀ g ∈ s.task.migratedEntries, Waiting src dest s.alone s.task g
  ordered : InOrder (copies ++ s.task.migratedEntries)
  written : s.task.state = .kUpdateIndices →
    s.task.destOffset + s.task.writeBufferUsed ≤ kDefaultFileSize ∧
      ∀ k len, k + len ≤ s.task.writeBufferUsed →
        (s.store.disk dest.toNat).read (s.task.destOffset + k) len = slice s.task.writeBuffer k len

section Invariant

variable {src dest : UInt16} {copies : List MigratedEntry} {s : SharedStore n}

/-! ### What the invariant says of the keys -/

/-- The place of a copy can be named in the index. -/
theorem Copied.named {g : MigratedEntry} (h : Copied src dest s g)
    (hsmall : s.task.destOffset ≤ kDefaultFileSize) : MemIndex.Related.Named dest g := by
  refine ⟨h.copy.newFile, ?_⟩
  have hbefore := h.before.trans hsmall
  have hpos := h.copy.nonempty
  rw [kPageSize, kDefaultFileSize] at hbefore
  omega

/-- An entry that was not switched has the same record in both stores. -/
theorem Inv.storedRecord_eq (h : Inv src dest copies s) {e : MemIndexEntry}
    (hlies : s.alone.Lies dest.toNat e) :
    storedRecord s.store.disk e = storedRecord s.alone.disk e := by
  refine List.map_congr_left fun i _ => h.follows.disk _ _ hlies.elsewhere ?_
  have hbehind := hlies.behind
  rw [MemIndexEntry.byteOffset, kPageSize]
  omega

/-- **Every key leads to the record that it would lead to without the task.** -/
theorem Inv.contentsKept (hf : BetweenFiles src dest) (h : Inv src dest copies s) :
    s.ContentsKept := by
  intro key
  rw [AppendStore.recordOf, AppendStore.recordOf, MemIndex.findEntry, MemIndex.findEntry,
    h.follows.related.find key]
  cases hfind : s.alone.memIndex.find key with
  | none => rfl
  | some i =>
      obtain ⟨hused, -, hlive⟩ := MemIndex.Related.of_find h.sound.wf hfind
      simp only [Option.map_some]
      refine congrArg some ?_
      rcases h.follows.related.used i hused hlive with hsame | ⟨g, hg, hcovers, hcount, hmoved⟩
      · rw [hsame]
        exact h.storedRecord_eq (h.sound.live i hused hlive)
      · -- the entry leads to its copy
        have hcopied := h.copied g hg
        have hnamed := hcopied.named h.small
        have hbytes := (hcopied.copy.same i hused hlive hcovers).2
        rw [hbytes, hmoved, storedRecord, MemIndexEntry.byteOffset, hnamed.newFile,
          Switched.fileId_moveTo _ hf.dest_lt, Switched.offsetIndex_moveTo _ _ hnamed.lt]
        rfl

/-! ### The writers -/

section Writers

variable {dataFileSize : ℕ} {store store' alone alone' : AppendStore n} {event : AppendEvent}

/-- **Writers do the same to both stores**, and nothing to the destination. -/
theorem Follows.step (h : Follows dest copies store alone) (hs : alone.Sound dest.toNat)
    (hstore : store.step dataFileSize event = some store')
    (halone : alone.step dataFileSize event = some alone') :
    Follows dest copies store' alone' ∧ store'.disk dest.toNat = store.disk dest.toNat := by
  obtain ⟨memIndex, disk, writePages, underWay⟩ := store
  obtain ⟨hpages, hunderWay, hdisk, hrelated⟩ := h
  dsimp only at hpages hunderWay hdisk hrelated
  subst hpages hunderWay
  cases event with
  | submit fileId pages record isDelete =>
      rw [AppendStore.step] at hstore halone
      dsimp only at hstore
      split_ifs at hstore halone
      obtain rfl := Option.some.inj hstore
      obtain rfl := Option.some.inj halone
      exact ⟨⟨rfl, rfl, hdisk, hrelated⟩, rfl⟩
  | land i =>
      obtain ⟨w, hw, rfl⟩ := Option.map_eq_some_iff.mp hstore
      obtain ⟨w', hw', rfl⟩ := Option.map_eq_some_iff.mp halone
      obtain rfl := Option.some.inj (hw.symm.trans hw')
      have helsewhere := (hs.reserved w (List.mem_of_getElem? hw)).elsewhere
      refine ⟨⟨rfl, rfl, fun fileId address hne hle => ?_, hrelated⟩,
        ByteStore.write_of_ne _ helsewhere.symm _ _⟩
      dsimp only
      by_cases hfile : fileId = w.place.fileId
      · subst hfile
        rw [ByteStore.write_self, ByteStore.write_self, ByteMemory.write, ByteMemory.write,
          hdisk _ _ hne hle]
      · rw [ByteStore.write_of_ne _ hfile, ByteStore.write_of_ne _ hfile, hdisk _ _ hne hle]
  | complete i =>
      obtain ⟨w, hw, hcomplete⟩ := Option.bind_eq_some_iff.mp hstore
      obtain ⟨w', hw', hcomplete'⟩ := Option.bind_eq_some_iff.mp halone
      obtain rfl := Option.some.inj (hw.symm.trans hw')
      split_ifs at hcomplete hcomplete'
      obtain rfl := Option.some.inj hcomplete
      obtain rfl := Option.some.inj hcomplete'
      refine ⟨⟨rfl, rfl, hdisk, ?_⟩, rfl⟩
      dsimp only
      rw [WriteUnderWay.op]
      split_ifs
      · exact hrelated.remove (Switched.of_deleted copies) _
      · exact hrelated.upsert (Switched.refl copies _)
  | fail i =>
      obtain ⟨w, hw, rfl⟩ := Option.map_eq_some_iff.mp hstore
      obtain ⟨w', hw', rfl⟩ := Option.map_eq_some_iff.mp halone
      exact ⟨⟨rfl, rfl, hdisk, hrelated⟩, rfl⟩

/-- A step of the writers. -/
theorem Inv.append (h : Inv src dest copies s) (hsize : dataFileSize ≤ kDefaultFileSize)
    (hadmitted : s.alone.Admitted dest.toNat event)
    (hstore : s.store.step dataFileSize event = some store')
    (halone : s.alone.step dataFileSize event = some alone') :
    Inv src dest copies { s with store := store', alone := alone' } := by
  obtain ⟨hfollows, hdest⟩ := h.follows.step h.sound hstore halone
  have hmono := AppendStore.writePages_le_step halone src.toNat
  exact {
    h with
    task := h.task.mono (Nat.mul_le_mul_right kPageSize hmono)
    sound := h.sound.step hsize hadmitted halone
    follows := hfollows
    copied := fun g hg => by
      obtain ⟨hbefore, hcopy⟩ := h.copied g hg
      refine ⟨hbefore, ?_⟩
      dsimp only
      rw [hdest]
      exact hcopy.append h.sound halone
    waiting := fun g hg => by
      obtain ⟨k, hplace, hend, hcopy⟩ := h.waiting g hg
      exact ⟨k, hplace, hend, hcopy.append h.sound halone⟩
    written := fun hstate => by
      dsimp only
      rw [hdest]
      exact h.written hstate }

end Writers

end Invariant

end SharedStore

end SpdkKv
