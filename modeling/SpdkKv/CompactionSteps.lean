import SpdkKv.SharedStore

/-!
# The Steps of a Compaction Beside Writers

The task copies records out of a chunk that it has read before, and decides by file and page
whether the index still points to them; it stores the sequence of a copy and never compares it.
So the invariant of the shared store is kept as long as the records of a chunk are processed as
they lie in the source.

## Main results

* `SharedStore.Gathered.record`: a record of a current chunk that is copied is the one to which
  its key leads.
* `SharedStore.Inv.updateIndices`, `SharedStore.Inv.revert`: the index is switched to copies with
  the bytes of the originals, and switched back.
* `SharedStore.Inv.taskStep`, `SharedStore.Inv.taskComplete`: **every step and every completion
  of a task keeps the invariant**.
-/

namespace SpdkKv

namespace SharedStore

open CompactionTask

variable {n : ℕ}

section Invariant

variable {src dest : UInt16} {copies : List MigratedEntry} {s : SharedStore n}

/-! ### The records of a chunk -/

/-- What a task holds of the copies, as the invariant has it. -/
structure Carries (src dest : UInt16) (copies : List MigratedEntry) (s : SharedStore n)
    (t : CompactionTask) : Prop where
  srcFileId : t.srcFileId = s.task.srcFileId
  destFileId : t.destFileId = s.task.destFileId
  destOffset : t.destOffset = s.task.destOffset
  committed : t.committedUpdates = s.task.committedUpdates
  aligned : kPageSize ∣ t.writeBufferUsed
  fits : t.writeBufferUsed ≤ kChunkSize
  waiting : ∀ g ∈ t.migratedEntries, Waiting src dest s.alone t g
  ordered : InOrder (copies ++ t.migratedEntries)

/-- What processing records leaves. -/
structure Gathered (src dest : UInt16) (copies : List MigratedEntry) (s : SharedStore n)
    (t : CompactionTask) : Prop extends Carries src dest copies s t where
  currentOffset : t.currentOffset = s.task.currentOffset
  readBuffer : t.readBuffer = s.task.readBuffer
  ioPending : t.ioPending = s.task.ioPending

section Chunk

variable {t t' : CompactionTask} {r : ParsedRecord}

/-- Nothing is processed. -/
theorem Inv.gathered (h : Inv src dest copies s) : Gathered src dest copies s s.task :=
  ⟨⟨rfl, rfl, rfl, rfl, h.bufferAligned, h.bufferFits, h.waiting, h.ordered⟩, rfl, rfl, rfl⟩

/-- A copy that waits goes on waiting when another one joins it. -/
theorem Waiting.append {alone : AppendStore n} {g : MigratedEntry}
    (h : Waiting src dest alone t g) (hoffset : t'.destOffset = t.destOffset) {bytes : List UInt8}
    (hbuffer : t'.writeBuffer = t.writeBuffer ++ bytes) : Waiting src dest alone t' g := by
  obtain ⟨k, hplace, hend, hcopy⟩ := h
  refine ⟨k, by rw [hoffset, hplace], ?_, ?_⟩
  · rw [writeBufferUsed, hbuffer, List.length_append]
    exact hend.trans (Nat.le_add_right _ _)
  · rwa [hbuffer, slice_append_left hend]

/-- **The entry of a record that is copied** is the one of the writers, and it is the only one of
its key. -/
theorem Inv.copyOf (hf : BetweenFiles src dest) (h : Inv src dest copies s)
    (hcurrent : s.ChunkCurrent) (hr : r ∈ chunkRecords s.task.readBuffer 0)
    (hmigrate : s.task.shouldMigrate s.store.memIndex r = true) (hplain : r.deleted = false)
    {g : MigratedEntry} (hkey : g.key = r.key) (hold : g.oldFileId = src) (hnew : g.newFileId = dest)
    (hoffset : g.oldOffsetIndex = UInt32.ofNat ((s.task.currentOffset + r.offset) / kPageSize))
    (hcount : g.pageCount = UInt16.ofNat (r.size / kPageSize)) :
    g.pageCount.toNat * kPageSize = r.size ∧
      CopyOf src dest s.alone g (slice s.task.readBuffer r.offset r.size) := by
  obtain ⟨hrecord, hinside⟩ : 0 < r.size ∧ r.offset + r.size ≤ s.task.readBuffer.length :=
    have haccepted := (chunkRecords_accepted (dvd_zero kPageSize)).1.accepted r hr
    ⟨haccepted.nonempty, haccepted.inside⟩
  -- the entry that the task finds
  obtain ⟨e, hfound, hlies⟩ : ∃ e, s.store.memIndex.findEntry r.key = some e ∧
      e.liesAt src g.oldOffsetIndex = true := by
    rw [shouldMigrate] at hmigrate
    cases hfind : s.store.memIndex.findEntry r.key with
    | none => simp [hfind] at hmigrate
    | some e =>
        rw [hfind] at hmigrate
        dsimp only at hmigrate
        rw [hoffset, ← h.source]
        exact ⟨e, rfl, (Bool.and_eq_true_iff.mp hmigrate).2⟩
  have hbytes := hcurrent r hr hmigrate hplain e hfound
  obtain ⟨i, hi, rfl⟩ := Option.map_eq_some_iff.mp hfound
  rw [h.follows.related.find] at hi
  obtain ⟨hused, hikey, hlive⟩ := MemIndex.Related.of_find h.sound.wf hi
  obtain ⟨hfile, hpage⟩ := Switched.of_liesAt hlies
  have hsame : s.store.memIndex.entries i = s.alone.memIndex.entries i := by
    refine (h.follows.related.used i hused).eq_of_fileId_ne hf
      (fun c hc => (h.copied c hc).copy.newFile) hlive ?_
    rw [hfile]
    exact fun heq => hf.ne (UInt16.toNat_inj.mp heq).symm
  rw [hsame] at hbytes hfile hpage hlies
  have hlen : (s.alone.memIndex.entries i).pageCount.toNat * kPageSize = r.size := by
    have hlength := congrArg List.length hbytes
    rw [storedRecord, ByteMemory.length_read, slice, List.length_take, List.length_drop] at hlength
    omega
  have hpages : g.pageCount = (s.alone.memIndex.entries i).pageCount := by
    rw [hcount, ← hlen, Nat.mul_div_cancel _ (by rw [kPageSize]; omega), UInt16.ofNat_toNat]
  have hcovers : g.Covers (s.alone.memIndex.entries i) := by
    refine ⟨hkey.trans hikey.symm, ?_⟩
    rw [hold]
    exact hlies
  have hentry := h.sound.live i hused hlive
  rw [hpages]
  refine ⟨hlen, hold, hnew, ?_, ?_, fun j hj hjlive hjcovers => ?_⟩
  · rw [hpages]
    exact Nat.pos_of_mul_pos_right (by rw [hlen]; exact hrecord)
  · have hsettled := hentry.settled
    rw [hfile, hpage] at hsettled
    rw [hpages]
    exact ⟨(Nat.add_le_add_left (le_max_left _ _) _).trans hsettled.below, fun w hw hwfile =>
      (hsettled.apart w hw hwfile).imp (Nat.add_le_add_left (le_max_left _ _) _).trans id⟩
  · have hoccupied : ∀ k, s.alone.memIndex.vacant k = false → s.alone.memIndex.Occupied k :=
      fun k hk => by
        by_contra hno
        cases hk.symm.trans ((h.sound.wf.vacant_iff k).mpr hno)
    obtain rfl : j = i := h.sound.wf.inj j i (hoccupied j hj) (hoccupied i hused)
      (hjcovers.1.symm.trans hcovers.1)
    rw [← hbytes, h.storedRecord_eq hentry]
    exact ⟨hpages.symm, rfl⟩

/-- The task gives the copy the place that comes next. -/
theorem toNat_nextPage (h : Inv src dest copies s) (ht : Gathered src dest copies s t) :
    (UInt32.ofNat ((t.destOffset + t.writeBufferUsed) / kPageSize)).toNat * kPageSize =
      t.destOffset + t.writeBufferUsed := by
  have hsmall := h.small
  have hfits := ht.fits
  have haligned := h.aligned
  rw [← ht.destOffset] at hsmall haligned
  have hdvd := Nat.div_mul_cancel (dvd_add haligned ht.aligned)
  rw [kDefaultFileSize] at hsmall
  rw [kChunkSize] at hfits
  rw [UInt32.toNat_ofNat', Nat.mod_eq_of_lt, hdvd]
  rw [kPageSize]
  omega

/-- A copy joins those that wait. -/
theorem Gathered.join (h : Inv src dest copies s) (ht : Gathered src dest copies s t)
    {g : MigratedEntry} {bytes : List UInt8} (hcopy : CopyOf src dest s.alone g bytes)
    (hlen : g.pageCount.toNat * kPageSize = bytes.length)
    (hplace : g.newOffsetIndex.toNat * kPageSize = t.destOffset + t.writeBufferUsed)
    (hroom : t.writeBufferUsed + bytes.length ≤ kChunkSize) (processed migrated : ℕ) :
    Gathered src dest copies s { t with
      entriesProcessed := processed
      writeBuffer := t.writeBuffer ++ bytes
      migratedEntries := t.migratedEntries ++ [g]
      entriesMigrated := migrated } := by
  have hused : (t.writeBuffer ++ bytes).length = t.writeBufferUsed + bytes.length :=
    List.length_append
  refine ⟨⟨ht.srcFileId, ht.destFileId, ht.destOffset, ht.committed, ?_, hused.trans_le hroom,
    fun c hc => ?_, ?_⟩, ht.currentOffset, ht.readBuffer, ht.ioPending⟩
  · rw [writeBufferUsed, hused]
    exact dvd_add ht.aligned (Dvd.intro_left _ hlen)
  · rcases List.mem_append.mp hc with hold | hlast
    · exact (ht.waiting c hold).append rfl rfl
    · rw [List.mem_singleton.mp hlast]
      refine ⟨t.writeBufferUsed, hplace, ?_, ?_⟩
      · rw [hlen]
        exact hused.ge
      · dsimp only
        rw [hlen, writeBufferUsed, slice_append_right]
        exact hcopy
  · dsimp only
    rw [← List.append_assoc]
    refine List.pairwise_append.mpr ⟨ht.ordered, List.pairwise_singleton _ _, fun c hc g' hg' => ?_⟩
    rw [List.mem_singleton.mp hg']
    -- its place is behind those of the others
    rw [kPageSize] at hplace
    rcases List.mem_append.mp hc with hcopied | hwaits
    · have hbefore := (h.copied c hcopied).before
      have hpos := (h.copied c hcopied).copy.nonempty
      rw [kPageSize, ← ht.destOffset] at hbefore
      omega
    · obtain ⟨k, hcplace, hcend, hcopyc⟩ := ht.waiting c hwaits
      have hpos := hcopyc.nonempty
      rw [kPageSize] at hcplace hcend
      omega

/-- **A record of the chunk**: its copy joins the others, or there is no room for it. -/
theorem Gathered.record (hf : BetweenFiles src dest) (h : Inv src dest copies s)
    (hopened : s.task.destFileId = dest) (hcurrent : s.ChunkCurrent)
    (hr : r ∈ chunkRecords s.task.readBuffer 0) (ht : Gathered src dest copies s t) :
    (∀ t', t.processRecord s.store.memIndex r = .ok t' → Gathered src dest copies s t') ∧
      ∀ t', t.processRecord s.store.memIndex r = .error t' → Gathered src dest copies s t' := by
  have hsees : CompactionTask.shouldMigrate { t with entriesProcessed := t.entriesProcessed + 1 }
      s.store.memIndex r = s.task.shouldMigrate s.store.memIndex r := by
    rw [shouldMigrate, shouldMigrate, ← ht.srcFileId, ← ht.currentOffset]
  rw [processRecord]
  dsimp only
  rw [hsees]
  split_ifs with hmigrate hfull
  · refine ⟨fun t' h' => (by cases h'), fun t' h' => ?_⟩
    obtain rfl := Except.error.inj h'
    exact ⟨⟨ht.srcFileId, ht.destFileId, ht.destOffset, ht.committed, ht.aligned, ht.fits,
      ht.waiting, ht.ordered⟩, ht.currentOffset, ht.readBuffer, ht.ioPending⟩
  · refine ⟨fun t' h' => ?_, fun t' h' => (by cases h')⟩
    obtain ⟨hpoints, hplain⟩ := Bool.and_eq_true_iff.mp hmigrate
    obtain rfl := Except.ok.inj h'
    obtain ⟨hsize, hcopy⟩ := h.copyOf hf hcurrent hr hpoints (by simpa using hplain)
      (g := ⟨r.key, t.srcFileId, UInt32.ofNat ((t.currentOffset + r.offset) / kPageSize),
        t.destFileId, UInt32.ofNat ((t.destOffset + t.writeBufferUsed) / kPageSize),
        UInt16.ofNat (r.size / kPageSize), r.sequence⟩)
      rfl (ht.srcFileId.trans h.source) (ht.destFileId.trans hopened)
      (by rw [ht.currentOffset]) rfl
    have hinside := ((chunkRecords_accepted (dvd_zero kPageSize)).1.accepted r hr).inside
    rw [← ht.readBuffer] at hcopy hinside
    have hlen : (slice t.readBuffer r.offset r.size).length = r.size := by
      rw [slice, List.length_take, List.length_drop]
      omega
    refine ht.join h hcopy (hsize.trans hlen.symm) (toNat_nextPage h ht) ?_ _ _
    rw [hlen]
    exact not_lt.mp hfull
  · refine ⟨fun t' h' => ?_, fun t' h' => (by cases h')⟩
    obtain rfl := Except.ok.inj h'
    exact ⟨⟨ht.srcFileId, ht.destFileId, ht.destOffset, ht.committed, ht.aligned, ht.fits,
      ht.waiting, ht.ordered⟩, ht.currentOffset, ht.readBuffer, ht.ioPending⟩

/-- Any number of records of the chunk. -/
theorem Gathered.foldlM (hf : BetweenFiles src dest) (h : Inv src dest copies s)
    (hopened : s.task.destFileId = dest) (hcurrent : s.ChunkCurrent)
    (ht : Gathered src dest copies s t) :
    (∀ t', (chunkRecords s.task.readBuffer 0).foldlM (processRecord s.store.memIndex) t = .ok t' →
      Gathered src dest copies s t') ∧
    ∀ t', (chunkRecords s.task.readBuffer 0).foldlM (processRecord s.store.memIndex) t =
      .error t' → Gathered src dest copies s t' :=
  Except.foldlM_invariant (Gathered src dest copies s) (Gathered src dest copies s)
    (fun _ hr _ hu => hu.record hf h hopened hcurrent hr) ht

end Chunk

/-! ### The steps of the task -/

section Task

variable {files : CompactionFiles} {t' : CompactionTask}

/-- A handler that leaves the copies alone carries them on. -/
theorem Inv.carries (h : Inv src dest copies s) (hsrc : t'.srcFileId = s.task.srcFileId)
    (hdest : t'.destFileId = s.task.destFileId) (hoffset : t'.destOffset = s.task.destOffset)
    (hcommitted : t'.committedUpdates = s.task.committedUpdates)
    (hmigrated : t'.migratedEntries = s.task.migratedEntries)
    (hbuffer : t'.writeBuffer = s.task.writeBuffer) : Carries src dest copies s t' := by
  refine ⟨hsrc, hdest, hoffset, hcommitted, ?_, ?_, fun g hg => ?_, ?_⟩
  · rw [writeBufferUsed, hbuffer]
    exact h.bufferAligned
  · rw [writeBufferUsed, hbuffer]
    exact h.bufferFits
  · rw [hmigrated] at hg
    have hwaiting := h.waiting g hg
    rwa [Waiting, ← hoffset, writeBufferUsed, ← hbuffer] at hwaiting
  · rw [hmigrated]
    exact h.ordered

/-- A task that goes on, with the copies that it carries. -/
theorem Inv.goesOn (h : Inv src dest copies s) (hcarries : Carries src dest copies s t')
    (hinv : CompactionTask.Inv (s.alone.writePages src.toNat * kPageSize) t')
    (hopened : s.task.state ≠ .kInit ∧ s.task.state ≠ .kFailed ∧ s.task.state ≠ .kDone)
    (hinit : t'.state ≠ .kInit) (hswitch : t'.state ≠ .kUpdateIndices)
    (hgone : GivenUp t' → copies = []) :
    Inv src dest copies { s with task := t' } :=
  { h with
    task := hinv
    source := hcarries.srcFileId.trans h.source
    opened := fun _ _ => hcarries.destFileId.trans (h.opened hopened.1 hopened.2.1)
    first := fun hstate => absurd hstate hinit
    aligned := by
      show kPageSize ∣ t'.destOffset
      rw [hcarries.destOffset]
      exact h.aligned
    small := by
      show t'.destOffset ≤ kDefaultFileSize
      rw [hcarries.destOffset]
      exact h.small
    bufferAligned := hcarries.aligned
    bufferFits := hcarries.fits
    listed := fun _ => hcarries.committed.trans (h.listed hopened.2.2)
    gone := hgone
    copied := fun g hg => by
      obtain ⟨hbefore, hcopy⟩ := h.copied g hg
      rw [← hcarries.destOffset] at hbefore
      exact ⟨hbefore, hcopy⟩
    waiting := hcarries.waiting
    ordered := hcarries.ordered
    written := fun hstate => absurd hstate hswitch }

/-- The first step of a task. -/
theorem Inv.init (h : Inv src dest copies s) (hstate : s.task.state = .kInit)
    (hnew : ∀ fileId, files.newFile = some fileId → fileId = dest)
    (heq : t' = s.task.init (s.filesNow files))
    (hinv : CompactionTask.Inv (s.alone.writePages src.toNat * kPageSize) t') :
    Inv src dest copies { s with task := t' } := by
  obtain ⟨rfl, hmigrated, hbuffer⟩ := h.first hstate
  have hcommitted := h.listed (by rw [hstate]; simp)
  have hfailed : ∀ error : ℤ, t' = { s.task with lastError := error, state := .kFailed } →
      Inv src dest [] { s with task := t' } := by
    rintro error rfl
    exact { h with
      task := hinv
      opened := fun _ hopened => absurd rfl hopened
      first := fun hinit => by cases hinit
      listed := fun _ => hcommitted
      gone := fun _ => rfl
      copied := fun g hg => absurd hg List.not_mem_nil
      written := fun hswitch => by cases hswitch }
  rw [CompactionTask.init] at heq
  split_ifs at heq
  · exact hfailed _ heq
  · exact hfailed _ heq
  · split at heq
    · exact hfailed _ heq
    · next fileId hfile =>
        subst heq
        exact { h with
          task := hinv
          opened := fun _ _ => hnew fileId hfile
          first := fun hinit => by cases hinit
          aligned := dvd_rfl
          small := by
            show sizeofDataFileHeader ≤ kDefaultFileSize
            decide
          listed := fun _ => hcommitted
          gone := fun _ => rfl
          copied := fun g hg => absurd hg List.not_mem_nil
          waiting := fun g hg => absurd hg List.not_mem_nil
          ordered := .nil
          written := fun hswitch => by cases hswitch }

/-- The records of a chunk are processed. -/
theorem Inv.processEntries (hf : BetweenFiles src dest) (h : Inv src dest copies s)
    (hstate : s.task.state = .kProcessEntries) (hio : s.task.ioPending = none)
    (hcurrent : s.ChunkCurrent) (heq : t' = s.task.processEntries s.store.memIndex)
    (hinv : CompactionTask.Inv (s.alone.writePages src.toNat * kPageSize) t') :
    Inv src dest copies { s with task := t' } := by
  have hopened : s.task.state ≠ .kInit ∧ s.task.state ≠ .kFailed ∧ s.task.state ≠ .kDone := by
    rw [hstate]
    simp
  have hfold := h.gathered.foldlM hf h (h.opened hopened.1 hopened.2.1) hcurrent
  have hkept := @foldlM_kept n s.store.memIndex s.task (chunkRecords s.task.readBuffer 0)
  rw [CompactionTask.processEntries, chunkLoop_run] at heq
  cases hrun : (chunkRecords s.task.readBuffer 0).foldlM (processRecord s.store.memIndex)
      s.task with
  | ok u =>
      rw [hrun] at heq
      have hu := hfold.1 u hrun
      subst heq
      refine h.goesOn ⟨hu.srcFileId, hu.destFileId, hu.destOffset, hu.committed, hu.aligned,
        hu.fits, hu.waiting, hu.ordered⟩ hinv hopened (by simp) (by simp) ?_
      simp [GivenUp, hu.ioPending, hio]
  | error u =>
      rw [hrun] at heq
      have hu := hfold.2 u hrun
      have hwrites := (hkept.2 u hrun).2
      subst heq
      refine h.goesOn hu.toCarries hinv hopened (by simp [hwrites]) (by simp [hwrites]) ?_
      simp [GivenUp, hwrites, hu.ioPending, hio]

/-- **The index is switched** to the copies that were written. -/
theorem Inv.updateIndices (hf : BetweenFiles src dest) (h : Inv src dest copies s)
    (hstate : s.task.state = .kUpdateIndices) (hio : s.task.ioPending = none)
    (hinv : CompactionTask.Inv (s.alone.writePages src.toNat * kPageSize)
      (s.task.updateIndices s.store.memIndex).1) :
    Inv src dest (copies ++ s.task.migratedEntries) { s with
      task := (s.task.updateIndices s.store.memIndex).1
      store := { s.store with memIndex := (s.task.updateIndices s.store.memIndex).2 } } := by
  obtain ⟨hend, hbytes⟩ := h.written hstate
  have hmoved : ∀ g ∈ s.task.migratedEntries,
      MemIndex.Related.CopiedFrom src dest s.alone.memIndex g := fun g hg => by
    obtain ⟨k, -, -, hcopy⟩ := h.waiting g hg
    exact ⟨hcopy.oldFile, hcopy.newFile,
      fun i hi hlive hcovers => (hcopy.same i hi hlive hcovers).1⟩
  exact {
    task := hinv
    source := h.source
    sound := h.sound
    follows := { h.follows with
      related := h.follows.related.updateIndices hf h.sound.wf
        (fun g hg => (h.copied g hg).copy.newFile) hmoved }
    opened := fun _ _ => h.opened (by rw [hstate]; simp) (by rw [hstate]; simp)
    first := fun hinit => by cases hinit
    aligned := dvd_add h.aligned h.bufferAligned
    small := hend
    bufferAligned := dvd_zero _
    bufferFits := Nat.zero_le _
    listed := fun _ => by
      show s.task.committedUpdates ++ s.task.migratedEntries = _
      rw [h.listed (by rw [hstate]; simp)]
    gone := fun hup => by
      rcases hup with hup | hup | hup
      · cases hup
      · cases hup
      · cases hio.symm.trans hup
    copied := fun g hg => by
      rcases List.mem_append.mp hg with hold | hwaits
      · obtain ⟨hbefore, hcopy⟩ := h.copied g hold
        exact ⟨hbefore.trans (Nat.le_add_right _ _), hcopy⟩
      · obtain ⟨k, hplace, hin, hcopy⟩ := h.waiting g hwaits
        refine ⟨?_, ?_⟩
        · show _ ≤ s.task.destOffset + s.task.writeBufferUsed
          rw [Nat.add_mul]
          omega
        · dsimp only
          rwa [hplace, hbytes k _ hin]
    waiting := fun g hg => absurd hg List.not_mem_nil
    ordered := by
      show InOrder (_ ++ [])
      rw [List.append_nil]
      exact h.ordered
    written := fun hswitch => by cases hswitch }

/-- **The rollback takes the switches back.** -/
theorem Inv.revert (hf : BetweenFiles src dest) (h : Inv src dest copies s)
    (hstate : s.task.state = .kRollback) :
    Inv src dest [] { s with
      task := { s.task with committedUpdates := [], migratedEntries := [] }
      store := { s.store with
        memIndex := (s.task.committedUpdates ++ s.task.migratedEntries).foldl
          MemIndex.revertIndexUpdate s.store.memIndex } } := by
  have havoids : MemIndex.Related.AvoidsFile dest s.alone.memIndex := fun i hi hlive =>
    (h.sound.live i hi hlive).elsewhere
  have hothers : ∀ g ∈ s.task.migratedEntries, g.newFileId = dest := fun g hg => by
    obtain ⟨k, -, -, hcopy⟩ := h.waiting g hg
    exact hcopy.newFile
  rw [h.listed (by rw [hstate]; simp)]
  exact { h with
    task := { h.task with }
    follows := { h.follows with
      related := h.follows.related.revertIndexUpdates hf h.sound.wf havoids
        (fun g hg => (h.copied g hg).named h.small) (List.pairwise_append.mp h.ordered).1
        hothers }
    first := fun hinit => by cases hstate.symm.trans hinit
    listed := fun _ => rfl
    gone := fun _ => rfl
    copied := fun g hg => absurd hg List.not_mem_nil
    waiting := fun g hg => absurd hg List.not_mem_nil
    ordered := .nil
    written := fun hswitch => by cases hstate.symm.trans hswitch }

/-- The step of a task that rolls back. -/
theorem Inv.startRollback (hf : BetweenFiles src dest) (h : Inv src dest copies s)
    (hstate : s.task.state = .kRollback)
    (hinv : CompactionTask.Inv (s.alone.writePages src.toNat * kPageSize)
      (s.task.startRollback s.store.memIndex).1) :
    Inv src dest [] { s with
      task := (s.task.startRollback s.store.memIndex).1
      store := { s.store with memIndex := (s.task.startRollback s.store.memIndex).2 } } := by
  have hreverted := h.revert hf hstate
  revert hinv
  rw [CompactionTask.startRollback]
  dsimp only
  split_ifs
  · intro hinv
    refine hreverted.goesOn (hreverted.carries rfl rfl rfl rfl rfl rfl) hinv ?_ ?_ ?_
      (fun _ => rfl) <;> simp [hstate]
  · intro hinv
    refine hreverted.goesOn (hreverted.carries rfl rfl rfl rfl rfl rfl) hinv ?_ ?_ ?_
      (fun _ => rfl) <;> simp [hstate]

/-- **A call of `step`.** -/
theorem Inv.taskStep (hf : BetweenFiles src dest)
    (hnew : ∀ fileId, files.newFile = some fileId → fileId = dest) (h : Inv src dest copies s)
    (hcurrent : s.task.ioPending = none → s.task.state = .kProcessEntries → s.ChunkCurrent)
    (nowNs : UInt64) (srcMeta : PageTracking) : ∃ copies', Inv src dest copies' { s with
      task := (s.task.step (s.filesNow files) srcMeta s.store.memIndex nowNs).1
      store := { s.store with
        memIndex := (s.task.step (s.filesNow files) srcMeta s.store.memIndex nowNs).2 } } := by
  have hend : (s.filesNow files).writeOffset = s.alone.writePages src.toNat * kPageSize := by
    rw [filesNow, h.source, h.follows.pages]
  have hinv : CompactionTask.Inv (s.alone.writePages src.toNat * kPageSize)
      (s.task.step (s.filesNow files) srcMeta s.store.memIndex nowNs).1 := by
    by_cases hcan : s.task.CanStep nowNs
    · rw [← hend]
      exact (step_advances (hend ▸ h.task) hcan).inv
    · rw [step_of_not_canStep hcan]
      exact h.task
  revert hinv
  rw [CompactionTask.step]
  split_ifs with hsome
  · exact fun _ => ⟨copies, h⟩
  · have hio : s.task.ioPending = none := Option.not_isSome_iff_eq_none.mp hsome
    cases hstate : s.task.state with
    | kInit => exact fun hinv => ⟨copies, h.init hstate hnew rfl hinv⟩
    | kMarkCompacting =>
        intro hinv
        refine ⟨copies, h.goesOn (h.carries rfl rfl rfl rfl rfl rfl) hinv ?_ ?_ ?_ ?_⟩ <;>
          simp [CompactionTask.markCompacting, hstate, GivenUp]
    | kReadChunk =>
        intro hinv
        refine ⟨copies, ?_⟩
        revert hinv
        dsimp only
        rw [CompactionTask.readNextChunk]
        split_ifs
        · intro hinv
          refine h.goesOn (h.carries rfl rfl rfl rfl rfl rfl) hinv ?_ ?_ ?_ ?_ <;>
            simp [hstate, GivenUp, hio]
        · intro hinv
          refine h.goesOn (h.carries rfl rfl rfl rfl rfl rfl) hinv ?_ ?_ ?_ ?_ <;>
            simp [hstate, GivenUp, hio]
        · intro hinv
          refine h.goesOn (h.carries rfl rfl rfl rfl rfl rfl) hinv ?_ ?_ ?_ ?_ <;>
            simp [hstate, GivenUp]
    | kProcessEntries =>
        exact fun hinv => ⟨copies, h.processEntries hf hstate hio (hcurrent hio hstate) rfl hinv⟩
    | kWriteChunk =>
        intro hinv
        refine ⟨copies, ?_⟩
        revert hinv
        dsimp only
        rw [CompactionTask.writeChunk]
        split_ifs
        · intro hinv
          refine h.goesOn (h.carries rfl rfl rfl rfl rfl rfl) hinv ?_ ?_ ?_ ?_ <;>
            simp [hstate, GivenUp, hio]
        · intro hinv
          refine h.goesOn (h.carries rfl rfl rfl rfl rfl rfl) hinv ?_ ?_ ?_ ?_ <;>
            simp [hstate, GivenUp]
    | kUpdateIndices => exact fun hinv => ⟨_, h.updateIndices hf hstate hio hinv⟩
    | kFinalize =>
        intro hinv
        refine ⟨copies, ?_⟩
        revert hinv
        dsimp only
        rw [CompactionTask.finalize]
        split_ifs
        · intro hinv
          refine h.goesOn (h.carries rfl rfl rfl rfl rfl rfl) hinv ?_ ?_ ?_ ?_ <;>
            simp [hstate, GivenUp, hio]
        · intro hinv
          refine h.goesOn (h.carries rfl rfl rfl rfl rfl rfl) hinv ?_ ?_ ?_ ?_ <;>
            simp [hstate, GivenUp, hio]
    | kMarkDeleted =>
        intro hinv
        refine ⟨copies, h.goesOn (h.carries rfl rfl rfl rfl rfl rfl) hinv ?_ ?_ ?_ ?_⟩ <;>
          simp [CompactionTask.markDeleted, hstate, GivenUp]
    | kRetryWait =>
        have hretried := h.task.retried hstate
        dsimp only
        rw [CompactionTask.checkRetryTimeout]
        split_ifs
        · intro hinv
          rcases hretried with htarget | htarget | htarget | htarget <;>
            refine ⟨copies, h.goesOn (h.carries rfl rfl rfl rfl rfl rfl) hinv ?_ ?_ ?_ ?_⟩ <;>
            simp [hstate, htarget, GivenUp, hio]
        · exact fun _ => ⟨copies, h⟩
    | kRollback => exact fun hinv => ⟨[], h.startRollback hf hstate hinv⟩
    | kRollbackMarkSealed =>
        intro hinv
        refine ⟨copies, h.goesOn (h.carries rfl rfl rfl rfl rfl rfl) hinv ?_ ?_ ?_
          (fun _ => h.gone (.inl hstate))⟩ <;> simp [CompactionTask.rollbackMarkSealed, hstate]
    | kWaitMarkComplete => exact fun _ => ⟨copies, h⟩
    | kWaitReadComplete => exact fun _ => ⟨copies, h⟩
    | kWaitWriteComplete => exact fun _ => ⟨copies, h⟩
    | kWaitDeleteComplete => exact fun _ => ⟨copies, h⟩
    | kWaitRollbackComplete => exact fun _ => ⟨copies, h⟩
    | kFailed => exact fun _ => ⟨copies, h⟩
    | kDone => exact fun _ => ⟨copies, h⟩

/-! ### The completions of the task -/

/-- The headers, the destination behind what it holds, are written without a change to the keys. -/
theorem Inv.onDisk (h : Inv src dest copies s) {disk : ByteStore ℕ}
    (hdisk : ∀ fileId address, fileId ≠ dest.toNat → kPageSize ≤ address →
      disk fileId address = s.store.disk fileId address)
    (hdest : disk dest.toNat = s.store.disk dest.toNat) :
    Inv src dest copies { s with store := { s.store with disk := disk } } :=
  { h with
    follows := { h.follows with
      disk := fun fileId address hne hle =>
        (hdisk fileId address hne hle).trans (h.follows.disk fileId address hne hle) }
    copied := fun g hg => by
      obtain ⟨hbefore, hcopy⟩ := h.copied g hg
      rw [← hdest] at hcopy
      exact ⟨hbefore, hcopy⟩
    written := fun hstate => by
      obtain ⟨hend, hbytes⟩ := h.written hstate
      rw [← hdest] at hbytes
      exact ⟨hend, hbytes⟩ }

theorem length_dataFileHeaderPage (fileId : UInt16) (state : FileState) :
    (dataFileHeaderPage fileId state).length = kPageSize := by
  unfold dataFileHeaderPage
  simp only [List.length_append, length_leBytes, List.length_replicate, List.length_cons,
    List.length_nil]
  rfl

/-- A header of the source is written. -/
theorem Inv.header (hf : BetweenFiles src dest) (h : Inv src dest copies s) (state : FileState) :
    Inv src dest copies { s with store := { s.store with
      disk := s.store.disk.write s.task.srcFileId.toNat 0
        (dataFileHeaderPage s.task.srcFileId state) } } := by
  have hne : dest.toNat ≠ s.task.srcFileId.toNat := by
    rw [h.source]
    exact fun heq => hf.ne (UInt16.toNat_inj.mp heq)
  refine h.onDisk (fun fileId address _ hle => ?_) (ByteStore.write_of_ne _ hne _ _)
  by_cases hfile : fileId = s.task.srcFileId.toNat
  · rw [hfile, ByteStore.write_self]
    refine ByteMemory.write_of_outside _ (.inr ?_)
    rw [length_dataFileHeaderPage, Nat.zero_add]
    exact hle
  · rw [ByteStore.write_of_ne _ hfile]

/-- The destination is removed when nothing leads to it. -/
theorem Inv.destRemoved (h : Inv src dest [] s) (hopened : s.task.destFileId = dest)
    (hstate : s.task.state ≠ .kUpdateIndices) : Inv src dest [] { s with
      store := { s.store with
        disk := Function.update s.store.disk s.task.destFileId.toNat ByteMemory.zero } } := by
  rw [hopened]
  exact { h with
    follows := { h.follows with
      disk := fun fileId address hne hle => by
        dsimp only
        rw [Function.update_of_ne hne]
        exact h.follows.disk fileId address hne hle }
    copied := fun g hg => absurd hg List.not_mem_nil
    written := fun hswitch => absurd hswitch hstate }

/-- An operation has failed. -/
theorem Inv.handleIoError (h : Inv src dest copies s) {state : CompactionState} {status : ℤ}
    {nowNs : UInt64}
    (hopened : s.task.state ≠ .kInit ∧ s.task.state ≠ .kFailed ∧ s.task.state ≠ .kDone)
    (hinv : CompactionTask.Inv (s.alone.writePages src.toNat * kPageSize)
      (({ s.task with ioPending := none } : CompactionTask).handleIoError state status nowNs)) :
    Inv src dest copies { s with
      task := ({ s.task with ioPending := none } : CompactionTask).handleIoError state status
        nowNs } := by
  revert hinv
  rw [CompactionTask.handleIoError]
  dsimp only
  split_ifs
  · intro hinv
    exact h.goesOn (h.carries rfl rfl rfl rfl rfl rfl) hinv hopened (by simp) (by simp)
      (by simp [GivenUp])
  · intro hinv
    exact h.goesOn (h.carries rfl rfl rfl rfl rfl rfl) hinv hopened (by simp) (by simp)
      (by simp [GivenUp])

/-- **A chunk has been written** to the destination. -/
theorem Inv.writeChunk (h : Inv src dest copies s) (hstate : s.task.state = .kWriteChunk)
    (hend : s.task.destOffset + s.task.writeBufferUsed ≤ kDefaultFileSize)
    (hinv : CompactionTask.Inv (s.alone.writePages src.toNat * kPageSize)
      { s.task with ioPending := none, retryCount := 0, state := .kUpdateIndices }) :
    Inv src dest copies { s with
      task := { s.task with ioPending := none, retryCount := 0, state := .kUpdateIndices }
      store := { s.store with
        disk := s.store.disk.write s.task.destFileId.toNat s.task.destOffset
          s.task.writeBuffer } } := by
  have hdest := h.opened (by rw [hstate]; simp) (by rw [hstate]; simp)
  rw [hdest]
  exact { h with
    task := hinv
    follows := { h.follows with
      disk := fun fileId address hne hle => by
        dsimp only
        rw [ByteStore.write_of_ne _ hne]
        exact h.follows.disk fileId address hne hle }
    opened := fun _ _ => hdest
    first := fun hinit => by cases hinit
    listed := fun _ => h.listed (by rw [hstate]; simp)
    gone := fun hup => by
      rcases hup with hup | hup | hup <;> cases hup
    copied := fun g hg => by
      obtain ⟨hbefore, hcopy⟩ := h.copied g hg
      refine ⟨hbefore, ?_⟩
      rw [Nat.add_mul] at hbefore
      dsimp only
      rwa [ByteStore.write_self, ByteMemory.read_write_of_disjoint _ (.inl hbefore)]
    written := fun _ => ⟨hend, fun k len hle => by
      dsimp only
      rw [ByteStore.write_self, ByteMemory.read_write_within _ hle, slice]⟩ }

/-- The source is marked as deleted: the task is done. -/
theorem Inv.done (h : Inv src dest copies s)
    (hopened : s.task.state ≠ .kInit ∧ s.task.state ≠ .kFailed)
    (hinv : CompactionTask.Inv (s.alone.writePages src.toNat * kPageSize) { s.task with
      ioPending := none, committedUpdates := [], migratedEntries := [], state := .kDone }) :
    Inv src dest copies { s with task := { s.task with
      ioPending := none, committedUpdates := [], migratedEntries := [], state := .kDone } } :=
  { h with
    task := hinv
    opened := fun _ _ => h.opened hopened.1 hopened.2
    first := fun hinit => by cases hinit
    listed := fun hdone => absurd rfl hdone
    gone := fun hup => by
      rcases hup with hup | hup | hup <;> cases hup
    copied := fun g hg => ⟨(h.copied g hg).before, (h.copied g hg).copy⟩
    waiting := fun g hg => absurd hg List.not_mem_nil
    ordered := by
      show InOrder (_ ++ [])
      rw [List.append_nil]
      exact (List.pairwise_append.mp h.ordered).1
    written := fun hswitch => by cases hswitch }

/-- The removal of the destination has been answered. -/
theorem Inv.removed (h : Inv src dest copies s) (hio : s.task.ioPending = some .removeFile)
    (hstate : s.task.state = .kRollback)
    (hinv : CompactionTask.Inv (s.alone.writePages src.toNat * kPageSize) { s.task with
      ioPending := none, state := .kRollbackMarkSealed }) :
    Inv src dest copies { s with task := { s.task with
      ioPending := none, state := .kRollbackMarkSealed } } := by
  refine h.goesOn (h.carries rfl rfl rfl rfl rfl rfl) hinv ?_ ?_ ?_
    (fun _ => h.gone (.inr (.inr hio))) <;> simp [hstate]

/-- The rollback has been answered: the task has failed. -/
theorem Inv.failed (h : Inv src dest copies s) (hstate : s.task.state = .kRollbackMarkSealed)
    (hinv : CompactionTask.Inv (s.alone.writePages src.toNat * kPageSize) { s.task with
      ioPending := none, migratedEntries := [], committedUpdates := [], writeBuffer := [],
      state := .kFailed }) :
    Inv src dest copies { s with task := { s.task with
      ioPending := none, migratedEntries := [], committedUpdates := [], writeBuffer := [],
      state := .kFailed } } := by
  obtain rfl := h.gone (.inl hstate)
  have hcommitted := h.listed (by rw [hstate]; simp)
  refine h.goesOn ⟨rfl, rfl, rfl, hcommitted.symm, dvd_zero _, Nat.zero_le _,
    fun g hg => absurd hg List.not_mem_nil, .nil⟩ hinv ?_ ?_ ?_ (fun _ => rfl) <;> simp [hstate]

/-- **The operation that the task waits for completes.** -/
theorem Inv.taskComplete (hf : BetweenFiles src dest) (h : Inv src dest copies s)
    {status : ℤ} {nowNs : UInt64}
    (hroom : s.task.ioPending = some .writeChunk → status = 0 →
      s.task.destOffset + s.task.writeBufferUsed ≤ kDefaultFileSize)
    (hcomplete : s.task.complete (s.filesNow files) status nowNs = some t') :
    ∃ copies', Inv src dest copies' { s with
      task := t'
      store := { s.store with disk := s.task.diskAfter s.store.disk status } } := by
  have hend : (s.filesNow files).writeOffset = s.alone.writePages src.toNat * kPageSize := by
    rw [filesNow, h.source, h.follows.pages]
  have hinv : CompactionTask.Inv (s.alone.writePages src.toNat * kPageSize) t' := by
    have hadvances := (complete_advances (hend ▸ h.task) hcomplete).1.inv
    rwa [hend] at hadvances
  obtain ⟨io, hio, rfl⟩ := Option.map_eq_some_iff.mp hcomplete
  have hstate := h.task.pending io hio
  rw [diskAfter, hio]
  revert hinv
  by_cases hok : status = 0
  · rw [if_neg (not_not.mpr hok)]
    cases io with
    | markCompacting =>
        dsimp only
        rw [if_pos hok]
        intro hinv
        have hheader := h.header hf .kCompacting
        refine ⟨copies, hheader.goesOn (hheader.carries rfl rfl rfl rfl rfl rfl) hinv
          ?_ (by simp) (by simp) (by simp [GivenUp])⟩
        simp [hstate, issuedIn]
    | readChunk readSize =>
        dsimp only
        rw [if_pos hok]
        intro hinv
        refine ⟨copies, h.goesOn (h.carries rfl rfl rfl rfl rfl rfl) hinv
          ?_ (by simp) (by simp) (by simp [GivenUp])⟩
        simp [hstate, issuedIn]
    | writeChunk =>
        dsimp only
        rw [if_pos hok]
        exact fun hinv => ⟨copies, h.writeChunk hstate (hroom hio hok) hinv⟩
    | markDeleted =>
        dsimp only
        rw [if_pos hok]
        exact fun hinv => ⟨copies, (h.header hf .kDeleted).done (by simp [hstate, issuedIn]) hinv⟩
    | removeFile =>
        intro hinv
        obtain rfl := h.gone (.inr (.inr hio))
        have hremoved := h.destRemoved (h.opened (by simp [hstate, issuedIn])
          (by simp [hstate, issuedIn])) (by simp [hstate, issuedIn])
        exact ⟨[], hremoved.removed hio hstate hinv⟩
    | markSealed =>
        exact fun hinv => ⟨copies, (h.header hf .kSealed).failed hstate hinv⟩
  · rw [if_pos hok]
    have hopened : s.task.state ≠ .kInit ∧ s.task.state ≠ .kFailed ∧ s.task.state ≠ .kDone := by
      rw [hstate]
      cases io <;> simp [issuedIn]
    cases io with
    | markCompacting =>
        dsimp only
        rw [if_neg hok]
        exact fun hinv => ⟨copies, h.handleIoError hopened hinv⟩
    | readChunk readSize =>
        dsimp only
        rw [if_neg hok]
        exact fun hinv => ⟨copies, h.handleIoError hopened hinv⟩
    | writeChunk =>
        dsimp only
        rw [if_neg hok]
        exact fun hinv => ⟨copies, h.handleIoError hopened hinv⟩
    | markDeleted =>
        dsimp only
        rw [if_neg hok]
        exact fun hinv => ⟨copies, h.handleIoError hopened hinv⟩
    | removeFile => exact fun hinv => ⟨copies, h.removed hio hstate hinv⟩
    | markSealed => exact fun hinv => ⟨copies, h.failed hstate hinv⟩

end Task

end Invariant

end SharedStore

end SpdkKv
